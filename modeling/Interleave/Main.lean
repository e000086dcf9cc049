import Interleave.Demo.CommandLine

namespace Interleave

def perform (command : CommandLine.Command) : IO UInt32 := do
  let output ← IO.getStdout
  output.putStr command.heading
  output.flush
  let start ← IO.monoMsNow
  match command.work () with
  | .ok text =>
      let elapsed := (← IO.monoMsNow) - start
      output.putStr (text elapsed)
      return 0
  | .error fault =>
      IO.eprintln fault.text
      return 101

end Interleave

def main (arguments : List String) : IO UInt32 := do
  match arguments with
  | [] =>
      IO.eprintln "USAGE: hello [ARGUMENTS] | lock_counter [ARGUMENTS]"
      return 1
  | demonstration :: rest =>
      match Interleave.CommandLine.command? demonstration rest with
      | some command => Interleave.perform command
      | none =>
          IO.eprintln "An argument is missing or is not a number."
          return 1
