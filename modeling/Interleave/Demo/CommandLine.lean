import Interleave.Demo.Deposits
import Interleave.Demo.Greeting
import Interleave.Exploration
import Interleave.Json.Form
import Interleave.Policy

namespace Interleave.CommandLine

structure Command where
  heading : String
  work : Unit → Except Fault (Nat → String)

structure Transcript where
  exit : Nat
  output : String
deriving DecidableEq

namespace Transcript

def refused : Transcript := ⟨1, ""⟩

end Transcript

namespace Command

def lines (lines : List String) : String := String.join (lines.map fun line => line ++ "\n")

def print (shown : List String) : Command := ⟨lines shown, fun _ => .ok fun _ => ""⟩

def transcript (milliseconds : Nat) (command : Command) : Transcript :=
  match command.work () with
  | .ok text => ⟨0, command.heading ++ text milliseconds⟩
  | .error _ => ⟨101, command.heading⟩

end Command

def number? (argument : String) : Option Nat :=
  let digits :=
    match argument.toList with
    | '+' :: digits => digits
    | digits => digits
  let value := Json.Numeral.extend 0 digits
  if !digits.isEmpty ∧ digits.all Char.isDigit ∧ value < wordSize then some value else none

/-- The number that is next, if it is one, and the arguments after it. -/
def required : List String → Option (Nat × List String)
  | [] => none
  | argument :: rest => (number? argument).map fun number => (number, rest)

/-- The number that is next, or the default if there are no more arguments. -/
def optional (default : Nat) : List String → Option (Nat × List String)
  | [] => some (default, [])
  | arguments => required arguments

def name? : List String → Option (String × List String)
  | [] => none
  | name :: rest => if name.startsWith "-" then none else some (name, rest)

def explore (launcher : Launcher Policy μ) (program : Program σ μ) : Except Fault Exploration :=
  (((Launcher.explore program .ample).runOn launcher).run (.empty .info)).1.1

def execute (launcher : Launcher Policy μ) (program : Program σ μ) : Except Fault Execution :=
  (((Launcher.execute program .ample).runOn launcher).run (.empty .info)).1.1

def exploring (heading : String) (launcher : Launcher Policy μ) (program : Program σ μ)
    (more : Exploration → String) : Command where
  heading := heading ++ "\n"
  work _ := do
    let exploration ← explore launcher program
    return fun milliseconds => exploration.report milliseconds ++ more exploration

def sampling (iterations : Nat) (policy : Policy) : Launcher Policy μ :=
  { Launcher.ofPolicy false policy with iterations := some iterations, stopRule := .exhausted }

def searching (settings : Settings) : Launcher Policy μ :=
  .ofPolicy false (.search (.ofSettings settings))

namespace Greeting

def usage : List String :=
  ["USAGE:", "  ./hello dfs", "  ./hello random [ITERATIONS] [SEED]",
    "  ./hello pct [ITERATIONS] [CHANGE_POINTS]"]

def random (arguments : List String) : Option Command := do
  let (iterations, arguments) ← optional 1000 arguments
  let (seed, _) ← optional 0 arguments
  return exploring s!"Sampling {iterations} random schedules of the greeting. seed={seed}"
    (sampling iterations (.uniform (.ofSettings { seed := seed }))) Greeting.program fun _ => ""

def priority (arguments : List String) : Option Command := do
  let (iterations, arguments) ← optional 1000 arguments
  let (points, _) ← optional 2 arguments
  return exploring
    s!"Sampling {iterations} PCT schedules of the greeting. change_points={points}"
    (sampling iterations (.priority (.ofSettings { changePoints := points })))
    Greeting.program fun _ => ""

def command? (arguments : List String) : Option Command :=
  match name? arguments with
  | some ("dfs", _) =>
      some (exploring "Exhaustively exploring the greeting." (searching {}) Greeting.program
        fun _ => "")
  | some ("random", rest) => random rest
  | some ("pct", rest) => priority rest
  | _ => some (.print usage)

end Greeting

namespace Deposits

def usage : List String :=
  ["USAGE:", "  ./lock_counter check [DEPOSITOR_COUNT]",
    "  ./lock_counter check-racy [DEPOSITOR_COUNT]",
    "  ./lock_counter random [DEPOSITOR_COUNT] [ITERATIONS]",
    "  ./lock_counter replay DEPOSITOR_COUNT TRACE_JSON"]

def check (arguments : List String) : Option Command := do
  let (depositors, _) ← optional 2 arguments
  return exploring s!"Exploring locked deposits with {depositors} depositors." (searching {})
    (Deposits.program depositors true) fun _ => ""

/-- How the first bug can be seen again. -/
def hint (depositors : Nat) (exploration : Exploration) : String :=
  match exploration.firstBug? with
  | some bug =>
      s!"Replay with: ./lock_counter replay {depositors} '" ++ Json.encode bug.trace ++ "'\n"
  | none => ""

def checkRacy (arguments : List String) : Option Command := do
  let (depositors, _) ← optional 2 arguments
  return exploring s!"Exploring unlocked deposits with {depositors} depositors." (searching {})
    (Deposits.program depositors false) (hint depositors)

def finding (seed : Nat) (exploration : Exploration) : String :=
  s!"seed={seed}, schedules={exploration.schedules}: " ++
    (match exploration.firstBug? with
      | some bug => bug.error ++ " trace=" ++ Json.encode bug.trace
      | none => "no bug") ++ "\n"

def random (arguments : List String) : Option Command := do
  let (depositors, arguments) ← optional 3 arguments
  let (iterations, _) ← optional 10000 arguments
  let launcher : Launcher Policy Deposits.Message :=
    { searching { randomized := true } with iterations := some (iterations + 1) }
  return {
    heading := "Sampling " ++ toString iterations ++
      " randomized race-reversal schedules of unlocked deposits with " ++
      toString depositors ++ " depositors on 1 threads.\n"
    work := fun _ => do
      let exploration ← explore launcher (Deposits.program depositors false)
      return fun _ => finding 0 exploration }

def statusLine (status : Status) : String :=
  let name :=
    match status.name with
    | some name => "Some(" ++ Text.quoted name ++ ")"
    | none => "None"
  s!"  {status.id.text} {name} faults=" ++
    Text.bracketed (status.faults.map ActorError.literal) ++ "\n"

def replayed (execution : Execution) : String :=
  s!"Replayed {execution.trace.length} steps. outcome={execution.outcome.literal}\n" ++
    String.join (execution.statuses.map statusLine)

def replay (arguments : List String) : Option Command := do
  let (depositors, arguments) ← required arguments
  let written ← arguments.head?
  match (Json.decode written : Except Json.Problem Trace) with
  | .error problem => return .print ["Invalid trace: " ++ problem.text written]
  | .ok trace =>
      return {
        heading := ""
        work := fun _ => do
          let execution ←
            execute (.ofPolicy false (.replay (.ofTrace trace)))
              (Deposits.program depositors false)
          return fun _ => replayed execution }

def command? (arguments : List String) : Option Command :=
  match name? arguments with
  | some ("check", rest) => check rest
  | some ("check-racy", rest) => checkRacy rest
  | some ("random", rest) => random rest
  | some ("replay", rest) => replay rest
  | _ => some (.print usage)

end Deposits

def command? (demonstration : String) (arguments : List String) : Option Command :=
  if demonstration = "hello" then Greeting.command? arguments else Deposits.command? arguments

def transcript (milliseconds : Nat) (demonstration : String) (arguments : List String) :
    Transcript :=
  match command? demonstration arguments with
  | some command => command.transcript milliseconds
  | none => .refused

end Interleave.CommandLine
