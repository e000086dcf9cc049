import Interleave.Trace

namespace Interleave

/-- A bug, with the number of the execution that found it and the trace that leads to it. -/
structure BugReport where
  iteration : Nat
  error : String
  trace : Trace
deriving DecidableEq

structure Progress where
  schedules : Nat
  bugs : Nat
  sleepSetBlocked : Nat
  stepLimitHits : Nat
  maxSteps : Nat
  milliseconds : Nat
  done : Bool

namespace Progress

/-- The time is given in whole seconds, and only at the end. -/
def text (progress : Progress) : String :=
  (if progress.done then "Done." else "Exploring.") ++
    s!" schedules={progress.schedules}, bugs={progress.bugs}, " ++
    s!"sleep blocked={progress.sleepSetBlocked}, " ++
    s!"step limit hits={progress.stepLimitHits}, max steps={progress.maxSteps}" ++
    (if progress.done then s!", sec={progress.milliseconds / 1000}" else "") ++ "\n"

end Progress

namespace BugReport

def text (bug : BugReport) : String :=
  s!"Bug in schedule {bug.iteration}: {bug.error} trace={bug.trace.text}\n"

def textAll (bugs : List BugReport) : String := String.join (bugs.map text)

end BugReport

end Interleave
