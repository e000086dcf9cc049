import Interleave.Execution
import Interleave.Report
import Interleave.StopRule

namespace Interleave

structure Exploration where
  schedules : Nat
  bugs : List BugReport
  sleepSetBlocked : Nat
  stepLimitHits : Nat
  /-- The completed executions that left actors blocked for ever. -/
  blockedActorExecutions : Nat
  exhausted : Bool
  maxSteps : Nat
  maxActors : Nat
  maxEnabled : Nat
deriving DecidableEq

namespace Exploration

def empty : Exploration := ⟨0, [], 0, 0, 0, false, 0, 0, 0⟩

def firstBug? (exploration : Exploration) : Option BugReport := exploration.bugs.head?

def add (exploration : Exploration) (execution : Execution) : Exploration :=
  let counted := { exploration with
    schedules := exploration.schedules + 1
    maxSteps := max exploration.maxSteps execution.trace.length
    maxActors := max exploration.maxActors execution.statuses.length
    maxEnabled := max exploration.maxEnabled execution.maxEnabled }
  match execution.outcome with
  | .bug error =>
      { counted with
        bugs := counted.bugs ++ [⟨exploration.schedules, error.text, execution.trace⟩] }
  | .sleepSetBlocked => { counted with sleepSetBlocked := counted.sleepSetBlocked + 1 }
  | .hitStepLimit => { counted with stepLimitHits := counted.stepLimitHits + 1 }
  | .completed =>
      if execution.deadlocked.isEmpty then counted
      else { counted with blockedActorExecutions := counted.blockedActorExecutions + 1 }

def report (exploration : Exploration) (milliseconds : Nat) : String :=
  Progress.text
    ⟨exploration.schedules, exploration.bugs.length, exploration.sleepSetBlocked,
      exploration.stepLimitHits, exploration.maxSteps, milliseconds, true⟩ ++
    BugReport.textAll exploration.bugs

end Exploration

structure Recording (μ : Type) where
  turns : List Turn
  notes : List (Note μ)

/-- Executes a program under a scheduler, again and again. -/
structure Launcher (π μ : Type) where
  policy : π
  iterations : Option Nat
  stopRule : StopRule
  executions : Nat
  recording : Bool
  recordings : Array (Recording μ)

namespace Launcher

variable {π σ μ : Type}

def ofPolicy (recording : Bool) (policy : π) : Launcher π μ :=
  ⟨policy, none, .default, 0, recording, #[]⟩

def add (launcher : Launcher π μ) (policy : π) (recording : Recording μ) : Launcher π μ :=
  { launcher with
    policy := policy
    executions := launcher.executions + 1
    recordings :=
      if launcher.recording then launcher.recordings.push recording else launcher.recordings }

/-- Bounds on the work of an execution and of an exploration. -/
structure Allowance where
  ticks : Nat
  executions : Nat

def Allowance.ample : Allowance := ⟨Nat.pow 2 40, Nat.pow 2 40⟩

variable [Scheduler π]

/-- Executes the program once under the current schedule. -/
def execute (program : Program σ μ) (allowance : Allowance) :
    Attempt (Launcher π μ) Execution := do
  let launcher ← get
  let first := Run.start program launcher.executions launcher.policy
  let run ← (first.complete program allowance.ticks : StateM Log _)
  set (launcher.add run.policy ⟨run.turns.toList, run.machine.notes.toList⟩)
  if !run.isFinished then throw .tooLong
  run.machine.result

def advance : Attempt (Launcher π μ) Bool := do
  let launcher ← get
  let (result, policy) ← ((Scheduler.advance : Attempt π Bool).runOn launcher.policy : StateM Log _)
  set { launcher with policy }
  match result with
  | .ok more => return more
  | .error fault =>
      if fault.isEngine then Attempt.log (.fault fault)
      throw fault

def exploreFrom (program : Program σ μ) (allowance : Allowance) :
    Nat → Exploration → Attempt (Launcher π μ) Exploration
  | 0, _ => throw .tooLong
  | executions + 1, exploration => do
      let execution ← execute program allowance
      Attempt.log (.executionFinished exploration.schedules execution.outcome
        execution.trace.length)
      let explored := exploration.add execution
      let launcher ← get
      if launcher.stopRule.stops explored.bugs.length then return explored
      if !(← advance) then return { explored with exhausted := true }
      if launcher.iterations.any fun limit => limit ≤ explored.schedules then return explored
      exploreFrom program allowance executions explored

def explore (program : Program σ μ) (allowance : Allowance) :
    Attempt (Launcher π μ) Exploration := do
  let exploration ← exploreFrom program allowance allowance.executions .empty
  Attempt.log (.explorationDone exploration.schedules exploration.bugs.length
    exploration.exhausted)
  return exploration

end Launcher

end Interleave
