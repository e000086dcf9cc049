import Interleave.Machine.Step
import Interleave.Scheduler
import Interleave.Trace

namespace Interleave

structure Execution where
  outcome : Outcome
  trace : Trace
  statuses : List Status
  /-- The actors that were blocked for ever. -/
  deadlocked : List ActorId
  maxEnabled : Nat
deriving DecidableEq

namespace Machine

variable {σ μ : Type}

/-- A bug comes before all else, and a cut before completion. -/
def outcome (machine : Machine σ μ) : Outcome :=
  match machine.bug with
  | some error => .bug error
  | none =>
      if machine.sleepSetBlocked then .sleepSetBlocked
      else if machine.hitStepLimit then .hitStepLimit
      else .completed

/-- The fault of the root counts first, then that of the actor created last. -/
def crash? (machine : Machine σ μ) : Option Fault :=
  let later (best other : ActorId × Fault) : ActorId × Fault :=
    if best.1 = .root ∨ (other.1 ≠ .root ∧ other.1.index < best.1.index) then best else other
  match machine.crashes with
  | [] => none
  | first :: rest => some (rest.foldl later first).2

def summary (machine : Machine σ μ) : Execution where
  outcome := machine.outcome
  trace := ⟨machine.trace.toList⟩
  statuses := machine.statuses
  deadlocked := machine.deadlocked
  maxEnabled := machine.maxEnabled

def result (machine : Machine σ μ) : Except Fault Execution :=
  match machine.crash? with
  | some fault => .error fault
  | none => .ok machine.summary

end Machine

/-- A scheduling point with the decision made there. -/
structure Turn where
  current : ActorId
  actors : List Snapshot
  decision : Decision
deriving DecidableEq

structure Run (π σ μ : Type) where
  machine : Machine σ μ
  policy : π
  turns : Array Turn

namespace Run

variable {π σ μ : Type} [Scheduler π]

def start (program : Program σ μ) (number : Nat) (policy : π) : Run π σ μ :=
  ⟨.start (program.root number), policy, #[]⟩

/-- Asks the scheduler for a decision. A fault of the scheduler is a fault of the actor that has
reached the scheduling point. -/
def choose (id : ActorId) (run : Run π σ μ) : StateM Log (Run π σ μ) := do
  let actors := run.machine.snapshots
  match ← (Scheduler.choose actors id : Attempt π Decision).runOn run.policy with
  | (.ok decision, policy) =>
      return ⟨← run.machine.decide id decision, policy, run.turns.push ⟨id, actors, decision⟩⟩
  | (.error fault, policy) => return { run with machine := ← run.machine.crash id fault, policy }

def step (program : Program σ μ) (run : Run π σ μ) : StateM Log (Run π σ μ) := do
  match run.machine.control with
  | .choosing id => run.choose id
  | _ => return { run with machine := ← run.machine.tick program }

def isFinished (run : Run π σ μ) : Bool :=
  match run.machine.control with
  | .finished => true
  | _ => false

/-- Goes on until the execution is over, for at most so many steps. -/
def complete (program : Program σ μ) : Nat → Run π σ μ → StateM Log (Run π σ μ)
  | 0, run => return run
  | allowance + 1, run => do
      if run.isFinished then return run
      complete program allowance (← run.step program)

end Run

end Interleave
