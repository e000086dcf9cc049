import Interleave.Scheduler
import Interleave.Trace

namespace Interleave.Policy

structure Replay where
  trace : Trace
  position : Nat

namespace Replay

def ofTrace (trace : Trace) : Replay := ⟨trace, 0⟩

/-- After the last step of the trace, an actor that is still enabled is not run. -/
def atEnd (actors : List Snapshot) : Decision :=
  if actors.any Snapshot.enabled then .hitStepLimit else .deadlock

def follow (actors : List Snapshot) (next : ActorId) (step : Nat) : Except Fault Decision :=
  if actors[next.index]?.any Snapshot.enabled then .ok (.run next)
  else .error (.notReplayable next step actors)

def choose (actors : List Snapshot) : Attempt Replay Decision := do
  let policy ← get
  match policy.trace.steps[policy.position]? with
  | none => return atEnd actors
  | some next =>
      let step := policy.position + 1
      set { policy with position := step }
      follow actors next step

def advance (policy : Replay) : Bool × Replay := (false, { policy with position := 0 })

instance : Scheduler Replay where
  choose actors _ := choose actors
  advance := Attempt.change advance
  steps := position

end Replay

end Interleave.Policy
