import Interleave.Scheduler

namespace Interleave.Policy

structure Scripted where
  script : List Decision
  calls : Nat

namespace Scripted

def ofScript (script : List Decision) : Scripted := ⟨script, 0⟩

def firstEnabled (actors : List Snapshot) : Decision :=
  match actors.find? Snapshot.enabled with
  | some actor => .run actor.id
  | none => .deadlock

def choose (actors : List Snapshot) (policy : Scripted) : Decision × Scripted :=
  (policy.script[policy.calls]?.getD (firstEnabled actors),
    { policy with calls := policy.calls + 1 })

def advance (policy : Scripted) : Bool × Scripted := (false, { policy with calls := 0 })

instance : Scheduler Scripted where
  choose actors _ := Attempt.change (choose actors)
  advance := Attempt.change advance
  steps := calls

end Scripted

end Interleave.Policy
