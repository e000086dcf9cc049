import Interleave.Operation

namespace Interleave

/-- `sendStep` belongs to an enabled receive: the step that sent the message it will take. -/
structure Snapshot where
  id : ActorId
  enabled : Bool
  operation : Operation
  sendStep : Option Nat
deriving DecidableEq

namespace Snapshot

def kind (snapshot : Snapshot) : OpKind := snapshot.operation.kind

def text (snapshot : Snapshot) : String :=
  "(" ++ snapshot.id.text ++ ", " ++ snapshot.operation.text ++ ")"

/-- The actor has performed its last step. -/
def isOver (snapshot : Snapshot) : Bool :=
  snapshot.kind = .stop && !snapshot.enabled

def line (selected : Option ActorId) (snapshot : Snapshot) : String :=
  let margin :=
    if selected = some snapshot.id then ">  "
    else if snapshot.enabled then "   "
    else ""
  margin ++ snapshot.text ++ "\n"

def listing (actors : List Snapshot) (selected : Option ActorId) : String :=
  String.join ((actors.filter fun actor => !actor.isOver).map (line selected))

/-- The enabled actors, or only the preferred ones among them if there are any. -/
def enabledPreferring (preferred : Snapshot → Bool) (actors : List Snapshot) : List Snapshot :=
  let enabled := actors.filter Snapshot.enabled
  let choices := enabled.filter preferred
  if choices.isEmpty then enabled else choices

theorem mem_of_mem_enabledPreferring {preferred : Snapshot → Bool} {actors : List Snapshot}
    {actor : Snapshot} (chosen : actor ∈ enabledPreferring preferred actors) :
    actor ∈ actors ∧ actor.enabled := by
  simp only [enabledPreferring] at chosen
  split at chosen
  · exact List.mem_filter.mp chosen
  · exact List.mem_filter.mp (List.mem_filter.mp chosen).1

theorem enabledPreferring_eq_nil_iff {preferred : Snapshot → Bool} {actors : List Snapshot} :
    enabledPreferring preferred actors = [] ↔ ∀ actor ∈ actors, actor.enabled = false := by
  have none_iff : actors.filter Snapshot.enabled = [] ↔
      ∀ actor ∈ actors, actor.enabled = false := by
    simp [List.filter_eq_nil_iff]
  simp only [enabledPreferring]
  split
  · exact none_iff
  · rename_i some_preferred
    constructor
    · intro nil
      exact absurd nil (by simpa using some_preferred)
    · intro nil
      rw [none_iff.mpr nil]
      rfl

end Snapshot

end Interleave
