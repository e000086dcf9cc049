import Interleave.Fault

namespace Interleave

structure Clock where
  components : Array UInt32
deriving DecidableEq

namespace Clock

def zero (size : Nat) : Clock := ⟨Array.replicate size 0⟩

/-- A component beyond the end is zero. -/
def get (clock : Clock) (actor : Nat) : UInt32 := clock.components[actor]?.getD 0

def size (clock : Clock) : Nat := clock.components.size

def tabulate (size : Nat) (component : Nat → UInt32) : Clock :=
  ⟨(Array.range size).map component⟩

def set (clock : Clock) (actor : Nat) (step : UInt32) : Clock :=
  tabulate (max clock.size (actor + 1)) fun other =>
    if other = actor then step else clock.get other

def ofSize (size : Nat) : Except Fault Clock := do
  Checked.room size 4
  return zero size

/-- Sets a component of a clock that may have to grow for it. -/
def assign (clock : Clock) (actor : Nat) (step : UInt32) : Except Fault Clock := do
  Checked.room (actor + 1) 4
  return clock.set actor step

def join (left right : Clock) : Clock :=
  tabulate (max left.size right.size) fun actor => max (left.get actor) (right.get actor)

/-- Some step known to `earlier` is also known to `later`. -/
def anyBefore (earlier later : Clock) : Bool :=
  (List.range earlier.size).any fun actor =>
    0 < earlier.get actor && earlier.get actor ≤ later.get actor

def text (clock : Clock) : String :=
  "<" ++ String.join (clock.components.toList.map fun step => toString step ++ ", ") ++ "...>"

theorem get_eq_zero_of_size_le {clock : Clock} {actor : Nat} (beyond : clock.size ≤ actor) :
    clock.get actor = 0 := by
  simp only [size] at beyond
  simp [get, Array.getElem?_eq_none beyond]

theorem get_tabulate (size : Nat) (component : Nat → UInt32) (actor : Nat) :
    (tabulate size component).get actor = if actor < size then component actor else 0 := by
  by_cases inside : actor < size <;> simp [tabulate, get, inside]

@[simp] theorem get_zero (size actor : Nat) : (zero size).get actor = 0 := by
  by_cases inside : actor < size <;> simp [zero, get, inside]

theorem get_set (clock : Clock) (actor other : Nat) (step : UInt32) :
    (clock.set actor step).get other = if other = actor then step else clock.get other := by
  rw [set, get_tabulate]
  by_cases inside : other < max clock.size (actor + 1)
  · simp [inside]
  · have beyond : clock.size ≤ other := by omega
    have different : other ≠ actor := by omega
    simp [inside, different, get_eq_zero_of_size_le beyond]

theorem get_join (left right : Clock) (actor : Nat) :
    (left.join right).get actor = max (left.get actor) (right.get actor) := by
  rw [join, get_tabulate]
  by_cases inside : actor < max left.size right.size
  · simp [inside]
  · have beyondLeft : left.size ≤ actor := by omega
    have beyondRight : right.size ≤ actor := by omega
    rw [if_neg inside, get_eq_zero_of_size_le beyondLeft, get_eq_zero_of_size_le beyondRight]
    rfl

theorem anyBefore_iff {earlier later : Clock} :
    earlier.anyBefore later ↔
      ∃ actor, 0 < earlier.get actor ∧ earlier.get actor ≤ later.get actor := by
  constructor
  · intro found
    obtain ⟨actor, _, known⟩ := List.any_eq_true.mp found
    exact ⟨actor, by simpa using known⟩
  · rintro ⟨actor, positive, reached⟩
    refine List.any_eq_true.mpr ⟨actor, ?_, by simp [positive, reached]⟩
    refine List.mem_range.mpr (Nat.lt_of_not_le fun beyond => ?_)
    rw [get_eq_zero_of_size_le beyond] at positive
    exact absurd positive (by decide)

end Clock

end Interleave
