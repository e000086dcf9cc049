import Interleave.Fault

namespace Interleave

structure Frame.Entry where
  snapshot : Snapshot
  selected : Bool
  asleep : Bool
  backtrack : Bool
deriving DecidableEq

namespace Frame.Entry

def ofSnapshot (snapshot : Snapshot) : Entry := ⟨snapshot, false, false, false⟩

def id (entry : Entry) : ActorId := entry.snapshot.id

def enabled (entry : Entry) : Bool := entry.snapshot.enabled

def operation (entry : Entry) : Operation := entry.snapshot.operation

def kind (entry : Entry) : OpKind := entry.snapshot.kind

/-- Marked for exploration and not put to sleep yet. -/
def pending (entry : Entry) : Bool := entry.backtrack && !entry.asleep

def select (entry : Entry) : Entry := { entry with selected := true }

def deselect (entry : Entry) : Entry := { entry with selected := false }

def sleep (entry : Entry) : Entry := { entry with asleep := true }

def mark (entry : Entry) : Entry := { entry with backtrack := true }

end Frame.Entry

structure Frame where
  entries : List Frame.Entry
deriving DecidableEq

inductive Choice
  | entry (index : Nat)
  /-- Some actor is enabled, but none that is worth exploring. -/
  | sleepSetBlocked
  | deadlock
deriving DecidableEq

namespace Frame

def ofActors (actors : List Snapshot) : Frame := ⟨actors.map Entry.ofSnapshot⟩

def actors (frame : Frame) : List Snapshot := frame.entries.map Entry.snapshot

def size (frame : Frame) : Nat := frame.entries.length

def get? (frame : Frame) (index : Nat) : Option Entry := frame.entries[index]?

def get (frame : Frame) (index : Nat) : Except Fault Entry :=
  match frame.get? index with
  | some entry => .ok entry
  | none => .error (.outOfRange index frame.size)

def modify (frame : Frame) (index : Nat) (change : Entry → Entry) : Frame :=
  ⟨frame.entries.modify index change⟩

def update (frame : Frame) (index : Nat) (change : Entry → Entry) : Except Fault Frame :=
  (frame.get index).map fun _ => frame.modify index change

/-- The same actors in the same states, whatever the marks. -/
def agrees (frame : Frame) (actors : List Snapshot) : Bool := frame.actors = actors

def markEnabled (frame : Frame) : Frame :=
  ⟨frame.entries.map fun entry => if entry.enabled then entry.mark else entry⟩

/-- The entries with their positions, from `start` around to the position before it. -/
def around (frame : Frame) (start : Nat) : List (Entry × Nat) :=
  frame.entries.zipIdx.rotateLeft start

/-- The first position, around from `start`, whose entry has the property. -/
def find (frame : Frame) (start : Nat) (property : Entry → Bool) : Option Nat :=
  ((frame.around start).find? fun (entry, _) => property entry).map Prod.snd

/-- A scan from a position so large that counting on from it leaves the range of a word: it goes
as far as the range does. -/
def findWithin (frame : Frame) (start : Nat) (property : Entry → Bool) :
    Except Fault (Option Nat) :=
  let reached := (frame.around start).take (wordSize - start)
  match reached.find? fun (entry, _) => property entry with
  | some (_, index) => .ok (some index)
  | none => if reached.length < frame.size then .error .additionOverflow else .ok none

def markFirstEnabled (frame : Frame) (start : Nat) : Except Fault Frame := do
  match ← frame.findWithin start fun entry => entry.enabled && !entry.asleep with
  | some index => pure (frame.modify index Entry.mark)
  | none => pure frame

def firstPending (frame : Frame) (start : Nat) : Except Fault (Option Nat) :=
  frame.findWithin start Entry.pending

/-- Nothing is left to explore from here. -/
def isDone (frame : Frame) : Bool := (frame.find 0 Entry.pending).isNone

def selections (frame : Frame) : List (Entry × Nat) :=
  frame.entries.zipIdx.filter fun (entry, _) => entry.selected

def selection? (frame : Frame) : Except Fault (Option (Entry × Nat)) :=
  match frame.selections with
  | [] => .ok none
  | [selection] => .ok (some selection)
  | _ => .error .severalSelected

def selection (frame : Frame) : Except Fault (Entry × Nat) := do
  match ← frame.selection? with
  | some selection => pure selection
  | none => throw .noneSelected

def selectedIndex? (frame : Frame) : Except Fault (Option Nat) :=
  return (← frame.selection?).map Prod.snd

def selectedIndex (frame : Frame) : Except Fault Nat := return (← frame.selection).2

def selected (frame : Frame) : Except Fault Entry := return (← frame.selection).1

def sleepSelected (frame : Frame) : Except Fault Frame :=
  return frame.modify (← frame.selectedIndex) Entry.sleep

def clearSelected (frame : Frame) : Except Fault Frame :=
  return frame.modify (← frame.selectedIndex) Entry.deselect

/-- Why no entry can be chosen. -/
def blocked (frame : Frame) : Choice :=
  if frame.entries.any fun entry => entry.enabled && entry.asleep then .sleepSetBlocked
  else .deadlock

def text (frame : Frame) : String :=
  let shown := frame.entries.filter Entry.enabled
  "[" ++ String.join (shown.map fun entry =>
    (if entry.selected then "*" else "") ++ entry.snapshot.text ++ " ") ++ "]"

@[simp] theorem actors_ofActors (actors : List Snapshot) : (ofActors actors).actors = actors := by
  simp only [ofActors, Frame.actors, List.map_map]
  exact List.map_id actors

theorem agrees_iff {frame : Frame} {actors : List Snapshot} :
    frame.agrees actors ↔ frame.actors = actors := by
  simp [agrees]

theorem mem_around {frame : Frame} {start index : Nat} {entry : Entry} :
    (entry, index) ∈ frame.around start ↔ frame.get? index = some entry := by
  have rotated (items : List (Entry × Nat)) (count : Nat) (item : Entry × Nat) :
      item ∈ items.rotateLeft count ↔ item ∈ items := by
    simp only [List.rotateLeft]
    split
    · rfl
    · rw [List.mem_append, Or.comm, ← List.mem_append, List.take_append_drop]
  rw [around, rotated, List.mem_zipIdx_iff_getElem?, get?]

theorem find_eq_none_iff {frame : Frame} {start : Nat} {property : Entry → Bool} :
    frame.find start property = none ↔ ∀ entry ∈ frame.entries, property entry = false := by
  simp only [find, Option.map_eq_none_iff, List.find?_eq_none, Prod.forall, mem_around,
    Bool.not_eq_true, get?]
  constructor
  · intro unmet entry member
    obtain ⟨index, located, rfl⟩ := List.getElem_of_mem member
    exact unmet _ index (List.getElem?_eq_getElem located)
  · intro unmet entry index located
    exact unmet entry (List.mem_of_getElem? located)

theorem exists_of_find_eq_some {frame : Frame} {start index : Nat} {property : Entry → Bool}
    (answered : frame.find start property = some index) :
    ∃ entry, frame.get? index = some entry ∧ property entry := by
  simp only [find, Option.map_eq_some_iff] at answered
  obtain ⟨⟨entry, found⟩, scanned, rfl⟩ := answered
  have met := List.find?_some scanned
  exact ⟨entry, mem_around.mp (List.mem_of_find?_eq_some scanned), met⟩

theorem isDone_iff {frame : Frame} :
    frame.isDone ↔ ∀ entry ∈ frame.entries, entry.backtrack → entry.asleep := by
  rw [isDone, Option.isNone_iff_eq_none, find_eq_none_iff]
  simp [Entry.pending]

theorem length_around (frame : Frame) (start : Nat) :
    (frame.around start).length = frame.size := by
  have reduced := Nat.mod_lt start (y := frame.entries.zipIdx.length)
  simp only [around, List.rotateLeft, size]
  split
  · simp
  · simp only [List.length_append, List.length_drop, List.length_take,
      List.length_zipIdx] at reduced ⊢
    omega

/-- Within the range of a word, both scans agree. -/
theorem findWithin_eq_find {frame : Frame} {start : Nat} {property : Entry → Bool}
    (fits : start + frame.size ≤ wordSize) :
    frame.findWithin start property = .ok (frame.find start property) := by
  have length_eq := frame.length_around start
  have whole : (frame.around start).take (wordSize - start) = frame.around start :=
    List.take_of_length_le (by omega)
  simp only [findWithin, find, whole, length_eq, Nat.lt_irrefl, if_false]
  cases (frame.around start).find? fun item => property item.1 with
  | none => rfl
  | some found => rfl

end Frame

end Interleave
