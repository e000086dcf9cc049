import Interleave.Fault

namespace Interleave

structure Roster (α : Type u) where
  values : Array α
deriving DecidableEq

namespace Roster

def empty : Roster α := ⟨#[]⟩

def size (roster : Roster α) : Nat := roster.values.size

def nextKey (roster : Roster α) : ActorId := ⟨roster.size⟩

def get? (roster : Roster α) (key : ActorId) : Option α := roster.values[key.index]?

def get (roster : Roster α) (key : ActorId) : Except Fault α :=
  Checked.get roster.values key.index

def push (roster : Roster α) (value : α) : Roster α := ⟨roster.values.push value⟩

def modify (roster : Roster α) (key : ActorId) (change : α → α) : Roster α :=
  ⟨roster.values.modify key.index change⟩

def map (change : ActorId → α → α) (roster : Roster α) : Roster α :=
  ⟨roster.values.mapIdx fun index value => change ⟨index⟩ value⟩

/-- Replaces the value of a key, or adds it under the next one. Answers the previous value. -/
def insert (roster : Roster α) (key : ActorId) (value : α) :
    Except Fault (Option α × Roster α) :=
  if key = roster.nextKey then .ok (none, roster.push value)
  else match roster.get? key with
    | some previous => .ok (some previous, roster.modify key fun _ => value)
    | none => .error (.outOfOrder key.index roster.size)

def toList (roster : Roster α) : List α := roster.values.toList

def entries (roster : Roster α) : List (ActorId × α) :=
  roster.toList.mapIdx fun index value => (⟨index⟩, value)

@[simp] theorem size_push (roster : Roster α) (value : α) :
    (roster.push value).size = roster.size + 1 := by
  simp [push, size]

@[simp] theorem size_modify (roster : Roster α) (key : ActorId) (change : α → α) :
    (roster.modify key change).size = roster.size := by
  simp [modify, size]

theorem get?_push (roster : Roster α) (value : α) (key : ActorId) :
    (roster.push value).get? key =
      if key = roster.nextKey then some value else roster.get? key := by
  simp [push, get?, nextKey, size, Array.getElem?_push, ActorId.ext_iff]

theorem get?_modify (roster : Roster α) (key other : ActorId) (change : α → α) :
    (roster.modify key change).get? other =
      if other = key then (roster.get? other).map change else roster.get? other := by
  simp only [modify, get?, Array.getElem?_modify, ActorId.ext_iff, eq_comm]

@[simp] theorem size_map (change : ActorId → α → α) (roster : Roster α) :
    (roster.map change).size = roster.size := by
  simp [map, size]

theorem get?_map (change : ActorId → α → α) (roster : Roster α) (key : ActorId) :
    (roster.map change).get? key = (roster.get? key).map (change key) := by
  simp [map, get?]

theorem mem_entries_iff {roster : Roster α} {key : ActorId} {value : α} :
    (key, value) ∈ roster.entries ↔ roster.get? key = some value := by
  simp only [entries, toList, get?, List.mem_mapIdx]
  constructor
  · intro found
    obtain ⟨index, inside, same⟩ := found
    cases same
    simp at inside ⊢
  · intro found
    obtain ⟨inside, same⟩ := Array.getElem?_eq_some_iff.mp found
    exact ⟨key.index, by simpa using inside, by simp [same]⟩

theorem get?_insert {roster result : Roster α} {key : ActorId} {value : α} {previous : Option α}
    (inserted : roster.insert key value = .ok (previous, result)) (other : ActorId) :
    previous = roster.get? key ∧
      result.get? other = if other = key then some value else roster.get? other := by
  simp only [insert] at inserted
  split at inserted
  · rename_i next
    subst next
    obtain ⟨rfl, rfl⟩ : none = previous ∧ roster.push value = result := by simpa using inserted
    exact ⟨by simp [get?, nextKey, size], get?_push roster value other⟩
  · split at inserted
    · rename_i found present
      obtain ⟨rfl, rfl⟩ : some found = previous ∧
          roster.modify key (fun _ => value) = result := by simpa using inserted
      refine ⟨present.symm, ?_⟩
      rw [get?_modify]
      split
      · rename_i same
        simp [same, present]
      · rfl
    · simp at inserted

end Roster

end Interleave
