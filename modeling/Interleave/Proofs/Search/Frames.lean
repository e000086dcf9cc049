import Mathlib.Data.List.Nodup
import Mathlib.Data.List.Perm.Basic
import Interleave.Schedule

namespace Interleave

def Numbered (actors : List Snapshot) : Prop :=
  ∀ (index : Nat) (snapshot : Snapshot), actors[index]? = some snapshot → snapshot.id = ⟨index⟩

theorem Numbered.eq_of_id_eq
    {actors : List Snapshot} {snapshot other : Snapshot} (numbered : Numbered actors)
    (listed : snapshot ∈ actors) (also : other ∈ actors) (same : snapshot.id = other.id) :
    snapshot = other := by
  obtain ⟨position, there⟩ := List.mem_iff_getElem?.mp listed
  obtain ⟨place, found⟩ := List.mem_iff_getElem?.mp also
  rw [numbered position snapshot there, numbered place other found, ActorId.mk.injEq] at same
  rw [same, found] at there
  exact (Option.some.inj there).symm

namespace Frame

variable {frame : Frame} {entry : Entry} {index position : Nat}

theorem get?_modify (frame : Frame) (index position : Nat) (change : Entry → Entry) :
    (frame.modify index change).get? position =
      (frame.get? position).map fun entry => if index = position then change entry else entry := by
  simp only [get?, modify, List.getElem?_modify]
  cases frame.entries[position]? <;> rfl

theorem get?_ofActors (actors : List Snapshot) (position : Nat) :
    (ofActors actors).get? position = actors[position]?.map Entry.ofSnapshot := by
  simp [get?, ofActors]

theorem get?_markEnabled (frame : Frame) (position : Nat) :
    frame.markEnabled.get? position =
      (frame.get? position).map fun entry => if entry.enabled then entry.mark else entry := by
  simp [get?, markEnabled]

theorem getElem?_actors (frame : Frame) (position : Nat) :
    frame.actors[position]? = (frame.get? position).map Entry.snapshot := by
  simp [get?, actors]

theorem id_of_numbered
    (numbered : Numbered frame.actors) (found : frame.get? index = some entry) :
    entry.id = ⟨index⟩ :=
  numbered index entry.snapshot (by rw [getElem?_actors, found, Option.map_some])

theorem actors_eq_of_get?
    {other : Frame}
    (same : ∀ position, (other.get? position).map Entry.snapshot =
      (frame.get? position).map Entry.snapshot) :
    other.actors = frame.actors := by
  apply List.ext_getElem?
  intro position
  rw [getElem?_actors, getElem?_actors, same]

theorem actors_modify
    (frame : Frame) (index : Nat) (change : Entry → Entry)
    (kept : ∀ entry, (change entry).snapshot = entry.snapshot) :
    (frame.modify index change).actors = frame.actors := by
  apply actors_eq_of_get?
  intro position
  rw [get?_modify, Option.map_map]
  congr 1
  funext entry
  simp only [Function.comp_apply]
  split
  · exact kept entry
  · rfl

@[simp] theorem actors_markEnabled (frame : Frame) : frame.markEnabled.actors = frame.actors := by
  apply actors_eq_of_get?
  intro position
  rw [get?_markEnabled, Option.map_map]
  congr 1
  funext entry
  simp only [Function.comp_apply]
  split <;> rfl

theorem mem_selections :
    (entry, index) ∈ frame.selections ↔ frame.get? index = some entry ∧ entry.selected = true := by
  simp [selections, List.mem_filter, List.mem_zipIdx_iff_getElem?, get?]

theorem selections_eq_nil_iff :
    frame.selections = [] ↔
      ∀ index entry, frame.get? index = some entry → entry.selected = false := by
  rw [List.eq_nil_iff_forall_not_mem]
  constructor
  · intro none index entry found
    cases selected : entry.selected with
    | false => rfl
    | true => exact absurd (mem_selections.mpr ⟨found, selected⟩) (none (entry, index))
  · intro none item member
    obtain ⟨found, selected⟩ := mem_selections.mp member
    rw [none item.2 item.1 found] at selected
    cases selected

theorem nodup_selections (frame : Frame) : frame.selections.Nodup := by
  apply List.Nodup.filter
  apply List.Nodup.of_map Prod.snd
  rw [List.zipIdx_map_snd]
  exact List.nodup_range'

theorem selections_eq_singleton
    (found : frame.get? index = some entry) (selected : entry.selected = true)
    (only : ∀ position other, frame.get? position = some other → other.selected = true →
      position = index) :
    frame.selections = [(entry, index)] := by
  apply List.perm_singleton.mp
  rw [List.perm_ext_iff_of_nodup frame.nodup_selections (List.nodup_singleton _)]
  rintro ⟨other, position⟩
  rw [mem_selections, List.mem_singleton]
  constructor
  · rintro ⟨there, also⟩
    obtain rfl := only position other there also
    rw [found] at there
    cases there
    rfl
  · intro same
    cases same
    exact ⟨found, selected⟩

section Single

variable (single : frame.selections = [(entry, index)])

include single

theorem get?_of_single : frame.get? index = some entry :=
  (mem_selections.mp (by rw [single]; exact List.mem_cons_self)).1

theorem selected_of_single : entry.selected = true :=
  (mem_selections.mp (by rw [single]; exact List.mem_cons_self)).2

theorem eq_of_single
    {other : Entry} (found : frame.get? position = some other) (selected : other.selected = true) :
    position = index := by
  have member := mem_selections.mpr ⟨found, selected⟩
  rw [single, List.mem_singleton] at member
  exact congrArg Prod.snd member

theorem selection?_of_single : frame.selection? = .ok (some (entry, index)) := by
  simp [selection?, single]

theorem selectedIndex?_of_single : frame.selectedIndex? = .ok (some index) := by
  simp only [selectedIndex?, selection?_of_single single]
  rfl

theorem selectedIndex_of_single : frame.selectedIndex = .ok index := by
  simp only [selectedIndex, selection, selection?_of_single single]
  rfl

theorem selected_eq_of_single : frame.selected = .ok entry := by
  simp only [selected, selection, selection?_of_single single]
  rfl

theorem selections_modify_of_single
    {change : Entry → Entry} (kept : (change entry).selected = true) :
    (frame.modify index change).selections = [(change entry, index)] := by
  apply selections_eq_singleton
  · rw [get?_modify, get?_of_single single, Option.map_some, if_pos rfl]
  · exact kept
  · intro position other found selected
    by_cases same : index = position
    · exact same.symm
    · rw [get?_modify] at found
      simp only [if_neg same, Option.map_id_fun', id] at found
      exact eq_of_single single found selected

end Single

theorem selections_select
    (none : frame.selections = []) (found : frame.get? index = some entry) :
    (frame.modify index Entry.select).selections = [(entry.select, index)] := by
  apply selections_eq_singleton
  · rw [get?_modify, found, Option.map_some, if_pos rfl]
  · rfl
  · intro position other there selected
    by_cases same : index = position
    · exact same.symm
    · rw [get?_modify] at there
      simp only [if_neg same, Option.map_id_fun', id] at there
      rw [selections_eq_nil_iff.mp none position other there] at selected
      cases selected

theorem selections_modify_eq_nil
    (change : Entry → Entry) (kept : ∀ entry, (change entry).selected = entry.selected)
    (none : frame.selections = []) : (frame.modify index change).selections = [] := by
  rw [selections_eq_nil_iff] at none ⊢
  intro position entry found
  rw [get?_modify] at found
  obtain ⟨before, there, rfl⟩ := Option.map_eq_some_iff.mp found
  split
  · rw [kept]
    exact none position before there
  · exact none position before there

theorem length_actors (frame : Frame) : frame.actors.length = frame.size := List.length_map _

theorem find_of_findWithin
    {start : Nat} {property : Entry → Bool} {result : Option Nat}
    (found : frame.findWithin start property = .ok result) :
    frame.find start property = result := by
  unfold findWithin at found
  dsimp only at found
  unfold find
  split at found
  · rename_i entry position first
    cases found
    have same := List.IsPrefix.find?_eq_some (List.take_prefix _ _) first
    rw [same]
    rfl
  · rename_i nothing
    split at found
    · cases found
    · rename_i whole
      cases found
      rw [← length_around frame start, Nat.not_lt, List.length_take] at whole
      rw [List.take_of_length_le (by omega)] at nothing
      rw [nothing]
      rfl

theorem isDone_of_find_eq_none {start : Nat} (none : frame.find start Entry.pending = none) :
    frame.isDone = true := by
  rw [isDone_iff]
  intro entry member marked
  have idle := find_eq_none_iff.mp none entry member
  simpa [Entry.pending, marked] using idle

theorem selections_markEnabled (none : frame.selections = []) :
    frame.markEnabled.selections = [] := by
  rw [selections_eq_nil_iff] at none ⊢
  intro index entry found
  rw [get?_markEnabled] at found
  obtain ⟨before, there, rfl⟩ := Option.map_eq_some_iff.mp found
  split
  · exact none index before there
  · exact none index before there

def Sleeps (frame : Frame) (index : Nat) : Prop :=
  ∃ entry, frame.get? index = some entry ∧ entry.asleep = true

theorem sleeps_modify_iff
    (change : Entry → Entry) (kept : ∀ entry, (change entry).asleep = entry.asleep) :
    (frame.modify index change).Sleeps position ↔ frame.Sleeps position := by
  simp only [Sleeps, get?_modify]
  cases frame.get? position with
  | none => simp
  | some entry =>
      by_cases same : index = position <;> simp [same, kept]

@[simp] theorem sleeps_markEnabled_iff :
    frame.markEnabled.Sleeps position ↔ frame.Sleeps position := by
  simp only [Sleeps, get?_markEnabled]
  cases frame.get? position with
  | none => simp
  | some entry =>
      cases enabled : entry.enabled <;> simp [enabled, Entry.mark]

theorem sleeps_sleep_iff :
    (frame.modify index Entry.sleep).Sleeps position ↔
      frame.Sleeps position ∨ (position = index ∧ (frame.get? position).isSome) := by
  simp only [Sleeps, get?_modify]
  cases frame.get? position with
  | none => simp
  | some entry =>
      by_cases same : index = position
      · simp [same, Entry.sleep]
      · simp [same, Ne.symm same]

def retire (frame : Frame) (index : Nat) : Frame :=
  (frame.modify index Entry.sleep).modify index Entry.deselect

@[simp] theorem actors_retire : (frame.retire index).actors = frame.actors := by
  rw [retire, actors_modify _ _ Entry.deselect fun _ => rfl,
    actors_modify _ _ Entry.sleep fun _ => rfl]

theorem sleeps_retire_iff :
    (frame.retire index).Sleeps position ↔
      frame.Sleeps position ∨ (position = index ∧ (frame.get? position).isSome) := by
  rw [retire, sleeps_modify_iff Entry.deselect fun _ => rfl, sleeps_sleep_iff]

theorem selections_retire (single : frame.selections = [(entry, index)]) :
    (frame.retire index).selections = [] := by
  rw [selections_eq_nil_iff]
  intro position other found
  rw [retire, get?_modify, get?_modify, Option.map_map] at found
  obtain ⟨before, there, rfl⟩ := Option.map_eq_some_iff.mp found
  by_cases same : index = position
  · simp [same, Entry.deselect]
  · simp only [Function.comp_apply, if_neg same]
    cases selected : before.selected with
    | false => rfl
    | true => exact absurd (eq_of_single single there selected).symm same

end Frame

namespace Schedule

theorem get?_putToSleep (frame : Frame) (indices : List Nat) (position : Nat) :
    (putToSleep frame indices).get? position =
      (frame.get? position).map fun entry =>
        if position ∈ indices then entry.sleep else entry := by
  induction indices generalizing frame with
  | nil => simp [putToSleep]
  | cons index rest induction =>
      change (putToSleep (frame.modify index Frame.Entry.sleep) rest).get? position = _
      rw [induction, Frame.get?_modify, Option.map_map]
      congr 1
      funext entry
      by_cases here : index = position
      · subst here
        simp only [Function.comp_apply, if_true, List.mem_cons_self]
        split <;> rfl
      · simp only [Function.comp_apply, if_neg here, List.mem_cons, Ne.symm here, false_or]

@[simp] theorem actors_putToSleep (frame : Frame) (indices : List Nat) :
    (putToSleep frame indices).actors = frame.actors := by
  apply Frame.actors_eq_of_get?
  intro position
  rw [get?_putToSleep, Option.map_map]
  congr 1
  funext entry
  simp only [Function.comp_apply]
  split <;> rfl

theorem sleeps_putToSleep_iff {frame : Frame} {indices : List Nat} {position : Nat} :
    (putToSleep frame indices).Sleeps position ↔
      frame.Sleeps position ∨ (position ∈ indices ∧ (frame.get? position).isSome) := by
  simp only [Frame.Sleeps, get?_putToSleep]
  cases frame.get? position with
  | none => simp
  | some entry =>
      by_cases among : position ∈ indices <;> simp [among, Frame.Entry.sleep]

theorem mem_sleepers {previous : Frame} {selected : Frame.Entry} {index : Nat} :
    index ∈ sleepers previous selected ↔
      index ≠ selected.id.index ∧ ∃ entry, previous.get? index = some entry ∧
        entry.asleep = true ∧ entry.operation.dependent selected.operation = false := by
  simp only [sleepers, List.mem_filterMap, Prod.exists, Option.ite_none_right_eq_some,
    Option.some.injEq, List.mem_zipIdx_iff_getElem?, Frame.get?, Bool.not_eq_true']
  constructor
  · rintro ⟨entry, position, found, ⟨differs, asleep, free⟩, rfl⟩
    exact ⟨differs, entry, found, asleep, free⟩
  · rintro ⟨differs, entry, found, asleep, free⟩
    exact ⟨entry, index, found, ⟨differs, asleep, free⟩, rfl⟩

end Schedule

end Interleave
