import Interleave.Proofs.Search.Choose

namespace Interleave

namespace Frame

variable {frame other : Frame} {entry : Entry} {index : Nat}

theorem sleeps_unmark_iff : frame.unmark.Sleeps index ↔ frame.Sleeps index := by
  simp only [Sleeps, get?_unmark]
  cases frame.get? index with
  | none => simp
  | some entry => simp

theorem single_of_unmark_eq
    (same : other.unmark = frame.unmark) (single : frame.selections = [(entry, index)]) :
    ∃ marked, other.selections = [(marked, index)] ∧ marked.unmark = entry.unmark := by
  have selections := congrArg Frame.selections same
  rw [selections_unmark, selections_unmark, single] at selections
  obtain ⟨⟨marked, position⟩, alone, equal⟩ := List.map_eq_singleton_iff.mp selections
  simp only [Prod.mk.injEq] at equal
  obtain ⟨equal, rfl⟩ := equal
  exact ⟨marked, alone, equal⟩

theorem selections_eq_nil_of_unmark_eq
    (same : other.unmark = frame.unmark) (unselected : frame.selections = []) :
    other.selections = [] := by
  have selections := congrArg Frame.selections same
  rw [selections_unmark, selections_unmark, unselected] at selections
  exact List.map_eq_nil_iff.mp selections

theorem actors_eq_of_unmark_eq (same : other.unmark = frame.unmark) :
    other.actors = frame.actors := by
  rw [← actors_unmark other, same, actors_unmark]

theorem sleeps_iff_of_unmark_eq (same : other.unmark = frame.unmark) :
    other.Sleeps index ↔ frame.Sleeps index := by
  rw [← sleeps_unmark_iff, same, sleeps_unmark_iff]

theorem MarksEnabled.modify
    (marks : frame.MarksEnabled) (change : Entry → Entry)
    (kept : ∀ entry, (change entry).snapshot = entry.snapshot)
    (unmarked : ∀ entry, (change entry).backtrack = entry.backtrack) :
    (frame.modify index change).MarksEnabled := by
  refine enabled_of_modify Entry.backtrack marks change kept ?_
  intro entry here marked
  rw [unmarked] at marked
  exact marks index entry here marked

theorem MarksEnabled.select (marks : frame.MarksEnabled) :
    (frame.modify index Entry.select).MarksEnabled :=
  marks.modify Entry.select (fun _ => rfl) fun _ => rfl

theorem MarksEnabled.retire (marks : frame.MarksEnabled) : (frame.retire index).MarksEnabled :=
  (marks.modify Entry.sleep (fun _ => rfl) fun _ => rfl).modify Entry.deselect (fun _ => rfl)
    fun _ => rfl

theorem MarksEnabled.markEnabled (marks : frame.MarksEnabled) :
    frame.markEnabled.MarksEnabled := by
  intro index entry found backtrack
  rw [get?_markEnabled] at found
  obtain ⟨before, there, rfl⟩ := Option.map_eq_some_iff.mp found
  split at backtrack
  · rename_i enabled
    rw [if_pos enabled]
    exact enabled
  · rename_i disabled
    exact absurd (marks index before there backtrack) disabled

end Frame

namespace Schedule

theorem sleepers_unmark (previous : Frame) (selected : Frame.Entry) :
    sleepers previous.unmark selected.unmark = sleepers previous selected := by
  simp only [sleepers, Frame.unmark, List.zipIdx_map, List.filterMap_map]
  rfl

theorem opening_eq_of_unmark_eq
    {left right : List Frame} (same : left.map Frame.unmark = right.map Frame.unmark)
    (actors : List Snapshot) : opening left actors = opening right actors := by
  have forgotten (stack : List Frame) :
      opening stack actors = opening (stack.map Frame.unmark) actors := by
    cases stack with
    | nil => rfl
    | cons previous rest =>
        simp only [opening, List.map_cons, Frame.selections_unmark]
        cases previous.selections with
        | nil => rfl
        | cons first others => simp only [List.map_cons, sleepers_unmark]
  rw [forgotten left, same, ← forgotten right]

theorem unmark_ofStack (stack : List Frame) (position : Nat) :
    (ofStack stack position).unmark = ofStack (stack.map Frame.unmark) position := by
  simp [unmark, ofStack]

theorem exists_stack_of_unmark_eq
    {schedule : Schedule} {stack : List Frame} {position : Nat}
    (same : schedule.unmark = (ofStack stack position).unmark) :
    ∃ marked, schedule = ofStack marked position ∧
      marked.map Frame.unmark = stack.map Frame.unmark := by
  obtain ⟨marked, shape⟩ := exists_ofStack schedule
  have positions := position_eq_of_unmark_eq same
  rw [position_ofStack] at positions
  rw [positions] at shape
  refine ⟨marked, shape, ?_⟩
  rw [shape, unmark_ofStack, unmark_ofStack] at same
  simpa [ofStack] using same

theorem every_ofStack_iff {property : Frame → Prop} {stack : List Frame} {position : Nat} :
    (ofStack stack position).Every property ↔ ∀ frame ∈ stack, property frame := by
  simp only [Every, ofStack, List.getElem?_toArray]
  constructor
  · intro every frame member
    obtain ⟨index, found⟩ := List.mem_iff_getElem?.mp (List.mem_reverse.mpr member)
    exact every index frame found
  · intro every index frame found
    exact every frame (List.mem_reverse.mp (List.mem_of_getElem? found))

theorem marksEnabled_ofStack_iff {stack : List Frame} {position : Nat} :
    (ofStack stack position).MarksEnabled ↔ ∀ frame ∈ stack, frame.MarksEnabled :=
  every_ofStack_iff

end Schedule

namespace Policy.Search

variable {policy : Search} {current : ActorId} {actors : List Snapshot} {below : List Frame}
  {frame result : Frame}

theorem actors_opening : (policy.opening below actors).actors = actors := by
  unfold opening
  split
  · exact Schedule.actors_opening
  · exact Frame.actors_ofActors actors

theorem plain_of_get?_opening
    {index : Nat} {entry : Frame.Entry}
    (found : (policy.opening below actors).get? index = some entry) :
    entry.selected = false ∧ entry.backtrack = false := by
  unfold opening at found
  split at found
  · exact Schedule.plain_of_get?_opening found
  · rw [Frame.get?_ofActors] at found
    obtain ⟨snapshot, -, rfl⟩ := Option.map_eq_some_iff.mp found
    exact ⟨rfl, rfl⟩

theorem selections_opening : (policy.opening below actors).selections = [] :=
  Frame.selections_eq_nil_iff.mpr fun _ _ found => (plain_of_get?_opening found).1

theorem marksEnabled_opening : (policy.opening below actors).MarksEnabled := by
  intro index entry found backtrack
  rw [(plain_of_get?_opening found).2] at backtrack
  cases backtrack

theorem marked_cases (marks : policy.marked current frame = .ok result) :
    result = frame.markEnabled ∨
      (result = frame ∧ ∀ entry ∈ frame.entries, entry.enabled = true → entry.asleep = true) ∨
      ∃ index entry, frame.get? index = some entry ∧ entry.enabled = true ∧
        entry.asleep = false ∧ result = frame.modify index Frame.Entry.mark := by
  unfold marked at marks
  split at marks
  · unfold Frame.markFirstEnabled at marks
    obtain ⟨search, found, marks⟩ := Checked.bind_eq_ok_iff.mp marks
    have same := Frame.find_of_findWithin found
    cases search with
    | none =>
        cases marks
        refine .inr (.inl ⟨rfl, ?_⟩)
        intro entry member enabled
        have idle := Frame.find_eq_none_iff.mp same entry member
        simpa [enabled] using idle
    | some index =>
        cases marks
        obtain ⟨entry, there, both⟩ := Frame.exists_of_find_eq_some same
        rw [Bool.and_eq_true, Bool.not_eq_true'] at both
        exact .inr (.inr ⟨index, entry, there, both.1, both.2, rfl⟩)
  · cases marks
    exact .inl rfl

theorem exists_marked
    (room : policy.reduction = true → current.index + frame.size ≤ wordSize) :
    ∃ result, policy.marked current frame = .ok result := by
  unfold marked
  split
  · rename_i reduces
    unfold Frame.markFirstEnabled
    rw [Frame.findWithin_eq_find (room reduces)]
    cases frame.find current.index (fun entry => entry.enabled && !entry.asleep) with
    | none => exact ⟨_, rfl⟩
    | some index => exact ⟨_, rfl⟩
  · exact ⟨_, rfl⟩

section Marked

variable (marks : policy.marked current frame = .ok result)

include marks

theorem actors_of_marked : result.actors = frame.actors := by
  rcases marked_cases marks with rfl | ⟨rfl, -⟩ | ⟨index, entry, -, -, -, rfl⟩
  · exact Frame.actors_markEnabled frame
  · rfl
  · exact Frame.actors_modify frame index _ fun _ => rfl

theorem selections_of_marked (unselected : frame.selections = []) : result.selections = [] := by
  rcases marked_cases marks with rfl | ⟨rfl, -⟩ | ⟨index, entry, -, -, -, rfl⟩
  · exact Frame.selections_markEnabled unselected
  · exact unselected
  · exact Frame.selections_modify_eq_nil Frame.Entry.mark (fun _ => rfl) unselected

theorem marksEnabled_of_marked (enabled : frame.MarksEnabled) : result.MarksEnabled := by
  rcases marked_cases marks with rfl | ⟨rfl, -⟩ | ⟨index, entry, there, awake, -, rfl⟩
  · exact enabled.markEnabled
  · exact enabled
  · exact enabled.mark there awake

theorem sleeps_of_marked {position : Nat} : result.Sleeps position ↔ frame.Sleeps position := by
  rcases marked_cases marks with rfl | ⟨rfl, -⟩ | ⟨index, entry, -, -, -, rfl⟩
  · exact Frame.sleeps_markEnabled_iff
  · rfl
  · exact Frame.sleeps_modify_iff Frame.Entry.mark fun _ => rfl

/-- Where nothing is left to explore, every enabled actor sleeps. -/
theorem asleep_of_marked
    (done : result.isDone = true) {index : Nat} {entry : Frame.Entry}
    (found : result.get? index = some entry) (enabled : entry.enabled = true) :
    entry.asleep = true := by
  rw [Frame.isDone_iff] at done
  rcases marked_cases marks with rfl | ⟨rfl, sleeping⟩ | ⟨first, other, there, -, awake, rfl⟩
  · apply done entry (List.mem_of_getElem? found)
    rw [Frame.get?_markEnabled] at found
    obtain ⟨before, there, rfl⟩ := Option.map_eq_some_iff.mp found
    split at enabled
    · rename_i able
      rw [if_pos able]
      rfl
    · rename_i unable
      exact absurd enabled unable
  · exact sleeping entry (List.mem_of_getElem? found) enabled
  · have chosen : (frame.modify first Frame.Entry.mark).get? first = some other.mark := by
      rw [Frame.get?_modify, there, Option.map_some, if_pos rfl]
    have slept : other.asleep = true := done other.mark (List.mem_of_getElem? chosen) rfl
    rw [awake] at slept
    cases slept

end Marked

theorem disabled_of_verdict
    (deadlock : verdict frame = .deadlock) {index : Nat} {entry : Frame.Entry}
    (found : frame.get? index = some entry) (asleep : entry.asleep = true) :
    entry.enabled = false := by
  unfold verdict at deadlock
  split at deadlock
  · cases deadlock
  · rename_i nobody
    cases enabled : entry.enabled with
    | false => rfl
    | true =>
        refine absurd ?_ nobody
        rw [List.any_eq_true]
        exact ⟨entry, List.mem_of_getElem? found, by rw [enabled, asleep]; rfl⟩

theorem exists_picks (frame : Frame) (start : ActorId) :
    ∃ decision changed, Picks frame start decision changed := by
  cases search : frame.find (start.index % max frame.size 1) Frame.Entry.pending with
  | none => exact ⟨_, _, .inr ⟨search, rfl, rfl⟩⟩
  | some index =>
      obtain ⟨entry, there, -⟩ := Frame.exists_of_find_eq_some search
      exact ⟨_, _, .inl ⟨index, entry, search, there, rfl, rfl⟩⟩

end Policy.Search

end Interleave
