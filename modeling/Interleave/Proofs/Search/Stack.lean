import Interleave.Proofs.Attempt
import Interleave.Proofs.Search.Frames

namespace Interleave

namespace Schedule

/-- The newest frame is the head. -/
def ofStack (stack : List Frame) (position : Nat) : Schedule := ⟨stack.reverse.toArray, position⟩

variable {frame : Frame} {entry : Frame.Entry} {above below stack : List Frame}
  {index position : Nat} {actors : List Snapshot}

@[simp] theorem position_ofStack : (ofStack stack position).position = position := rfl

@[simp] theorem length_ofStack : (ofStack stack position).length = stack.length := by
  simp [ofStack, length]

theorem exists_ofStack (schedule : Schedule) :
    ∃ stack, schedule = ofStack stack schedule.position := by
  refine ⟨schedule.frames.toList.reverse, ?_⟩
  cases schedule
  simp [ofStack]

theorem getElem?_ofStack (above : List Frame) :
    (ofStack (above ++ frame :: below) position).frames[below.length]? = some frame := by
  simp [ofStack]

theorem frame_ofStack (above : List Frame) :
    (ofStack (above ++ frame :: below) position).frame (below.length + 1) = .ok frame :=
  frame_eq_ok_iff.mpr ⟨Nat.succ_pos _, getElem?_ofStack above⟩

theorem top_ofStack :
    (ofStack (frame :: below) (below.length + 1)).top = .ok frame :=
  frame_ofStack []

theorem atFrontier_ofStack :
    (ofStack (frame :: below) (below.length + 1)).atFrontier = true := by
  simp [atFrontier]

theorem realTop_ofStack :
    (ofStack (frame :: below) (below.length + 1)).realTop = .ok frame := by
  rw [realTop, if_pos atFrontier_ofStack, top_ofStack]

theorem modifyFrame_ofStack (change : Frame → Frame) :
    (ofStack (frame :: below) position).modifyFrame (below.length + 1) change =
      ofStack (change frame :: below) position := by
  simp only [modifyFrame, ofStack, Schedule.mk.injEq, and_true]
  apply Array.ext_getElem?
  intro index
  simp only [Array.getElem?_modify, List.getElem?_toArray, List.reverse_cons,
    Nat.add_sub_cancel]
  rcases Nat.lt_trichotomy index below.length with before | rfl | later
  · have inside : index < below.reverse.length := by simpa using before
    rw [if_neg (by omega), List.getElem?_append_left inside, List.getElem?_append_left inside]
  · simp
  · rw [if_neg (by omega), List.getElem?_eq_none (by simp; omega),
      List.getElem?_eq_none (by simp; omega)]

theorem updateFrame_ofStack
    (frame : Frame) (below : List Frame) (position : Nat) (change : Frame → Except Fault Frame) :
    (ofStack (frame :: below) position).updateFrame (below.length + 1) change =
      (change frame).map fun changed => ofStack (changed :: below) position := by
  have found : (ofStack (frame :: below) position).frame (below.length + 1) = .ok frame :=
    frame_ofStack []
  simp only [updateFrame, found]
  cases changed : change frame with
  | error fault =>
      change (change frame >>= _) = _
      rw [changed]
      rfl
  | ok changed' =>
      change (change frame >>= _) = _
      rw [changed]
      change Except.ok _ = Except.ok _
      rw [modifyFrame_ofStack]

theorem push_new (stack : List Frame) (actors : List Snapshot) :
    (ofStack stack stack.length).push actors =
      .ok (true, ofStack (.ofActors actors :: stack) (stack.length + 1)) := by
  have none : (ofStack stack stack.length).frames[stack.length]? = none := by simp [ofStack]
  simp only [push, length_ofStack, position_ofStack, Nat.lt_irrefl, if_false, none]
  simp [ofStack]

theorem push_recorded
    (above below : List Frame) (same : frame.actors = actors) :
    (ofStack (above ++ frame :: below) below.length).push actors =
      .ok (false, ofStack (above ++ frame :: below) (below.length + 1)) := by
  have found : (ofStack (above ++ frame :: below) below.length).frames[below.length]? =
      some frame := getElem?_ofStack above
  have inside : ¬ (above ++ frame :: below).length < below.length := by simp; omega
  simp only [push, length_ofStack, position_ofStack, inside, if_false, found]
  rw [if_pos (Frame.agrees_iff.mpr same)]
  rfl

theorem push_diverged
    (above below : List Frame) (differs : frame.actors ≠ actors) :
    (ofStack (above ++ frame :: below) below.length).push actors =
      .error (.diverged (below.length + 1) frame.actors actors) := by
  have found : (ofStack (above ++ frame :: below) below.length).frames[below.length]? =
      some frame := getElem?_ofStack above
  have inside : ¬ (above ++ frame :: below).length < below.length := by simp; omega
  simp only [push, length_ofStack, position_ofStack, inside, if_false, found]
  rw [if_neg (mt Frame.agrees_iff.mp differs)]

def opening (below : List Frame) (actors : List Snapshot) : Frame :=
  match below with
  | [] => .ofActors actors
  | previous :: _ =>
      match previous.selections with
      | (selected, _) :: _ => putToSleep (.ofActors actors) (sleepers previous selected)
      | [] => .ofActors actors

theorem actors_opening : (opening below actors).actors = actors := by
  unfold opening
  split
  · exact Frame.actors_ofActors actors
  · split
    · rw [actors_putToSleep, Frame.actors_ofActors]
    · exact Frame.actors_ofActors actors

theorem plain_of_get?_opening (found : (opening below actors).get? index = some entry) :
    entry.selected = false ∧ entry.backtrack = false := by
  have plain : ∀ {entry : Frame.Entry}, (Frame.ofActors actors).get? index = some entry →
      entry.selected = false ∧ entry.backtrack = false := by
    intro entry found
    rw [Frame.get?_ofActors] at found
    obtain ⟨snapshot, -, rfl⟩ := Option.map_eq_some_iff.mp found
    exact ⟨rfl, rfl⟩
  unfold opening at found
  split at found
  · exact plain found
  · split at found
    · rw [get?_putToSleep] at found
      obtain ⟨before, there, rfl⟩ := Option.map_eq_some_iff.mp found
      obtain ⟨unselected, unmarked⟩ := plain there
      split
      · exact ⟨unselected, unmarked⟩
      · exact ⟨unselected, unmarked⟩
    · exact plain found

theorem selections_opening (below : List Frame) (actors : List Snapshot) :
    (opening below actors).selections = [] :=
  Frame.selections_eq_nil_iff.mpr fun _ _ found => (plain_of_get?_opening found).1

theorem carrySleepSet_ofStack_cons (actors : List Snapshot) (previous : Frame) (rest : List Frame) :
    (ofStack (.ofActors actors :: previous :: rest) (rest.length + 2)).carrySleepSet =
      previous.selected.map fun selected =>
        ofStack (putToSleep (.ofActors actors) (sleepers previous selected) :: previous :: rest)
          (rest.length + 2) := by
  have second : (ofStack (.ofActors actors :: previous :: rest)
      (rest.length + 2)).secondFromTop = .ok previous := by
    simp only [secondFromTop, position_ofStack]
    exact Checked.get_eq_ok_iff.mpr (getElem?_ofStack [.ofActors actors])
  have deep : ¬ rest.length + 2 ≤ 1 := by omega
  simp only [carrySleepSet, position_ofStack, deep, if_false, second, bind, Except.bind]
  cases previous.selected with
  | error fault => rfl
  | ok selected =>
      exact updateFrame_ofStack (.ofActors actors) (previous :: rest) (rest.length + 2)
        fun top => .ok (putToSleep top (sleepers previous selected))

theorem carrySleepSet_ofStack
    (actors : List Snapshot)
    (single : ∀ previous ∈ below.head?, ∃ entry index, previous.selections = [(entry, index)]) :
    (ofStack (.ofActors actors :: below) (below.length + 1)).carrySleepSet =
      .ok (ofStack (opening below actors :: below) (below.length + 1)) := by
  cases below with
  | nil => rfl
  | cons previous rest =>
      obtain ⟨entry, index, single⟩ := single previous rfl
      rw [List.length_cons, carrySleepSet_ofStack_cons, Frame.selected_eq_of_single single]
      simp only [opening, single]
      rfl

theorem select_recorded (single : frame.selections = [(entry, index)]) (start : ActorId) :
    (ofStack (above ++ frame :: below) (below.length + 1)).select start =
      .ok (.entry index, ofStack (above ++ frame :: below) (below.length + 1)) := by
  have found : (ofStack (above ++ frame :: below) (below.length + 1)).top = .ok frame :=
    frame_ofStack above
  unfold select
  apply Checked.bind_eq_ok_iff.mpr
  refine ⟨frame, found, ?_⟩
  split
  · exact Checked.bind_eq_ok_iff.mpr ⟨index, Frame.selectedIndex_of_single single, rfl⟩
  · exact Checked.bind_eq_ok_iff.mpr ⟨some index, Frame.selectedIndex?_of_single single, rfl⟩

theorem select_open (unselected : frame.selections = []) (start : ActorId) :
    (ofStack (frame :: below) (below.length + 1)).select start =
      match frame.find (start.index % max frame.size 1) Frame.Entry.pending with
      | some index =>
          .ok (.entry index,
            ofStack (frame.modify index Frame.Entry.select :: below) (below.length + 1))
      | none => .ok (frame.blocked, ofStack (frame :: below) (below.length + 1)) := by
  have nothing : frame.selectedIndex? = .ok none := by
    simp only [Frame.selectedIndex?, Frame.selection?, unselected]
    rfl
  simp only [select, top_ofStack, bind, Except.bind, atFrontier_ofStack, nothing, Bool.not_true]
  cases frame.find (start.index % max frame.size 1) Frame.Entry.pending with
  | none => rfl
  | some index =>
      simp only [position_ofStack, modifyFrame_ofStack]
      rfl

theorem truncate_ofStack (above below : List Frame) (position : Nat) :
    (ofStack (above ++ below) position).truncate below.length = ofStack below 0 := by
  simp [truncate, ofStack]

theorem pop_ofStack :
    (ofStack (frame :: below) (below.length + 1)).pop =
      .ok (ofStack below below.length) := by
  simp only [pop, atFrontier_ofStack, if_true, position_ofStack]
  simp [ofStack, Checked.sub, bind, Except.bind, pure, Except.pure]

/-- Goes back to the last frame that has something left to explore once its selection is done. -/
def rewind : List Frame → List Frame
  | [] => []
  | frame :: below =>
      match frame.selections with
      | (_, index) :: _ =>
          if (frame.retire index).isDone then rewind below else frame.retire index :: below
      | [] => frame :: below

theorem retreat_ofStack
    (singles : ∀ frame ∈ stack, ∃ entry index, frame.selections = [(entry, index)]) :
    (ofStack stack stack.length).retreat stack.length =
      .ok (ofStack (rewind stack) (rewind stack).length) := by
  induction stack with
  | nil => rfl
  | cons frame below induction =>
      obtain ⟨entry, index, single⟩ := singles frame List.mem_cons_self
      have slept : frame.sleepSelected = .ok (frame.modify index Frame.Entry.sleep) := by
        simp only [Frame.sleepSelected, Frame.selectedIndex_of_single single]
        rfl
      have cleared : (frame.modify index Frame.Entry.sleep).clearSelected =
          .ok (frame.retire index) := by
        have chosen := Frame.selected_of_single single
        have still : (frame.modify index Frame.Entry.sleep).selections =
            [(entry.sleep, index)] := Frame.selections_modify_of_single single chosen
        simp only [Frame.clearSelected, Frame.selectedIndex_of_single still]
        rfl
      have rest := induction fun other member => singles other (List.mem_cons_of_mem _ member)
      simp only [List.length_cons, retreat, length_ofStack, Nat.succ_ne_zero, if_false, realTop_ofStack,
        slept, cleared, bind, Except.bind, position_ofStack, modifyFrame_ofStack, rewind, single]
      split
      · rw [pop_ofStack]
        exact rest
      · rfl

/-- An execution has ended without recording a frame at which nothing was selected. -/
theorem advance_ofStack
    (singles : ∀ frame ∈ stack, ∃ entry index, frame.selections = [(entry, index)]) :
    (ofStack stack stack.length).advance =
      .ok ((rewind stack).length != 0, ofStack (rewind stack) 0) := by
  have gone := retreat_ofStack singles
  cases stack with
  | nil => rfl
  | cons frame below =>
      obtain ⟨entry, index, single⟩ := singles frame List.mem_cons_self
      simp only [List.length_cons] at gone
      simp only [advance, List.length_cons, length_ofStack, Nat.succ_ne_zero, if_false, realTop_ofStack,
        Frame.selection?_of_single single, Option.isNone_some, gone, bind, Except.bind, pure,
        Except.pure, Bool.false_eq_true]
      rfl

/-- An execution has ended at a new frame, where nothing was selected. -/
theorem advance_ofStack_cons
    (unselected : frame.selections = [])
    (singles : ∀ frame ∈ below, ∃ entry index, frame.selections = [(entry, index)]) :
    (ofStack (frame :: below) (below.length + 1)).advance =
      .ok ((rewind below).length != 0, ofStack (rewind below) 0) := by
  have gone := retreat_ofStack singles
  have nothing : frame.selection? = .ok none := by
    simp only [Frame.selection?, unselected]
  simp only [advance, List.length_cons, length_ofStack, Nat.succ_ne_zero, if_false, realTop_ofStack, nothing,
    Option.isNone_none, if_true, pop_ofStack, gone, bind, Except.bind, pure, Except.pure]
  rfl

end Schedule

end Interleave
