import Interleave.Proofs.Attempt
import Interleave.Race.Analysis

namespace Interleave

namespace Frame

namespace Entry

def unmark (entry : Entry) : Entry := { entry with backtrack := false }

@[simp] theorem unmark_mark (entry : Entry) : entry.mark.unmark = entry.unmark := rfl

@[simp] theorem snapshot_unmark (entry : Entry) : entry.unmark.snapshot = entry.snapshot := rfl

@[simp] theorem asleep_unmark (entry : Entry) : entry.unmark.asleep = entry.asleep := rfl

end Entry

def unmark (frame : Frame) : Frame := ⟨frame.entries.map Entry.unmark⟩

@[simp] theorem unmark_modify_mark (frame : Frame) (index : Nat) :
    (frame.modify index Entry.mark).unmark = frame.unmark := by
  simp only [unmark, modify, mk.injEq]
  apply List.ext_getElem?
  intro position
  simp only [List.getElem?_map, List.getElem?_modify]
  cases frame.entries[position]? with
  | none => rfl
  | some entry => by_cases same : index = position <;> simp [same]

@[simp] theorem actors_unmark (frame : Frame) : frame.unmark.actors = frame.actors := by
  simp [unmark, actors]

@[simp] theorem size_unmark (frame : Frame) : frame.unmark.size = frame.size := by
  simp [unmark, size]

theorem get?_unmark (frame : Frame) (index : Nat) :
    frame.unmark.get? index = (frame.get? index).map Entry.unmark := by
  simp [unmark, get?]

theorem selections_unmark (frame : Frame) :
    frame.unmark.selections =
      frame.selections.map fun (entry, index) => (entry.unmark, index) := by
  simp only [selections, unmark, List.zipIdx_map, List.filter_map]
  rfl

section Selection

variable {frame : Frame}

theorem selection?_eq_none_iff : frame.selection? = .ok none ↔ frame.selections = [] := by
  unfold selection?
  rcases frame.selections with _ | ⟨first, _ | ⟨second, rest⟩⟩
  · simp
  · simp
  · simp

theorem selection?_eq_some_iff {selection : Entry × Nat} :
    frame.selection? = .ok (some selection) ↔ frame.selections = [selection] := by
  unfold selection?
  rcases frame.selections with _ | ⟨first, _ | ⟨second, rest⟩⟩
  · simp
  · simp
  · simp

theorem exists_selection? (few : frame.selections.length ≤ 1) :
    ∃ selection, frame.selection? = .ok selection := by
  rcases chosen : frame.selections with _ | ⟨first, _ | ⟨second, rest⟩⟩
  · exact ⟨none, selection?_eq_none_iff.mpr chosen⟩
  · exact ⟨some first, selection?_eq_some_iff.mpr chosen⟩
  · rw [chosen, List.length_cons, List.length_cons] at few
    omega

theorem selected_of_selection?
    {entry : Entry} {index : Nat} (selection : frame.selection? = .ok (some (entry, index))) :
    frame.selected = .ok entry := by
  simp only [selected, Frame.selection, selection]
  rfl

end Selection

end Frame

namespace Schedule

def unmark (schedule : Schedule) : Schedule :=
  { schedule with frames := schedule.frames.map Frame.unmark }

@[simp] theorem position_unmark (schedule : Schedule) :
    schedule.unmark.position = schedule.position := rfl

@[simp] theorem length_unmark (schedule : Schedule) :
    schedule.unmark.length = schedule.length := by
  simp [unmark, length]

theorem getElem?_unmark (schedule : Schedule) (index : Nat) :
    schedule.unmark.frames[index]? = schedule.frames[index]?.map Frame.unmark := by
  simp [unmark]

theorem position_eq_of_unmark_eq
    {left right : Schedule} (same : left.unmark = right.unmark) :
    left.position = right.position := by
  simpa using congrArg Schedule.position same

theorem exists_frame_of_unmark_eq
    {left right : Schedule} (same : left.unmark = right.unmark) {index : Nat} {frame : Frame}
    (found : left.frames[index]? = some frame) :
    ∃ other, right.frames[index]? = some other ∧ other.unmark = frame.unmark := by
  have frames := congrArg (fun schedule : Schedule => schedule.frames[index]?) same
  simp only [getElem?_unmark, found, Option.map_some] at frames
  obtain ⟨other, there, equal⟩ := Option.map_eq_some_iff.mp frames.symm
  exact ⟨other, there, equal⟩

theorem size_of_unmark_eq
    {schedule recorded : Schedule} (same : recorded.unmark = schedule.unmark)
    {step : Nat} {frame : Frame} (found : recorded.frame step = .ok frame) :
    schedule.frames[step - 1]?.map Frame.size = some frame.size := by
  obtain ⟨other, there, equal⟩ := exists_frame_of_unmark_eq same (frame_eq_ok_iff.mp found).2
  rw [there, Option.map_some, ← Frame.size_unmark other, equal, Frame.size_unmark]

theorem unmark_modifyFrame
    (schedule : Schedule) (step : Nat) {change : Frame → Frame}
    (kept : ∀ frame, (change frame).unmark = frame.unmark) :
    (schedule.modifyFrame step change).unmark = schedule.unmark := by
  simp only [unmark, modifyFrame, mk.injEq, and_true]
  apply Array.ext_getElem?
  intro index
  simp only [Array.getElem?_map, Array.getElem?_modify]
  cases schedule.frames[index]? with
  | none => simp
  | some frame => by_cases same : step - 1 = index <;> simp [same, kept]

end Schedule

namespace Analysis

open Attempt

theorem addBacktrack_returns
    {race : Race} {second : Frame.Entry} {before after : Analysis × Log}
    (returned : (addBacktrack race second).Returns before () after) :
    after.1.causality = before.1.causality ∧
      after.1.schedule.unmark = before.1.schedule.unmark := by
  simp only [addBacktrack, returns_bind_iff, returns_get_iff, returns_lift_iff] at returned
  obtain ⟨_, _, ⟨rfl, rfl⟩, found, _, ⟨-, rfl⟩, marked⟩ := returned
  split at marked
  · simp only [returns_bind_iff, returns_throw_iff, false_and, exists_false] at marked
  · simp only [returns_bind_iff, returns_lift_iff] at marked
    obtain ⟨frame, _, ⟨-, rfl⟩, marked⟩ := marked
    split at marked
    · simp only [returns_pure_iff, true_and] at marked
      subst marked
      exact ⟨rfl, rfl⟩
    · split at marked
      · simp only [returns_bind_iff, returns_log_iff, returns_modify_iff] at marked
        obtain ⟨_, _, rfl, rfl⟩ := marked
        refine ⟨rfl, ?_⟩
        apply Schedule.unmark_modifyFrame
        intro frame
        exact Frame.unmark_modify_mark frame _
      · simp only [returns_throw_iff] at marked

def Answers (recording : Bool) (race : Race) (second : Frame.Entry) (isRace : Bool)
    (before after : Analysis × Log) : Prop :=
  if isRace then
    if recording then (record race).Returns before () after
    else (addBacktrack race second).Returns before () after
  else before = after

theorem Answers.kept
    {recording isRace : Bool} {race : Race} {second : Frame.Entry}
    {before after : Analysis × Log}
    (answers : Answers recording race second isRace before after) :
    after.1.causality = { before.1.causality with races := after.1.causality.races } ∧
      after.1.schedule.unmark = before.1.schedule.unmark := by
  unfold Answers at answers
  split at answers
  · split at answers
    · simp only [record, returns_modify_iff] at answers
      subst answers
      exact ⟨rfl, rfl⟩
    · obtain ⟨causality, schedule⟩ := addBacktrack_returns answers
      exact ⟨by rw [causality], schedule⟩
  · subst answers
    exact ⟨rfl, rfl⟩

/-- All that a visit can do: nothing at a step without a selection; else it follows the actor and
touches the target, and if there is an earlier step to come after, it answers a race and joins the
clocks. -/
theorem visit_cases
    {recording : Bool} {step : Nat} {before after : Analysis × Log}
    (returned : (visit recording step).Returns before () after) :
    ∃ frame, before.1.schedule.frame step = .ok frame ∧
      ((frame.selection? = .ok none ∧ before = after) ∨
        ∃ entry index followed partner touched,
          frame.selection? = .ok (some (entry, index)) ∧
          before.1.causality.follow entry.id.index step = .ok followed ∧
          followed.touch before.1.schedule.position step frame entry = .ok (partner, touched) ∧
          ((partner = 0 ∧ (before.1.setCausality touched, before.2) = after) ∨
            (partner ≠ 0 ∧ ∃ isRace log between joined,
              touched.isRace before.1.schedule partner step = .ok isRace ∧
              Answers recording ⟨partner, step⟩ entry isRace
                (before.1.setCausality touched, log) between ∧
              between.1.causality.joinStep step partner = .ok joined ∧
              (between.1.setCausality joined, between.2) = after))) := by
  simp only [visit, returns_bind_iff, returns_get_iff, returns_lift_iff] at returned
  obtain ⟨_, _, ⟨rfl, rfl⟩, frame, _, ⟨found, rfl⟩, selection, _, ⟨selected, rfl⟩, worked⟩ :=
    returned
  refine ⟨frame, found, ?_⟩
  cases selection with
  | none =>
      simp only [returns_pure_iff, true_and] at worked
      exact .inl ⟨selected, worked⟩
  | some selection =>
      obtain ⟨entry, index⟩ := selection
      simp only [returns_bind_iff, returns_get_iff, returns_lift_iff, returns_modify_iff]
        at worked
      obtain ⟨_, _, ⟨rfl, rfl⟩, followed, _, ⟨follows, rfl⟩, ⟨partner, touched⟩, _,
        ⟨touches, rfl⟩, _, _, rfl, worked⟩ := worked
      refine .inr ⟨entry, index, followed, partner, touched, selected, follows, touches, ?_⟩
      split at worked
      · rename_i nobody
        simp only [returns_pure_iff, true_and] at worked
        exact .inl ⟨nobody, worked⟩
      · rename_i somebody
        refine .inr ⟨somebody, ?_⟩
        simp only [returns_bind_iff, returns_lift_iff] at worked
        obtain ⟨isRace, _, ⟨decided, rfl⟩, worked⟩ := worked
        split at worked
        · rename_i race
          simp only [returns_bind_iff, returns_lift_iff, returns_log_iff] at worked
          obtain ⟨clock, _, ⟨-, rfl⟩, _, _, rfl, worked⟩ := worked
          split at worked
          · rename_i recorded
            simp only [returns_bind_iff, returns_get_iff, returns_lift_iff, returns_modify_iff]
              at worked
            obtain ⟨_, between, answered, _, _, ⟨rfl, rfl⟩, joined, _, ⟨joins, rfl⟩, left⟩ :=
              worked
            exact ⟨isRace, _, _, joined, decided, by simpa [Answers, race, recorded] using answered,
              joins, left⟩
          · rename_i recorded
            simp only [returns_bind_iff, returns_get_iff, returns_lift_iff, returns_modify_iff]
              at worked
            obtain ⟨_, between, answered, _, _, ⟨rfl, rfl⟩, joined, _, ⟨joins, rfl⟩, left⟩ :=
              worked
            exact ⟨isRace, _, _, joined, decided, by simpa [Answers, race, recorded] using answered,
              joins, left⟩
        · rename_i race
          simp only [returns_bind_iff, returns_get_iff, returns_lift_iff, returns_modify_iff]
            at worked
          obtain ⟨_, _, ⟨rfl, rfl⟩, joined, _, ⟨joins, rfl⟩, left⟩ := worked
          exact ⟨isRace, before.2, _, joined, decided, by simp [Answers, race], joins, left⟩

theorem visit_unmark
    {recording : Bool} {step : Nat} {before after : Analysis × Log}
    (returned : (visit recording step).Returns before () after) :
    after.1.schedule.unmark = before.1.schedule.unmark := by
  obtain ⟨frame, -, ⟨-, rfl⟩ | ⟨entry, index, followed, partner, touched, -, -, -, visited⟩⟩ :=
    visit_cases returned
  · rfl
  · rcases visited with ⟨-, rfl⟩ | ⟨-, isRace, log, between, joined, -, answers, -, rfl⟩
    · rfl
    · exact answers.kept.2

/-- What holds of the clocks at the start and is kept by the visit of each step holds at the end. -/
theorem returns_run
    {recording : Bool} {before after : Analysis × Log} {motive : Nat → Analysis × Log → Prop}
    (returned : (run recording).Returns before () after)
    (start : ∀ actors, actorCount before.1.schedule = .ok actors →
      motive 1 (before.1.setCausality (.start actors before.1.schedule.position), before.2))
    (round : ∀ step between next, 1 ≤ step → step ≤ before.1.schedule.position →
      motive step between → (visit recording step).Returns between () next →
      motive (step + 1) next) :
    motive (before.1.schedule.position + 1) after := by
  simp only [run, returns_bind_iff, returns_get_iff, returns_lift_iff, returns_modify_iff,
    returns_pure_iff] at returned
  obtain ⟨_, _, ⟨rfl, rfl⟩, actors, _, ⟨counted, rfl⟩, _, _, rfl, _, _, looped, -, rfl⟩ :=
    returned
  rw [Nat.add_comm]
  apply returns_loop looped (start actors counted)
  intro step between next lower upper
  exact round step between next lower (by omega)

theorem unmark_of_run
    {recording : Bool} {before after : Analysis × Log}
    (returned : (run recording).Returns before () after) :
    after.1.schedule.unmark = before.1.schedule.unmark := by
  apply returns_run (motive := fun _ between =>
    between.1.schedule.unmark = before.1.schedule.unmark) returned
  · intro actors _
    rfl
  · intro step between next _ _ kept visited
    rw [visit_unmark visited, kept]

end Analysis

end Interleave
