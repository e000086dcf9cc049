import Interleave.Proofs.Race.Marks

namespace Interleave

def Frame.MarksEnabled (frame : Frame) : Prop :=
  ∀ index entry, frame.get? index = some entry → entry.backtrack = true → entry.enabled = true

def Schedule.MarksEnabled (schedule : Schedule) : Prop :=
  ∀ (index : Nat) (frame : Frame), schedule.frames[index]? = some frame → frame.MarksEnabled

theorem Frame.enabled_of_modify
    {frame : Frame} {index : Nat} (flag : Entry → Bool)
    (flagged : ∀ position entry, frame.get? position = some entry → flag entry = true →
      entry.enabled = true)
    (change : Entry → Entry) (kept : ∀ entry, (change entry).snapshot = entry.snapshot)
    (changed : ∀ entry, frame.get? index = some entry → flag (change entry) = true →
      entry.enabled = true) :
    ∀ position entry, (frame.modify index change).get? position = some entry →
      flag entry = true → entry.enabled = true := by
  intro position entry there raised
  simp only [get?, modify, List.getElem?_modify] at there
  obtain ⟨before, here, rfl⟩ := Option.map_eq_some_iff.mp there
  by_cases same : index = position
  · subst same
    rw [if_pos rfl] at raised ⊢
    rw [Entry.enabled, kept]
    exact changed before here raised
  · rw [if_neg same] at raised ⊢
    exact flagged position before here raised

theorem Frame.MarksEnabled.mark
    {frame : Frame} (marks : frame.MarksEnabled) {index : Nat} {entry : Frame.Entry}
    (found : frame.get? index = some entry) (enabled : entry.enabled = true) :
    (frame.modify index Frame.Entry.mark).MarksEnabled := by
  refine enabled_of_modify Entry.backtrack marks Entry.mark (fun _ => rfl) ?_
  intro other here _
  cases found.symm.trans here
  exact enabled

def Schedule.Every (property : Frame → Prop) (schedule : Schedule) : Prop :=
  ∀ (index : Nat) (frame : Frame), schedule.frames[index]? = some frame → property frame

theorem Schedule.Every.modifyFrame
    {property : Frame → Prop} {schedule : Schedule} (every : schedule.Every property) {step : Nat}
    {frame : Frame} (found : schedule.frame step = .ok frame) (change : Frame → Frame)
    (kept : property (change frame)) : (schedule.modifyFrame step change).Every property := by
  obtain ⟨positive, here⟩ := Schedule.frame_eq_ok_iff.mp found
  intro index other there
  simp only [Schedule.modifyFrame, Array.getElem?_modify] at there
  by_cases same : step - 1 = index
  · subst same
    rw [if_pos rfl, here] at there
    cases there
    exact kept
  · rw [if_neg same] at there
    exact every index other there

namespace Analysis

open Attempt

theorem mem_awaited_of_independentFirsts
    {causality : Causality} {schedule : Schedule} {steps awaited firsts : List Nat} {seen : Clock}
    (found : independentFirsts causality schedule steps awaited seen = .ok firsts)
    {actor : Nat} (member : actor ∈ firsts) : actor ∈ awaited := by
  induction steps generalizing awaited seen firsts with
  | nil =>
      cases found
      cases member
  | cons step rest induction =>
      rw [independentFirsts] at found
      split at found
      · cases found
        cases member
      · obtain ⟨frame, -, found⟩ := Checked.bind_eq_ok_iff.mp found
        obtain ⟨entry, -, found⟩ := Checked.bind_eq_ok_iff.mp found
        dsimp only at found
        split at found
        · exact induction found member
        · rename_i awaits
          obtain ⟨clock, -, found⟩ := Checked.bind_eq_ok_iff.mp found
          obtain ⟨others, next, found⟩ := Checked.bind_eq_ok_iff.mp found
          cases found
          split at member
          · exact List.mem_of_mem_erase (induction next member)
          · rcases List.mem_cons.mp member with rfl | member
            · simpa using awaits
            · exact List.mem_of_mem_erase (induction next member)

theorem enabled_of_candidates
    {causality : Causality} {schedule : Schedule} {race : Race} {second : Frame.Entry}
    {found : List Nat} (picked : candidates causality schedule race second = .ok found)
    {frame : Frame} (there : schedule.frame race.first = .ok frame) {index : Nat}
    (member : index ∈ found) : ∃ entry, frame.get? index = some entry ∧ entry.enabled = true := by
  unfold candidates at picked
  obtain ⟨before, same, picked⟩ := Checked.bind_eq_ok_iff.mp picked
  cases same.symm.trans there
  obtain ⟨first, -, picked⟩ := Checked.bind_eq_ok_iff.mp picked
  obtain ⟨others, awaits, picked⟩ := Checked.bind_eq_ok_iff.mp picked
  cases picked
  have enabled : ∀ actor,
      actor ∈ (frame.entries.zipIdx.filter fun item => item.1.enabled).map Prod.snd →
      ∃ entry, frame.get? actor = some entry ∧ entry.enabled = true := by
    intro actor among
    obtain ⟨⟨entry, position⟩, kept, rfl⟩ := List.mem_map.mp among
    obtain ⟨inside, enabled⟩ := List.mem_filter.mp kept
    exact ⟨entry, List.mem_zipIdx_iff_getElem?.mp inside, enabled⟩
  have awaited : ∀ actor ∈ others, ∃ entry, frame.get? actor = some entry ∧
      entry.enabled = true := by
    intro actor among
    exact enabled actor (List.mem_filter.mp (mem_awaited_of_independentFirsts awaits among)).1
  split at member
  · rename_i contained
    rcases List.mem_cons.mp member with rfl | member
    · exact enabled _ (by simpa using contained)
    · exact awaited index member
  · exact awaited index member

theorem mem_of_preferred
    {frame : Frame} {found : List Nat} {start index : Nat}
    (picked : preferred frame found start = some index) : index ∈ found := by
  have among : ∀ (property : Frame.Entry → Bool) (index : Nat),
      ((frame.around start).find? fun item =>
        found.contains item.2 && property item.1).map Prod.snd = some index → index ∈ found := by
    intro property index search
    obtain ⟨⟨entry, position⟩, first, rfl⟩ := Option.map_eq_some_iff.mp search
    have both := List.find?_some first
    rw [Bool.and_eq_true] at both
    simpa using both.1
  simp only [preferred, Option.orElse_eq_orElse, Option.orElse_eq_or, Option.or_eq_some_iff]
    at picked
  rcases picked with asleep | ⟨-, eager | ⟨-, any⟩⟩
  · exact among Frame.Entry.asleep index asleep
  · exact among (fun entry => entry.enabled && entry.kind ≠ .yield) index eager
  · exact among (fun _ => true) index any

section Every

variable {property : Frame → Prop} {recording : Bool} {before after : Analysis × Log}
  (kept : ∀ (frame : Frame) (index : Nat) (entry : Frame.Entry), property frame →
    frame.get? index = some entry → entry.enabled = true →
      property (frame.modify index Frame.Entry.mark))
  (every : before.1.schedule.Every property)

include kept every

theorem every_of_addBacktrack
    {race : Race} {second : Frame.Entry}
    (returned : (addBacktrack race second).Returns before () after) :
    after.1.schedule.Every property := by
  simp only [addBacktrack, returns_bind_iff, returns_get_iff, returns_lift_iff] at returned
  obtain ⟨_, _, ⟨rfl, rfl⟩, found, _, ⟨candidates, rfl⟩, marked⟩ := returned
  split at marked
  · simp only [returns_bind_iff, returns_throw_iff, false_and, exists_false] at marked
  · simp only [returns_bind_iff, returns_lift_iff] at marked
    obtain ⟨frame, _, ⟨there, rfl⟩, marked⟩ := marked
    split at marked
    · simp only [returns_pure_iff, true_and] at marked
      subst marked
      exact every
    · split at marked
      · rename_i index picked
        simp only [returns_bind_iff, returns_log_iff, returns_modify_iff] at marked
        obtain ⟨_, _, rfl, rfl⟩ := marked
        obtain ⟨entry, inside, enabled⟩ :=
          enabled_of_candidates candidates there (mem_of_preferred picked)
        have before := every _ _ (Schedule.frame_eq_ok_iff.mp there).2
        exact every.modifyFrame there (fun frame => frame.modify index Frame.Entry.mark)
          (kept frame index entry before inside enabled)
      · simp only [returns_throw_iff] at marked

theorem every_of_answers
    {race : Race} {second : Frame.Entry} {isRace : Bool}
    (answers : Answers recording race second isRace before after) :
    after.1.schedule.Every property := by
  unfold Answers at answers
  split at answers
  · split at answers
    · simp only [record, returns_modify_iff] at answers
      subst answers
      exact every
    · exact every_of_addBacktrack kept every answers
  · subst answers
    exact every

theorem every_of_visit {step : Nat} (returned : (visit recording step).Returns before () after) :
    after.1.schedule.Every property := by
  obtain ⟨frame, -, ⟨-, rfl⟩ | ⟨entry, index, followed, partner, touched, -, -, -, visited⟩⟩ :=
    visit_cases returned
  · exact every
  · rcases visited with ⟨-, rfl⟩ | ⟨-, isRace, log, between, joined, -, answers, -, rfl⟩
    · exact every
    · have answered : between.1.schedule.Every property := by
        refine every_of_answers kept ?_ answers
        exact every
      exact answered

/-- What marking an enabled entry keeps of every frame, an analysis keeps. -/
theorem every_of_run (returned : (run recording).Returns before () after) :
    after.1.schedule.Every property := by
  apply returns_run (motive := fun _ between => between.1.schedule.Every property) returned
  · intro actors _
    exact every
  · intro step between next _ _ every visited
    exact every_of_visit kept every visited

end Every

theorem marksEnabled_of_run
    {recording : Bool} {before after : Analysis × Log}
    (marks : before.1.schedule.MarksEnabled)
    (returned : (run recording).Returns before () after) :
    after.1.schedule.MarksEnabled :=
  every_of_run (fun _ _ _ marks found enabled => marks.mark found enabled) marks returned

end Analysis

end Interleave
