import Interleave.Proofs.Race.Traces

namespace Interleave

namespace Analysis

variable {schedule : Schedule} {recording : Bool} {before after : Analysis × Log}

theorem traces_visit
    {step : Nat} (wellFormed : schedule.WellFormed)
    (recorded : before.1.schedule.unmark = schedule.unmark)
    (positive : 0 < step) (within : step ≤ schedule.position)
    (traces : before.1.causality.Traces schedule step)
    (returned : (visit recording step).Returns before () after) :
    after.1.causality.Traces schedule (step + 1) := by
  obtain ⟨frame, found, ⟨nothing, rfl⟩ |
    ⟨entry, index, followed, partner, touched, selection, follows, touches, rest⟩⟩ :=
    visit_cases returned
  · exact traces.skip (Schedule.selected?_eq_none_of_recorded recorded found within nothing)
  · have selected := Schedule.selected?_eq_some_of_recorded recorded found within selection
    rw [Schedule.position_eq_of_unmark_eq recorded] at touches
    have reached := traces.touch wellFormed positive within
      (Schedule.size_of_unmark_eq recorded found) selected follows touches
    rcases rest with ⟨rfl, rfl⟩ | ⟨-, isRace, log, between, joined, -, answers, joins, rfl⟩
    · exact reached.done
    · obtain ⟨causality, -⟩ := answers.kept
      rw [causality] at joins
      exact (reached.setRaces between.1.causality.races).join within joins

theorem traces_run
    (wellFormed : before.1.schedule.WellFormed)
    (returned : (run recording).Returns before () after) :
    after.1.causality.Traces before.1.schedule (before.1.schedule.position + 1) := by
  have both : after.1.schedule.unmark = before.1.schedule.unmark ∧
      after.1.causality.Traces before.1.schedule (before.1.schedule.position + 1) := by
    apply returns_run (motive := fun step between =>
      between.1.schedule.unmark = before.1.schedule.unmark ∧
        between.1.causality.Traces before.1.schedule step) returned
    · intro actors _
      exact ⟨rfl, Causality.traces_start actors before.1.schedule⟩
    · rintro step between next positive within ⟨recorded, traces⟩ visited
      refine ⟨by rw [visit_unmark visited, recorded], ?_⟩
      exact traces_visit wellFormed recorded positive within traces visited
  exact both.2

/-- After an analysis, whichever way it treats races, the clocks answer for every two steps with a
selection, and the answer is the order of `Reaches`. -/
theorem happensBefore_iff_reaches
    (wellFormed : before.1.schedule.WellFormed)
    (returned : (run recording).Returns before () after)
    {earlier later : Nat}
    (earlierSelected : (before.1.schedule.selected? earlier).isSome)
    (laterSelected : (before.1.schedule.selected? later).isSome) :
    ∃ answer, after.1.causality.happensBefore after.1.schedule earlier later = .ok answer ∧
      (answer = true ↔ before.1.schedule.Reaches earlier later) := by
  have traces := traces_run wellFormed returned
  have same := unmark_of_run returned
  obtain ⟨snapshot, selected⟩ := Option.isSome_iff_exists.mp earlierSelected
  have acts : before.1.schedule.ActsAt snapshot.id earlier := ⟨snapshot, selected, rfl⟩
  obtain ⟨laterSnapshot, laterActs⟩ := Option.isSome_iff_exists.mp laterSelected
  have laterIn : before.1.schedule.ActsAt laterSnapshot.id later := ⟨_, laterActs, rfl⟩
  rw [← Schedule.selected?_eq_of_unmark_eq same] at selected
  obtain ⟨frame, entry, found, chosen, rfl⟩ :=
    Schedule.exists_selected selected (wellFormed.single same acts.le_position)
  have within : later ≤ after.1.causality.clocks.size := by
    rw [traces.clocks]
    exact laterIn.le_position
  refine ⟨_, Causality.happensBefore_eq_ok found chosen laterIn.positive within, ?_⟩
  have short : earlier < 2 ^ 32 := Nat.lt_of_le_of_lt acts.le_position wellFormed.short
  have knows := traces.known later (Nat.lt_succ_of_le laterIn.le_position) laterSelected
  rw [decide_eq_true_iff, UInt32.le_iff_toNat_le, UInt32.toNat_ofNat_of_lt' short]
  exact knows earlier _ acts

end Analysis

namespace Schedule

def recorded (actor : Nat) (operation : Operation) (sendStep : Option Nat) (selected : Bool) :
    Frame.Entry :=
  ⟨⟨⟨actor⟩, true, operation, sendStep⟩, selected, false, false⟩

/-- An actor creates another one, both send to it, and it receives the message of its creator,
which then awaits a deadlock. -/
def handOver : Schedule :=
  ⟨#[⟨[recorded 0 .create none true]⟩,
     ⟨[recorded 0 (.send ⟨1⟩) none false, recorded 1 (.start ⟨1⟩) none true]⟩,
     ⟨[recorded 0 (.send ⟨1⟩) none true, recorded 1 (.send ⟨1⟩) none false]⟩,
     ⟨[recorded 0 (.awaitDeadlock ⟨0⟩) none false, recorded 1 (.send ⟨1⟩) none true]⟩,
     ⟨[recorded 0 (.awaitDeadlock ⟨0⟩) none false, recorded 1 (.receive ⟨1⟩) (some 3) true]⟩,
     ⟨[recorded 0 (.awaitDeadlock ⟨0⟩) none true, recorded 1 (.stop ⟨1⟩) none false]⟩],
   6⟩

theorem wellFormed_of_frames
    {schedule : Schedule} (position_le : schedule.position ≤ schedule.length)
    (single : ∀ frame ∈ schedule.frames.toList, frame.selections.length = 1)
    (valid : ∀ step < schedule.position + 1, ∀ snapshot ∈ schedule.selected? step,
      snapshot.kind ≠ .invalid)
    (short : schedule.position < 2 ^ 32)
    (sent : ∀ step < schedule.position + 1, ∀ snapshot ∈ schedule.selected? step,
      ∀ sendStep ∈ snapshot.sendStep, sendStep < step) : schedule.WellFormed := by
  have chosen : ∀ step frame, schedule.frame step = .ok frame → frame.selections.length = 1 := by
    intro step frame found
    apply single
    exact List.mem_of_getElem? (by simpa using (frame_eq_ok_iff.mp found).2)
  have bounded : ∀ step snapshot, schedule.selected? step = some snapshot →
      step < schedule.position + 1 := by
    intro step snapshot selected
    exact Nat.lt_succ_of_le (ActsAt.le_position ⟨snapshot, selected, rfl⟩)
  refine ⟨position_le, ?_, ?_, ?_, short, ?_⟩
  · intro step frame _ found
    exact chosen step frame found
  · intro frame found
    exact Nat.le_of_eq (chosen _ frame found)
  · intro step snapshot selected
    exact valid step (bounded step snapshot selected) snapshot selected
  · intro step snapshot sendStep selected _ isSent
    exact sent step (bounded step snapshot selected) snapshot selected sendStep isSent

theorem wellFormed_handOver : handOver.WellFormed :=
  wellFormed_of_frames (by decide) (by decide) (by decide) (by decide) (by decide)

end Schedule

namespace Analysis

theorem happensBefore_iff_reaches_handOver :
    ∃ after, (run false).Returns (⟨.handOver, .empty⟩, .empty .error) () after ∧
      Schedule.handOver.WellFormed ∧
      ∃ answer, after.1.causality.happensBefore after.1.schedule 2 6 = .ok answer ∧
        (answer = true ↔ Schedule.handOver.Reaches 2 6) := by
  have returned := Attempt.returns_of_isOk
    (show ((run false).outcome (⟨.handOver, .empty⟩, .empty .error)).1.1.isOk = true by
      decide +kernel)
  exact ⟨_, returned, Schedule.wellFormed_handOver,
    happensBefore_iff_reaches Schedule.wellFormed_handOver returned (by decide) (by decide)⟩

end Analysis

end Interleave
