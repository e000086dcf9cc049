import Interleave.Proofs.Race.Walks

namespace Interleave

namespace Analysis

open Attempt

variable {schedule : Schedule} {recording : Bool} {step : Nat} {before after : Analysis × Log}

/-- The races that end before a step, in the order of their ends. -/
structure Reported (schedule : Schedule) (step : Nat) (races : Array Race) : Prop where
  ordered : races.toList.Pairwise fun race next => race.second < next.second
  exact : ∀ race, race ∈ races ↔ schedule.Reversible race ∧ race.second < step

theorem reported_start (schedule : Schedule) : Reported schedule 1 #[] where
  ordered := .nil
  exact := by
    intro race
    simp only [Array.not_mem_empty, false_iff, not_and]
    intro reversible
    have ordered := reversible.ordered
    omega

theorem Reported.skip
    {races : Array Race} (reported : Reported schedule step races)
    (none : ∀ first, ¬ schedule.Reversible ⟨first, step⟩) : Reported schedule (step + 1) races where
  ordered := reported.ordered
  exact := by
    intro race
    rw [reported.exact]
    refine and_congr_right fun reversible => ?_
    have other : race.second ≠ step := by
      rintro rfl
      exact none race.first reversible
    omega

theorem Reported.push
    {races : Array Race} {first : Nat} (reported : Reported schedule step races)
    (reversible : schedule.Reversible ⟨first, step⟩) :
    Reported schedule (step + 1) (races.push ⟨first, step⟩) where
  ordered := by
    rw [Array.toList_push, List.pairwise_append]
    refine ⟨reported.ordered, List.pairwise_singleton _ _, ?_⟩
    intro race member next last
    rw [List.mem_singleton.mp last]
    exact ((reported.exact race).mp (Array.mem_toList_iff.mp member)).2
  exact := by
    intro race
    rw [Array.mem_push, reported.exact]
    constructor
    · rintro (⟨also, below⟩ | rfl)
      · exact ⟨also, Nat.lt_succ_of_lt below⟩
      · exact ⟨reversible, Nat.lt_succ_self step⟩
    · rintro ⟨also, below⟩
      rcases Nat.lt_succ_iff_lt_or_eq.mp below with below | same
      · exact .inl ⟨also, below⟩
      · exact .inr (reversible.unique also same)

theorem exists_recorded (race : Race) (second : Frame.Entry) (before : Analysis × Log) :
    ∃ between, Answers true race second true before between := by
  have recorded : (record race).Returns before () _ := returns_modify_iff.mpr rfl
  exact ⟨_, recorded⟩

theorem reported_visit
    (wellFormed : schedule.WellFormed) (walked : Walked schedule step before) (positive : 0 < step)
    (within : step ≤ schedule.position)
    (reported : Reported schedule step before.1.causality.races)
    (returned : (visit true step).Returns before () after) :
    after.1.schedule = before.1.schedule ∧
      Reported schedule (step + 1) after.1.causality.races := by
  rcases visit_reversible wellFormed walked.recorded positive within walked.traces returned with
    ⟨none, unchanged, kept⟩ |
    ⟨first, entry, touched, log, between, reversible, -, -, sameRaces, answers, unchanged, kept⟩
  · rw [kept]
    exact ⟨unchanged, reported.skip none⟩
  · obtain rfl : _ = between := returns_modify_iff.mp answers
    refine ⟨unchanged, ?_⟩
    rw [kept]
    change Reported schedule (step + 1) (touched.races.push ⟨first, step⟩)
    rw [sameRaces]
    exact reported.push reversible

theorem exists_recording
    (wellFormed : before.1.schedule.WellFormed) (numbered : before.1.schedule.Numbered)
    (storable : before.1.schedule.Storable) :
    ∃ after, (run true).Returns before () after ∧ after.1.schedule = before.1.schedule ∧
      Reported before.1.schedule (before.1.schedule.position + 1) after.1.causality.races := by
  obtain ⟨after, returned, -, unchanged, reported⟩ : ∃ after, (run true).Returns before () after ∧
      Walked before.1.schedule (before.1.schedule.position + 1) after ∧
      after.1.schedule = before.1.schedule ∧
      Reported before.1.schedule (before.1.schedule.position + 1) after.1.causality.races := by
    apply exists_run (motive := fun step between => Walked before.1.schedule step between ∧
      between.1.schedule = before.1.schedule ∧
      Reported before.1.schedule step between.1.causality.races) wellFormed rfl
    · intro between same none walked
      rw [none]
      exact ⟨walked, same, reported_start before.1.schedule⟩
    · rintro step between positive within ⟨walked, same, reported⟩
      obtain ⟨next, visited⟩ := walked.exists_visit wellFormed numbered storable positive within
        fun first entry touched log _ _ _ => exists_recorded ⟨first, step⟩ entry _
      obtain ⟨unchanged, further⟩ :=
        reported_visit wellFormed walked positive within reported visited
      exact ⟨next, visited, walked.visited wellFormed positive within visited,
        unchanged.trans same, further⟩
  exact ⟨after, returned, unchanged, reported⟩

theorem Reported.mem_iff
    {races : Array Race} (reported : Reported schedule (schedule.position + 1) races) (race : Race) :
    race ∈ races ↔ schedule.Reversible race := by
  rw [reported.exact]
  exact and_iff_left_of_imp fun reversible => Nat.lt_succ_of_le reversible.le_position

theorem Walked.fits_of_visit
    {target : Nat} (walked : Walked schedule step before) (within : step ≤ schedule.position)
    (returned : (visit recording step).Returns before () after)
    (targets : schedule.lifeTarget? step = some target ∨ schedule.sendTarget? step = some target) :
    target + 1 < 2 ^ 60 := by
  have recorded := walked.recorded
  obtain ⟨frame, found, ⟨nothing, -⟩ |
    ⟨entry, index, followed, partner, touched, selection, -, touches, -⟩⟩ := visit_cases returned
  · have chosen : (schedule.selected? step).isSome :=
      targets.elim Schedule.isSome_of_lifeTarget? Schedule.isSome_of_sendTarget?
    rw [Schedule.selected?_eq_none_of_recorded recorded found within nothing] at chosen
    cases chosen
  · have selected := Schedule.selected?_eq_some_of_recorded recorded found within selection
    rw [Schedule.position_eq_of_unmark_eq recorded] at touches
    exact Causality.fits_of_touch (Schedule.size_of_unmark_eq recorded found) selected touches targets

/-- An analysis that comes to its end has found a place for everybody that a step touches. -/
theorem storable_of_run
    (wellFormed : before.1.schedule.WellFormed)
    (returned : (run recording).Returns before () after) : before.1.schedule.Storable := by
  have all : Walked before.1.schedule (before.1.schedule.position + 1) after ∧
      ∀ step target, step < before.1.schedule.position + 1 →
        before.1.schedule.lifeTarget? step = some target ∨
          before.1.schedule.sendTarget? step = some target → target + 1 < 2 ^ 60 := by
    apply returns_run (motive := fun next between => Walked before.1.schedule next between ∧
      ∀ step target, step < next → before.1.schedule.lifeTarget? step = some target ∨
        before.1.schedule.sendTarget? step = some target → target + 1 < 2 ^ 60) returned
    · intro actors counted
      refine ⟨walked_start rfl counted, ?_⟩
      intro step target below touches
      exact absurd (Schedule.inside_of_touches touches).1 (by omega)
    · rintro step between next positive within ⟨walked, fits⟩ visited
      refine ⟨walked.visited wellFormed positive within visited, ?_⟩
      intro other target below touches
      rcases Nat.lt_succ_iff_lt_or_eq.mp below with below | rfl
      · exact fits other target below touches
      · exact walked.fits_of_visit within visited touches
  intro step target touches
  exact all.2 step target
    (Nat.lt_succ_of_le (Schedule.inside_of_touches touches).2) touches

end Analysis

namespace Schedule

theorem numbered_handOver : handOver.Numbered := numbered_of_ids (by decide)

theorem storable_handOver : handOver.Storable := by
  have lives : ∀ step < 7, ∀ target ∈ handOver.lifeTarget? step, target + 1 < 2 ^ 60 := by decide
  have sends : ∀ step < 7, ∀ target ∈ handOver.sendTarget? step, target + 1 < 2 ^ 60 := by decide
  intro step target touches
  have below : step < 7 := Nat.lt_succ_of_le (inside_of_touches touches).2
  exact touches.elim (lives step below target) (sends step below target)

/-- A single step, which sends to an actor that could have no place in any table. -/
def farSend : Schedule := ⟨#[⟨[recorded 0 (.send ⟨2 ^ 64 - 2⟩) none true]⟩], 1⟩

theorem wellFormed_farSend : farSend.WellFormed :=
  wellFormed_of_frames (by decide) (by decide) (by decide) (by decide) (by decide)

theorem numbered_farSend : farSend.Numbered := numbered_of_ids (by decide)

end Schedule

namespace Analysis

open Attempt

variable {before : Analysis × Log}

/-- An analysis that records finds the races that could be reversed and no others, each of them once,
in the order of their second steps, and leaves the schedule as it is. -/
theorem recorded_iff_reversible
    (wellFormed : before.1.schedule.WellFormed) (numbered : before.1.schedule.Numbered)
    (storable : before.1.schedule.Storable) :
    ∃ after, (run true).Returns before () after ∧
      after.1.schedule = before.1.schedule ∧
      (after.1.causality.races.toList.Pairwise fun race next => race.second < next.second) ∧
      ∀ race, race ∈ after.1.causality.races ↔ before.1.schedule.Reversible race := by
  obtain ⟨after, returned, unchanged, reported⟩ := exists_recording wellFormed numbered storable
  exact ⟨after, returned, unchanged, reported.ordered, reported.mem_iff⟩

theorem recorded_iff_reversible_handOver :
    Schedule.handOver.WellFormed ∧ Schedule.handOver.Numbered ∧ Schedule.handOver.Storable ∧
      ∃ after, (run true).Returns (⟨.handOver, .empty⟩, .empty .error) () after ∧
        ∀ race, race ∈ after.1.causality.races ↔ Schedule.handOver.Reversible race := by
  obtain ⟨after, returned, -, -, exact⟩ := @recorded_iff_reversible
    (⟨.handOver, .empty⟩, .empty .error) Schedule.wellFormed_handOver
    Schedule.numbered_handOver Schedule.storable_handOver
  exact ⟨Schedule.wellFormed_handOver, Schedule.numbered_handOver, Schedule.storable_handOver,
    after, returned, exact⟩

/-- Without a place for everybody, an analysis need not come to its end. -/
theorem not_recorded_farSend :
    Schedule.farSend.WellFormed ∧ Schedule.farSend.Numbered ∧
      ¬ ∃ after, (run true).Returns (⟨.farSend, .empty⟩, .empty .error) () after := by
  refine ⟨Schedule.wellFormed_farSend, Schedule.numbered_farSend, ?_⟩
  rintro ⟨after, returned⟩
  have sends : Schedule.farSend.sendTarget? 1 = some (2 ^ 64 - 2) := by decide
  have fits := storable_of_run Schedule.wellFormed_farSend returned 1 (2 ^ 64 - 2) (.inr sends)
  omega

end Analysis

end Interleave
