import Interleave.Proofs.Race.Candidates
import Interleave.Proofs.Race.Recording

namespace Interleave

namespace Schedule

def MarkedAt (schedule : Schedule) (step actor : Nat) : Prop :=
  ∃ frame entry, schedule.frame step = .ok frame ∧ frame.get? actor = some entry ∧
    entry.backtrack = true

def markAt (schedule : Schedule) (mark : Race × Nat) : Schedule :=
  schedule.modifyFrame mark.1.first fun frame => frame.modify mark.2 Frame.Entry.mark

/-- Somebody is marked who could run in place of the first step of the race. -/
def Answered (schedule marked : Schedule) (race : Race) : Prop :=
  ∃ actor, marked.MarkedAt race.first actor ∧ schedule.Candidate race actor

variable {schedule marked : Schedule} {race : Race} {step actor : Nat}

theorem frame_markAt
    {frame : Frame} (found : schedule.frame step = .ok frame) (mark : Race × Nat)
    (positive : 0 < mark.1.first) :
    (schedule.markAt mark).frame step =
      .ok (if mark.1.first = step then frame.modify mark.2 Frame.Entry.mark else frame) := by
  obtain ⟨stepPositive, there⟩ := frame_eq_ok_iff.mp found
  refine frame_eq_ok_iff.mpr ⟨stepPositive, ?_⟩
  have same : mark.1.first - 1 = step - 1 ↔ mark.1.first = step := by omega
  simp only [markAt, modifyFrame, Array.getElem?_modify, there, same]
  split <;> rfl

theorem MarkedAt.markAt
    (marks : schedule.MarkedAt step actor) (mark : Race × Nat) (positive : 0 < mark.1.first) :
    (schedule.markAt mark).MarkedAt step actor := by
  obtain ⟨frame, entry, found, there, set⟩ := marks
  refine ⟨_, if mark.1.first = step ∧ mark.2 = actor then entry.mark else entry,
    frame_markAt found mark positive, ?_, ?_⟩
  · by_cases here : mark.1.first = step
    · rw [if_pos here, Frame.get?_modify, there, Option.map_some]
      simp only [here, true_and]
    · rw [if_neg here, if_neg (fun both => here both.1)]
      exact there
  · split
    · rfl
    · exact set

theorem markedAt_markAt
    (enabled : schedule.EnabledAt race.first actor) :
    (schedule.markAt (race, actor)).MarkedAt race.first actor := by
  obtain ⟨frame, entry, found, there, -⟩ := enabled
  refine ⟨_, entry.mark, frame_markAt found (race, actor) (frame_eq_ok_iff.mp found).1, ?_, rfl⟩
  rw [if_pos rfl, Frame.get?_modify, there, Option.map_some, if_pos rfl]

theorem Candidate.enabled (candidate : schedule.Candidate race actor) :
    schedule.EnabledAt race.first actor := by
  rcases candidate with ⟨enabled, -⟩ | ⟨awaits, -, -⟩
  · exact enabled
  · exact awaits.enabled

end Schedule

namespace Analysis

open Attempt

variable {schedule : Schedule} {step : Nat} {race : Race} {second : Frame.Entry}
  {before after : Analysis × Log} {found : List Nat}

theorem any_marked_iff
    {frame : Frame} (there : schedule.frame step = .ok frame) :
    (found.any fun index => (frame.get? index).any Frame.Entry.backtrack) = true ↔
      ∃ actor ∈ found, schedule.MarkedAt step actor := by
  rw [List.any_eq_true]
  refine exists_congr fun actor => and_congr_right fun _ => ?_
  constructor
  · intro marked
    cases known : frame.get? actor with
    | none =>
        rw [known] at marked
        cases marked
    | some entry =>
        rw [known] at marked
        exact ⟨frame, entry, there, known, marked⟩
  · rintro ⟨_, entry, again, known, set⟩
    cases there.symm.trans again
    rw [known]
    exact set

/-- An answer to a race is a mark for one of the candidates, if none of them has one. -/
theorem addBacktrack_cases
    (returned : (addBacktrack race second).Returns before () after)
    (picked : candidates before.1.causality before.1.schedule race second = .ok found) :
    (after.1.schedule = before.1.schedule ∧
        ∃ actor ∈ found, before.1.schedule.MarkedAt race.first actor) ∨
      ∃ actor ∈ found, ¬ before.1.schedule.MarkedAt race.first actor ∧
        after.1.schedule = before.1.schedule.markAt (race, actor) := by
  simp only [addBacktrack, returns_bind_iff, returns_get_iff, returns_lift_iff] at returned
  obtain ⟨_, _, ⟨rfl, rfl⟩, again, _, ⟨candidates, rfl⟩, marked⟩ := returned
  cases picked.symm.trans candidates
  split at marked
  · simp only [returns_bind_iff, returns_throw_iff, false_and, exists_false] at marked
  · simp only [returns_bind_iff, returns_lift_iff] at marked
    obtain ⟨frame, _, ⟨there, rfl⟩, marked⟩ := marked
    split at marked
    · rename_i already
      simp only [returns_pure_iff, true_and] at marked
      subst marked
      exact .inl ⟨rfl, (any_marked_iff there).mp already⟩
    · rename_i nobody
      split at marked
      · rename_i index chosen
        simp only [returns_bind_iff, returns_log_iff, returns_modify_iff] at marked
        obtain ⟨_, _, rfl, rfl⟩ := marked
        have member := mem_of_preferred chosen
        refine .inr ⟨index, member, ?_, rfl⟩
        intro marks
        exact nobody ((any_marked_iff there).mpr ⟨index, member, marks⟩)
      · simp only [returns_throw_iff] at marked

theorem addBacktrack_of_marked
    (picked : candidates before.1.causality before.1.schedule race second = .ok found)
    (already : ∃ actor ∈ found, before.1.schedule.MarkedAt race.first actor) :
    (addBacktrack race second).Returns before () before := by
  obtain ⟨actor, member, frame, entry, there, known, set⟩ := already
  have some : found.isEmpty = false := by
    rw [List.isEmpty_eq_false_iff]
    exact List.ne_nil_of_mem member
  simp only [addBacktrack, returns_bind_iff, returns_get_iff, returns_lift_iff]
  refine ⟨_, _, ⟨rfl, rfl⟩, found, _, ⟨picked, rfl⟩, ?_⟩
  rw [if_neg (by rw [some]; exact Bool.false_ne_true)]
  simp only [returns_bind_iff, returns_lift_iff]
  refine ⟨frame, _, ⟨there, rfl⟩, ?_⟩
  rw [if_pos ((any_marked_iff there).mpr ⟨actor, member, frame, entry, there, known, set⟩)]
  exact returns_pure_iff.mpr ⟨rfl, rfl⟩

/-- An analysis that answers races has come to a step of the original schedule. -/
structure Answering (original : Schedule) (step : Nat) (between : Analysis × Log)
    (marks : List (Race × Nat)) : Prop where
  walked : Walked original step between
  set : between.1.schedule = marks.foldl Schedule.markAt original
  fresh : ∀ mark ∈ marks, (original.Reversible mark.1 ∧ mark.1.second < step) ∧
    original.EnabledAt mark.1.first mark.2 ∧ ¬ original.MarkedAt mark.1.first mark.2
  nodup : (marks.map Prod.fst).Nodup
  answered : ∀ race, original.Reversible race → race.second < step →
    original.Answered between.1.schedule race

end Analysis

namespace Schedule

variable {schedule marked : Schedule} {race : Race} {marks : List (Race × Nat)}

theorem MarkedAt.foldl
    {step actor : Nat} (already : schedule.MarkedAt step actor)
    (positive : ∀ mark ∈ marks, 0 < mark.1.first) :
    (marks.foldl Schedule.markAt schedule).MarkedAt step actor := by
  induction marks generalizing schedule with
  | nil => exact already
  | cons mark rest induction =>
      exact induction (already.markAt mark (positive mark List.mem_cons_self))
        fun other member => positive other (List.mem_cons_of_mem _ member)

theorem Answered.markAt
    (answered : schedule.Answered marked race) (mark : Race × Nat) (positive : 0 < mark.1.first) :
    schedule.Answered (marked.markAt mark) race := by
  obtain ⟨actor, already, candidate⟩ := answered
  exact ⟨actor, already.markAt mark positive, candidate⟩

end Schedule

namespace Analysis

open Attempt

variable {original : Schedule} {step : Nat} {before after : Analysis × Log}
  {marks : List (Race × Nat)}

theorem Answering.skip
    (answering : Answering original step before marks) (walked : Walked original (step + 1) after)
    (unchanged : after.1.schedule = before.1.schedule)
    (last : ∀ first, original.Reversible ⟨first, step⟩ →
      original.Answered before.1.schedule ⟨first, step⟩) :
    Answering original (step + 1) after marks where
  walked := walked
  set := unchanged.trans answering.set
  fresh := by
    intro mark member
    obtain ⟨⟨reversible, below⟩, rest⟩ := answering.fresh mark member
    exact ⟨⟨reversible, Nat.lt_succ_of_lt below⟩, rest⟩
  nodup := answering.nodup
  answered := by
    intro race reversible below
    rw [unchanged]
    rcases Nat.lt_succ_iff_lt_or_eq.mp below with below | rfl
    · exact answering.answered race reversible below
    · exact last race.first reversible

theorem Answering.mark
    {first actor : Nat} (answering : Answering original step before marks)
    (walked : Walked original (step + 1) after)
    (reversible : original.Reversible ⟨first, step⟩)
    (candidate : original.Candidate ⟨first, step⟩ actor)
    (unmarked : ¬ before.1.schedule.MarkedAt first actor)
    (marks_eq : after.1.schedule = before.1.schedule.markAt (⟨first, step⟩, actor)) :
    Answering original (step + 1) after (marks ++ [(⟨first, step⟩, actor)]) where
  walked := walked
  set := by
    rw [List.foldl_append, ← answering.set, marks_eq]
    rfl
  fresh := by
    intro mark member
    rcases List.mem_append.mp member with old | new
    · obtain ⟨⟨also, below⟩, rest⟩ := answering.fresh mark old
      exact ⟨⟨also, Nat.lt_succ_of_lt below⟩, rest⟩
    · rw [List.mem_singleton.mp new]
      refine ⟨⟨reversible, Nat.lt_succ_self step⟩, candidate.enabled, ?_⟩
      -- Marks are never taken away, so that what is unmarked now has been unmarked all along.
      intro already
      apply unmarked
      rw [answering.set]
      exact already.foldl fun mark member => (answering.fresh mark member).1.1.positive
  nodup := by
    rw [List.map_append, List.nodup_append]
    refine ⟨answering.nodup, List.nodup_singleton _, ?_⟩
    intro race old other new same
    obtain ⟨mark, member, rfl⟩ := List.mem_map.mp old
    rw [List.map_singleton, List.mem_singleton] at new
    have below := (answering.fresh mark member).1.2
    rw [same, new] at below
    exact Nat.lt_irrefl step below
  answered := by
    intro race also below
    rw [marks_eq]
    rcases Nat.lt_succ_iff_lt_or_eq.mp below with below | same
    · exact (answering.answered race also below).markAt _ reversible.positive
    · rw [reversible.unique also same]
      refine ⟨actor, Schedule.markedAt_markAt ?_, candidate⟩
      exact candidate.enabled.of_unmark_eq answering.walked.recorded

theorem Answering.visited
    (wellFormed : original.WellFormed) (answering : Answering original step before marks)
    (positive : 0 < step) (within : step ≤ original.position)
    (returned : (visit false step).Returns before () after) :
    ∃ marks, Answering original (step + 1) after marks := by
  have recorded := answering.walked.recorded
  have walked := answering.walked.visited wellFormed positive within returned
  rcases visit_reversible wellFormed recorded positive within answering.walked.traces returned with
    ⟨none, unchanged, -⟩ |
    ⟨first, entry, touched, log, between, reversible, selected, reached, -, answers, same, -⟩
  · exact ⟨marks, answering.skip walked unchanged fun first reversible =>
      absurd reversible (none first)⟩
  · obtain ⟨found, picked, mem_iff⟩ := candidates_eq_ok wellFormed recorded reversible.positive
      within reached selected
    rcases addBacktrack_cases answers picked with ⟨unchanged, actor, member, already⟩ |
      ⟨actor, member, unmarked, changed⟩
    · refine ⟨marks, answering.skip walked (same.trans unchanged) ?_⟩
      intro other also
      cases reversible.unique also rfl
      exact ⟨actor, already, (mem_iff actor).mp member⟩
    · exact ⟨_, answering.mark walked reversible ((mem_iff actor).mp member) unmarked
        (same.trans changed)⟩

theorem answering_run
    (wellFormed : before.1.schedule.WellFormed)
    (returned : (run false).Returns before () after) :
    ∃ marks, Answering before.1.schedule (before.1.schedule.position + 1) after marks := by
  apply returns_run (motive := fun step between =>
    ∃ marks, Answering before.1.schedule step between marks) returned
  · intro actors counted
    refine ⟨[], walked_start rfl counted, rfl, nofun, List.nodup_nil, ?_⟩
    intro race reversible below
    have ordered := reversible.ordered
    omega
  · rintro step between next positive within ⟨marks, answering⟩ visited
    exact answering.visited wellFormed positive within visited

/-- Where every race has been answered, an analysis has nothing to add. -/
theorem unchanged_of_answered
    (wellFormed : original.WellFormed) (numbered : original.Numbered)
    (storable : original.Storable) (recorded : before.1.schedule.unmark = original.unmark)
    (answered : ∀ race, original.Reversible race → original.Answered before.1.schedule race) :
    ∃ after, (run false).Returns before () after ∧ after.1.schedule = before.1.schedule := by
  obtain ⟨after, returned, -, unchanged⟩ : ∃ after, (run false).Returns before () after ∧
      Walked original (original.position + 1) after ∧
      after.1.schedule = before.1.schedule := by
    apply exists_run (motive := fun step between => Walked original step between ∧
      between.1.schedule = before.1.schedule) wellFormed recorded
    · intro between same _ walked
      exact ⟨walked, same⟩
    · rintro step between positive within ⟨walked, same⟩
      have answer : ∀ first entry touched log, original.Reversible ⟨first, step⟩ →
          original.selected? step = some entry.snapshot → touched.Touched original step first →
          Answers false ⟨first, step⟩ entry true (between.1.setCausality touched, log)
            (between.1.setCausality touched, log) := by
        intro first entry touched log reversible selected reached
        obtain ⟨found, picked, mem_iff⟩ := candidates_eq_ok wellFormed walked.recorded
          reversible.positive within reached selected
        obtain ⟨actor, already, candidate⟩ := answered _ reversible
        rw [← same] at already
        exact addBacktrack_of_marked picked ⟨actor, (mem_iff actor).mpr candidate, already⟩
      obtain ⟨next, visited⟩ := walked.exists_visit wellFormed numbered storable positive within
        fun first entry touched log reversible selected reached =>
          ⟨_, answer first entry touched log reversible selected reached⟩
      refine ⟨next, visited, walked.visited wellFormed positive within visited, ?_⟩
      rcases visit_reversible wellFormed walked.recorded positive within walked.traces visited with
        ⟨-, unchanged, -⟩ |
        ⟨first, entry, touched, log, last, reversible, selected, reached, -, answers, after, -⟩
      · exact unchanged.trans same
      · obtain ⟨-, rfl⟩ :=
          (answer first entry touched log reversible selected reached).unique answers
        exact after.trans same
  exact ⟨after, returned, unchanged⟩

/-- An analysis that comes to its end marks, for every race that could be recorded instead, somebody
who could run in place of the first step: the actor of the second step, or one whose first step in
between does not come after the first of the race. It marks one enabled actor at most for each race,
changes nothing else, and has nothing to add when it is repeated. -/
theorem races_covered
    (wellFormed : before.1.schedule.WellFormed) (numbered : before.1.schedule.Numbered)
    (returned : (run false).Returns before () after) :
    ∃ recorded, (run true).Returns before () recorded ∧
      (∀ race ∈ recorded.1.causality.races, ∃ actor, after.1.schedule.MarkedAt race.first actor ∧
        after.1.schedule.EnabledAt race.first actor ∧
        ¬ before.1.schedule.ActsAt ⟨actor⟩ race.first ∧
        (before.1.schedule.ActsAt ⟨actor⟩ race.second ∨
          ∃ step, before.1.schedule.FirstBetween race actor step ∧
            ¬ before.1.schedule.Reaches race.first step)) ∧
      (∃ marks : List (Race × Nat), (marks.map Prod.fst).Nodup ∧
        (∀ mark ∈ marks, mark.1 ∈ recorded.1.causality.races ∧
          before.1.schedule.EnabledAt mark.1.first mark.2 ∧
          ¬ before.1.schedule.MarkedAt mark.1.first mark.2) ∧
        after.1.schedule = marks.foldl Schedule.markAt before.1.schedule) ∧
      ∀ causality log, ∃ last,
        (run false).Returns (⟨after.1.schedule, causality⟩, log) () last ∧
        last.1.schedule = after.1.schedule := by
  have storable := storable_of_run wellFormed returned
  obtain ⟨recorded, records, -, reported⟩ := exists_recording wellFormed numbered storable
  obtain ⟨marks, answering⟩ := answering_run wellFormed returned
  have answered : ∀ race, before.1.schedule.Reversible race →
      before.1.schedule.Answered after.1.schedule race :=
    fun race reversible =>
      answering.answered race reversible (Nat.lt_succ_of_le reversible.le_position)
  have same := unmark_of_run returned
  refine ⟨recorded, records, ?_, ⟨marks, answering.nodup, ?_, answering.set⟩, ?_⟩
  · intro race member
    have reversible := (reported.mem_iff race).mp member
    obtain ⟨actor, marked, candidate⟩ := answered race reversible
    refine ⟨actor, marked, candidate.enabled.of_unmark_eq same, ?_⟩
    rcases candidate with ⟨-, acts⟩ | ⟨awaits, first, free⟩
    · exact ⟨reversible.not_acts acts, .inl acts⟩
    · exact ⟨awaits.notFirst, .inr ⟨_, first, fun reaches => free (.inl reaches)⟩⟩
  · intro mark member
    obtain ⟨⟨reversible, -⟩, enabled, unmarked⟩ := answering.fresh mark member
    exact ⟨(reported.mem_iff mark.1).mpr reversible, enabled, unmarked⟩
  · intro causality log
    exact unchanged_of_answered wellFormed numbered storable same answered

theorem races_covered_handOver :
    Schedule.handOver.WellFormed ∧ Schedule.handOver.Numbered ∧
      ∃ after recorded, (run false).Returns (⟨.handOver, .empty⟩, .empty .error) () after ∧
        (run true).Returns (⟨.handOver, .empty⟩, .empty .error) () recorded ∧
        recorded.1.causality.races = #[⟨3, 4⟩] ∧
        ∃ actor, after.1.schedule.MarkedAt 3 actor := by
  have returned := returns_of_isOk
    (show ((run false).outcome (⟨.handOver, .empty⟩, .empty .error)).1.1.isOk = true by
      decide +kernel)
  obtain ⟨recorded, records, covers, -, -⟩ :=
    races_covered Schedule.wellFormed_handOver Schedule.numbered_handOver returned
  have known := returns_of_isOk
    (show ((run true).outcome (⟨.handOver, .empty⟩, .empty .error)).1.1.isOk = true by
      decide +kernel)
  have races : ((run true).outcome (⟨.handOver, .empty⟩, .empty .error)).1.2.causality.races =
      #[⟨3, 4⟩] := by
    decide +kernel
  rw [← (known.unique records).2] at covers
  obtain ⟨actor, marked, -⟩ := covers ⟨3, 4⟩ (by rw [races]; exact Array.mem_singleton.mpr rfl)
  exact ⟨Schedule.wellFormed_handOver, Schedule.numbered_handOver, _, _, returned, known, races,
    actor, marked⟩

end Analysis

end Interleave
