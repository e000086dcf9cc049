import Interleave.Proofs.Race.Awakenings
import Interleave.Proofs.Search.Bounded

namespace Interleave

/-- What an analysis of the running execution and the reversal of one of its races rely on. -/
structure Schedule.Ready (schedule : Schedule) : Prop where
  wellFormed : schedule.WellFormed
  numbered : schedule.Numbered
  storable : schedule.Storable
  peopled : schedule.Peopled
  attentive : schedule.Attentive

theorem Schedule.Ready.exists_candidate
    {schedule : Schedule} {race : Race} (ready : schedule.Ready)
    (reversible : schedule.Reversible race) : ∃ actor, schedule.Candidate race actor :=
  reversible.exists_candidate ready.wellFormed ready.peopled ready.numbered ready.attentive

namespace Policy.Search

open Attempt

variable {policy : Search} {log : Log} {fault : Fault} {turns : List Turn}
  {below stack : List Frame}

section Ready

variable (ready : policy.schedule.Ready)

include ready

theorem not_fails_analyze (recording : Bool) (log : Log) (fault : Fault) :
    ¬ (analyze recording).Fails (policy, log) fault := by
  intro failed
  have fails := analyze_fails failed
  cases recording with
  | false =>
      obtain ⟨after, returned⟩ : ∃ after,
          (Analysis.run false).Returns (⟨policy.schedule, .empty⟩, log) () after :=
        Analysis.exists_answers ready.wellFormed ready.numbered ready.storable rfl
          fun race reversible => ready.exists_candidate reversible
      exact returned.not_fails fails
  | true =>
      obtain ⟨after, returned, -⟩ : ∃ after,
          (Analysis.run true).Returns (⟨policy.schedule, .empty⟩, log) () after ∧ _ :=
        Analysis.exists_recording ready.wellFormed ready.numbered ready.storable
      exact returned.not_fails fails

theorem not_fails_reverseRace (log : Log) (fault : Fault) :
    ¬ reverseRace.Fails (policy, log) fault := by
  intro failed
  rcases fails_bind_iff.mp failed with analyzes | ⟨causality, between, analyzes, later⟩
  · exact not_fails_analyze ready true log fault analyzes
  · obtain ⟨analyzed, ran, rest, rfl⟩ := analyze_returns analyzes
    simp only [fails_bind_iff, fails_get_iff, returns_get_iff, false_or] at later
    obtain ⟨_, _, ⟨rfl, rfl⟩, later⟩ := later
    cases chosen : Race.choose analyzed.causality.races between.1.source with
    | mk race source =>
        simp only [chosen, fails_set_iff, returns_set_iff, false_or] at later
        obtain ⟨_, _, rfl, later⟩ := later
        cases race with
        | none => exact fails_modify_iff.mp later
        | some race =>
            obtain ⟨frame, listed, ids, -, suffix, -⟩ := Analysis.suffix_reruns ready.wellFormed
              ready.numbered ready.peopled ran (Race.mem_of_choose chosen)
            rw [rest] at later
            simp [fails_bind_iff, suffix] at later

end Ready

theorem Ends.exists_advance
    (ends : Ends turns below stack) (stacked : policy.schedule = .ofStack stack stack.length)
    (ready : policy.schedule.Ready) (log : Log) :
    ∃ more after, advance.Returns (policy, log) more after := by
  rcases returns_or_fails advance (policy, log) with returned | ⟨fault, failed⟩
  · exact returned
  · exfalso
    cases random : policy.randomized with
    | false =>
        obtain ⟨-, analyzes⟩ := ends.fails_of_advance random stacked failed
        exact not_fails_analyze ready false log fault analyzes
    | true =>
        simp only [advance, fails_bind_iff, fails_get_iff, returns_get_iff, false_or] at failed
        obtain ⟨_, _, ⟨rfl, rfl⟩, failed⟩ := failed
        rw [if_pos random] at failed
        simp only [fails_bind_iff, fails_set_iff, returns_set_iff, false_or] at failed
        obtain ⟨_, _, rfl, failed⟩ := failed
        split at failed
        · simp only [fails_bind_iff, fails_pure_iff, and_false, exists_false, or_false] at failed
          have cleared : ({ policy with suffix := [] } : Search).schedule.Ready := ready
          exact not_fails_reverseRace cleared log fault failed
        · simp only [modifySchedule, fails_bind_iff, fails_modify_iff, fails_pure_iff, and_false,
            exists_false, or_false] at failed

end Policy.Search

end Interleave
