import Mathlib.Data.Set.Finite.Lattice
import Interleave.Proofs.Search.Exploring

namespace Interleave

namespace Policy.Search

open Attempt

variable {policy : Search} {log : Log} {below stack : List Frame} {turns : List Turn}
  {fault : Fault}

/-- In a search that is not a random walk, only the analysis can fail between two executions. -/
theorem Ends.fails_of_advance
    (ends : Ends turns below stack) (orderly : policy.randomized = false)
    (stacked : policy.schedule = .ofStack stack stack.length)
    (failed : advance.Fails (policy, log) fault) :
    policy.reduction = true ∧ (analyze false).Fails (policy, log) fault := by
  have marks : policy.schedule.MarksEnabled := by
    rw [stacked, Schedule.marksEnabled_ofStack_iff]
    exact ends.marksEnabled
  simp only [advance, fails_bind_iff, fails_get_iff, returns_get_iff, false_or] at failed
  obtain ⟨_, _, ⟨rfl, rfl⟩, failed⟩ := failed
  simp only [orderly, Bool.false_eq_true, if_false] at failed
  split at failed
  · rename_i reduces
    rcases fails_bind_iff.mp failed with here | ⟨causality, between, analyzes, later⟩
    · exact ⟨reduces, here⟩
    · obtain ⟨analyzed, ran, rest, -⟩ := analyze_returns analyzes
      have same := Analysis.unmark_of_run ran
      simp only [stacked] at same
      obtain ⟨others, lower, shape, -, again, -⟩ :=
        ends.of_schedule same (Analysis.marksEnabled_of_run marks ran)
      have advances := again.advance_eq
      rw [← shape] at advances
      rw [onSchedule, fails_tryChange_iff, rest, schedule_withSchedule, advances] at later
      cases later
  · rw [onSchedule, fails_tryChange_iff, stacked, ends.advance_eq] at failed
    cases failed

end Policy.Search

namespace TransitionSystem

open Attempt Policy.Search

variable {system : TransitionSystem} {settings : Settings} {limit : Nat}
  {policy between next : Policy.Search} {log written first : Log}
  {finished : List (List ActorId × Decision)} {rounds : List Round} {turns : List Turn}
  {state : system.State} {run : List ActorId} {actor : ActorId} {decision : Decision}
  {current : Nat → List ActorId → ActorId} {point : Point Policy.Search system}

/-- At a position that both runs have they differ. -/
def Differ (first second : List ActorId) : Prop :=
  ∃ (index : Nat) (actor other : ActorId), first[index]? = some actor ∧
    second[index]? = some other ∧ actor ≠ other

theorem finite_runs (system : TransitionSystem) (limit : Nat) (state : system.State) :
    {run | system.Runs state run ∧ run.length ≤ limit}.Finite := by
  induction limit generalizing state with
  | zero =>
      refine (Set.finite_singleton []).subset ?_
      rintro run ⟨-, short⟩
      exact List.eq_nil_of_length_eq_zero (Nat.le_zero.mp short)
  | succ limit induction =>
      have onward : (⋃ index ∈ {index | index < (system.actors state).length},
          List.cons ⟨index⟩ '' {run | system.Runs (system.step state ⟨index⟩) run ∧
            run.length ≤ limit}).Finite :=
        (Set.finite_lt_nat _).biUnion fun index _ => (induction _).image _
      refine ((Set.finite_singleton []).union onward).subset ?_
      rintro (_ | ⟨actor, rest⟩) ⟨runs, short⟩
      · exact .inl rfl
      · obtain ⟨operation, does⟩ := Option.isSome_iff_exists.mp runs.1
        obtain ⟨snapshot, there, -⟩ := exists_of_operation? does
        refine .inr (Set.mem_biUnion (List.getElem?_eq_some_iff.mp there).1 ?_)
        exact ⟨rest, ⟨runs.2, Nat.le_of_succ_le_succ short⟩, rfl⟩

namespace Past

variable (past : system.Past settings rounds policy turns between)

include past

theorem length_le (stepLimit : settings.stepLimit = some limit) : turns.length ≤ limit := by
  obtain ⟨kept, stack, stays, along⟩ := past.exists_along
  exact along.bounded limit (stays.kin.stepLimit.trans stepLimit)

theorem differ
    (tells : Tells settings finished rounds) (finishes : Over policy turns between next)
    (orderly : settings.randomized = false) : ∀ one ∈ finished, Differ one.1 (ran turns) := by
  obtain ⟨kept, stack, whole, stays, along, -, -, ends⟩ := past.ends finishes
  intro one member
  have listed : one.1 ∈ rounds.map fun round => ran round.turns := by
    rw [← tells.finished]
    exact List.mem_map_of_mem member
  obtain ⟨round, among, same⟩ := List.mem_map.mp listed
  obtain ⟨earlier, later, shape⟩ := List.append_of_mem among
  have since : ∀ other ∈ round :: later, 1 ≤ other.kept := by
    intro other there
    exact tells.kept orderly other (by rw [shape]; exact List.mem_append_right _ there)
  obtain ⟨depth, positive, departs⟩ :=
    stays.departs orderly earlier round later shape 1 Nat.one_pos since
  obtain ⟨actor, other, took, takes, distinct⟩ :=
    (along.departs _ _ departs).differs ends.recorded
  rw [← same]
  exact ⟨_, actor, other, took, takes, distinct⟩

end Past

section Reached

variable (numbered : system.Numbered) (orderly : settings.randomized = false)
  (reaches : system.Reaches current (.start (ofSettings settings) log) point)

include numbered orderly reaches

theorem pairwise_differ : point.finished.Pairwise fun one other => Differ one.1 other.1 := by
  induction reaches with
  | refl => exact .nil
  | tail earlier drives induction =>
      cases drives with
      | run => exact induction
      | restart => exact induction
      | finish chosen idle =>
          cases recounts_of_reaches numbered earlier with
          | running past tells =>
              refine List.pairwise_append.mpr ⟨induction, List.pairwise_singleton _ _, ?_⟩
              intro one member last also
              rw [List.mem_singleton.mp also]
              exact past.differ tells (.idle (numbered _) chosen idle) orderly one member

omit orderly in
theorem finished_runs (stepLimit : settings.stepLimit = some limit) :
    ∀ one ∈ point.finished, system.Runs system.initial one.1 ∧ one.1.length ≤ limit := by
  induction reaches with
  | refl => exact fun _ => nofun
  | tail earlier drives induction =>
      cases drives with
      | run => exact induction
      | restart => exact induction
      | finish chosen idle =>
          cases recounts_of_reaches numbered earlier with
          | running past _ =>
              intro one member
              rcases List.mem_append.mp member with before | last
              · exact induction one before
              · obtain ⟨runs, length⟩ := past.runs
                rw [List.mem_singleton.mp last]
                exact ⟨runs, by rw [length]; exact past.length_le stepLimit⟩

theorem length_finished_le (stepLimit : settings.stepLimit = some limit) :
    point.finished.length ≤ (finite_runs system limit system.initial).toFinset.card := by
  have distinct : (point.finished.map Prod.fst).Nodup := by
    refine List.pairwise_map.mpr ((pairwise_differ numbered orderly reaches).imp ?_)
    rintro one other ⟨index, actor, last, took, takes, differs⟩ same
    rw [same, takes] at took
    exact differs (Option.some.inj took).symm
  rw [← List.length_map Prod.fst, ← List.toFinset_card_of_nodup distinct]
  refine Finset.card_le_card fun run member => ?_
  obtain ⟨one, among, rfl⟩ := List.mem_map.mp (List.mem_toFinset.mp member)
  exact (Set.Finite.mem_toFinset _).mpr (finished_runs numbered reaches stepLimit one among)

end Reached

def Point.AnalysisFails (point : Point Policy.Search system) : Prop :=
  point.phase = .ended ∧ point.policy.reduction = true ∧
    ∃ fault, (analyze false).Fails (point.policy, point.log) fault

section Progress

variable (numbered : system.Numbered) (stepLimit : settings.stepLimit = some limit)
  (room : settings.reduction = true → ∀ number run, system.Runs system.initial run →
    (current number run).index + (system.actors (system.after system.initial run)).length ≤
      wordSize)

include numbered stepLimit room

theorem exists_drives
    (reaches : system.Reaches current (.start (ofSettings settings) first)
      ⟨policy, log, finished, .running state run⟩) :
    ∃ next : Point Policy.Search system,
      system.Drives current ⟨policy, log, finished, .running state run⟩ next ∧
      ((∃ state actor, next.phase = .running state (run ++ [actor]) ∧ next.finished = finished ∧
          run.length < limit) ∨
        (next.phase = .ended ∧ next.finished.length = finished.length + 1)) := by
  cases recounts_of_reaches numbered reaches with
  | running past _ =>
      obtain ⟨decision, ⟨next, written⟩, chosen⟩ :=
        past.exists_choice (fun _ reduces => room reduces _ _ past.runs.1) log
      by_cases idle : decision.actor? = none
      · exact ⟨_, .finish chosen idle, .inr ⟨rfl, List.length_append⟩⟩
      · obtain ⟨actor, rfl⟩ : ∃ actor, decision = .run actor := by
          cases decision with
          | run actor => exact ⟨actor, rfl⟩
          | _ => exact absurd rfl idle
        have short := (past.snoc numbered chosen).length_le stepLimit
        rw [List.length_append, List.length_singleton, ← past.runs.2] at short
        exact ⟨_, .run chosen, .inl ⟨_, actor, rfl, rfl, short⟩⟩

theorem exists_ended
    (reaches : system.Reaches current (.start (ofSettings settings) first) point)
    (going : point.phase = .running state run) :
    ∃ next : Point Policy.Search system, system.Reaches current point next ∧
      next.phase = .ended ∧ next.finished.length = point.finished.length + 1 := by
  -- The induction is on what the step limit leaves.
  induction left : limit - run.length using Nat.strong_induction_on
    generalizing point state run with
  | _ left induction =>
      obtain ⟨policy, log, finished, phase⟩ := point
      cases going
      obtain ⟨next, drives, ⟨state, actor, goes, same, below⟩ | ⟨ended, more⟩⟩ :=
        exists_drives numbered stepLimit room reaches
      · have length : (run ++ [actor]).length = run.length + 1 := List.length_append
        obtain ⟨last, onward, ended, more⟩ :=
          induction _ (by omega) (.tail reaches drives) goes rfl
        exact ⟨last, .head drives onward, ended, by rw [more, same]⟩
      · exact ⟨next, .single drives, ended, more⟩

variable (orderly : settings.randomized = false)

include orderly

/-- Nothing is left to explore, the analysis fails, or there is another execution. -/
theorem ended_cases
    (reaches : system.Reaches current (.start (ofSettings settings) first) point)
    (ended : point.phase = .ended) :
    point.Exhausted ∨ point.AnalysisFails ∨
      ∃ next : Point Policy.Search system, system.Reaches current point next ∧
        next.phase = .ended ∧ next.finished.length = point.finished.length + 1 := by
  cases recounts_of_reaches numbered reaches with
  | running => cases ended
  | @ended _ _ next written _ _ _ _ past _ finishes =>
      obtain ⟨kept, stack, whole, stays, along, kin, stacked, ends⟩ := past.ends finishes
      have mode := (stays.kin.trans kin).randomized.trans orderly
      rcases returns_or_fails advance (next, written) with ⟨more, after, returned⟩ | ⟨fault, failed⟩
      · cases more with
        | false => exact .inl ⟨rfl, after, returned⟩
        | true =>
            obtain ⟨last, onward, ended, more⟩ := exists_ended numbered stepLimit room
              (.tail reaches (.restart returned)) rfl
            exact .inr (.inr ⟨last, .head (.restart returned) onward, ended, more⟩)
      · obtain ⟨reduces, fails⟩ := ends.fails_of_advance mode stacked failed
        exact .inr (.inl ⟨rfl, reduces, fault, fails⟩)

theorem exists_last
    (reaches : system.Reaches current (.start (ofSettings settings) first) point)
    (ended : point.phase = .ended) :
    ∃ last : Point Policy.Search system, system.Reaches current point last ∧
      (last.Exhausted ∨ last.AnalysisFails) := by
  have bounded {other : Point Policy.Search system}
      (onward : system.Reaches current (.start (ofSettings settings) first) other) :=
    length_finished_le numbered orderly onward stepLimit
  generalize (finite_runs system limit system.initial).toFinset.card = bound at bounded
  induction left : bound - point.finished.length using Nat.strong_induction_on
    generalizing point with
  | _ left induction =>
      rcases ended_cases numbered stepLimit room orderly reaches ended with
        exhausted | fails | ⟨next, onward, again, more⟩
      · exact ⟨point, .refl, .inl exhausted⟩
      · exact ⟨point, .refl, .inr fails⟩
      · have within := bounded (reaches.trans onward)
        obtain ⟨last, further, either⟩ := induction _ (by omega) (reaches.trans onward) again rfl
        exact ⟨last, onward.trans further, either⟩

end Progress

/-- With a step limit, a search that is not a random walk comes to its end from wherever it has come
to: nothing is left to explore, or the latest execution cannot be analyzed. No two executions are
the same, nor is one the beginning of another. There is always room if the current actor is one of
those that are shown, and these are fewer than half the numbers of a word. -/
theorem terminates_of_stepLimit
    (numbered : system.Numbered) (settings : Settings) (limit : Nat)
    (stepLimit : settings.stepLimit = some limit) (orderly : settings.randomized = false)
    (log : Log) (current : Nat → List ActorId → ActorId)
    (room : settings.reduction = true → ∀ number run, system.Runs system.initial run →
      (current number run).index + (system.actors (system.after system.initial run)).length ≤
        wordSize)
    (point : Point Policy.Search system)
    (reaches : system.Reaches current (.start (ofSettings settings) log) point) :
    (∃ last : Point Policy.Search system, system.Reaches current point last ∧
      (last.Exhausted ∨ last.AnalysisFails)) ∧
    point.finished.Pairwise fun one other => Differ one.1 other.1 := by
  refine ⟨?_, pairwise_differ numbered orderly reaches⟩
  cases phase : point.phase with
  | ended => exact exists_last numbered stepLimit room orderly reaches phase
  | running state run =>
      obtain ⟨next, onward, ended, -⟩ :=
        exists_ended numbered stepLimit room reaches phase
      obtain ⟨last, further, either⟩ :=
        exists_last numbered stepLimit room orderly (reaches.trans onward) ended
      exact ⟨last, onward.trans further, either⟩

theorem terminates_of_stepLimit_posts :
    posts.Numbered ∧ ∃ point : Point Policy.Search posts,
      posts.Reaches (fun _ _ => ⟨0⟩) (.start (ofSettings { stepLimit := some 2 }) (.empty .error))
        point ∧
      point.finished = [([⟨0⟩, ⟨1⟩], .hitStepLimit), ([⟨1⟩, ⟨0⟩], .hitStepLimit)] ∧
      (∃ last : Point Policy.Search posts, posts.Reaches (fun _ _ => ⟨0⟩) point last ∧
        (last.Exhausted ∨ last.AnalysisFails)) ∧
      point.finished.Pairwise fun one other => Differ one.1 other.1 :=
  ⟨lawful_posts.numbered, _, reaches_forward 7 _, by decide +kernel,
    terminates_of_stepLimit lawful_posts.numbered { stepLimit := some 2 } 2 rfl rfl (.empty .error)
      (fun _ _ => ⟨0⟩) (fun _ _ _ _ => show 0 + 3 ≤ wordSize by decide +kernel) _
      (reaches_forward 7 _)⟩

end TransitionSystem

end Interleave
