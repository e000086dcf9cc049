import Interleave.Proofs.Machine.Owners
import Interleave.Proofs.Run.Summaries

namespace Interleave

variable {σ μ : Type}

namespace Stage

variable {stage : Stage σ μ} {id : ActorId} {operation : Operation}

theorem valid_of_announces
    (announced : stage.Announces id operation) (placed : stage ≠ .running) :
    operation.kind ≠ .invalid := by
  cases stage with
  | running => exact absurd rfl placed
  | ending | ended =>
      rw [show operation = _ from announced]
      nofun
  | waiting pending body =>
      cases pending with
      | start | create | send | join =>
          rw [show operation = _ from announced]
          nofun
      | receive =>
          rw [announced.1]
          nofun
      | pass =>
          rcases announced with same | same
          · rw [same]
            nofun
          · rw [same]
            nofun

theorem eq_create_of_announces
    (announced : stage.Announces id operation) (placed : stage ≠ .running)
    (creates : operation.kind = .create) : operation = .create := by
  cases stage with
  | running => exact absurd rfl placed
  | ending | ended =>
      rw [show operation = _ from announced] at creates
      cases creates
  | waiting pending body =>
      cases pending with
      | create => exact announced
      | start | send | join =>
          rw [show operation = _ from announced] at creates
          cases creates
      | receive =>
          rw [announced.1] at creates
          cases creates
      | pass =>
          rcases announced with same | same
          · rw [same] at creates
            cases creates
          · rw [same] at creates
            cases creates

end Stage

namespace Run

open Machine

variable {π : Type} {program : Program σ μ} {handles : Handles σ μ} {run next first later : Run π σ μ}
  {number index step : Nat} {policy : π} {turn : Turn} {snapshot : Snapshot} {log : Log}

structure Few (run : Run π σ μ) : Prop where
  size : run.machine.actors.size ≤ run.turns.size + 1
  returning : ∀ id, run.machine.control = .returning id → run.machine.actors.size ≤ run.turns.size

theorem few_start (program : Program σ μ) (number : Nat) (policy : π) :
    (start program number policy).Few :=
  ⟨Nat.le_refl _, fun id returning => by cases returning⟩

variable [Scheduler π]

/-- Before a step of the run, the scheduler is asked at a scheduling point of the current actor. It lets
an actor go on, whose snapshot is one of those that it is shown. -/
structure Choice (program : Program σ μ) (first run : Run π σ μ) (index : Nat) (snapshot : Snapshot)
    (before after : Run π σ μ) (current : ActorId) (target : Actor σ μ) : Prop where
  reached : Reached program first before
  onward : Reached program before after
  rest : Reached program after run
  size : before.turns.size = index
  choosing : before.machine.control = .choosing current
  there : before.machine.actors.get? snapshot.id = some target
  shows : target.record.snapshot snapshot.id = snapshot
  enabled : target.record.enabled = true
  machine : after.machine =
    (before.machine.advance snapshot.id target.record).switch current snapshot.id
  turns : after.turns =
    before.turns.push ⟨current, before.machine.snapshots, .run snapshot.id⟩

theorem Steps.getElem?_turns
    (steps : Steps program run log next) (inside : index < run.turns.size) :
    next.turns[index]? = run.turns[index]? := by
  cases steps with
  | tick | fail => rfl
  | decide => rw [Array.getElem?_push, if_neg (Nat.ne_of_lt inside)]

theorem Steps.size_turns_le (steps : Steps program run log next) :
    run.turns.size ≤ next.turns.size := by
  cases steps with
  | tick | fail => exact Nat.le_refl _
  | decide =>
      rw [Array.size_push]
      exact Nat.le_succ _

theorem Steps.owned
    (steps : Steps program run log next) (owned : run.machine.Owned)
    (sound : run.machine.Sound handles) (discreet : program.Discreet handles)
    (legal : ∀ turn ∈ next.turns, turn.Legal) (still : next.machine.ended = false) :
    next.machine.Owned := by
  have going := (steps.onward sound.sane).going still
  obtain ⟨consistent, guarded⟩ := sound.going going
  cases steps with
  | tick undecided =>
      have moves := moves_next consistent going (guarded.honest discreet) undecided
      exact moves.owned owned sound.sane going still
  | @decide id decision policy written choosing chosen =>
      by_cases runs : ∃ target, decision = .run target
      · obtain ⟨target, rfl⟩ := runs
        obtain ⟨coherent, -⟩ := consistent.of_choosing choosing
        obtain ⟨actor, there, enabled, same⟩ :=
          decided_run coherent (legal _ Array.mem_push_self target rfl)
        exact same ▸ owned.run id target actor.record
      · rw [ended_decided fun target same => runs ⟨target, same⟩] at still
        cases still
  | @fail id fault policy choosing =>
      rcases crashed_or run.machine id fault with same | ended
      · exact owned.congr (by rw [same]; rfl) (by rw [same]; rfl)
      · cases still.symm.trans ended

theorem Steps.few
    (steps : Steps program run log next) (few : run.Few)
    (sound : run.machine.Sound handles) (discreet : program.Discreet handles)
    (legal : ∀ turn ∈ next.turns, turn.Legal) (still : next.machine.ended = false) : next.Few := by
  have going := (steps.onward sound.sane).going still
  obtain ⟨consistent, guarded⟩ := sound.going going
  cases steps with
  | tick undecided =>
      have moves := moves_next consistent going (guarded.honest discreet) undecided
      obtain ⟨id, -, -, concerns⟩ := moves.concerns going still
      refine ⟨?_, fun id returning =>
        absurd returning ((moves.counts going still).not_returning id)⟩
      cases concerns with
      | spares spares =>
          rw [spares.size]
          exact few.size
      | creates control there actors =>
          -- Only the actor that the latest turn has chosen creates another one.
          rw [actors, Roster.size_push]
          exact Nat.succ_le_succ (few.returning id control)
  | @decide id decision policy written choosing chosen =>
      by_cases runs : ∃ target, decision = .run target
      · obtain ⟨target, rfl⟩ := runs
        obtain ⟨coherent, -⟩ := consistent.of_choosing choosing
        obtain ⟨actor, there, enabled, same⟩ :=
          decided_run coherent (legal _ Array.mem_push_self target rfl)
        have size : (run.machine.decided id (.run target)).actors.size ≤ run.turns.size + 1 := by
          rw [same, (spares_run run.machine id target actor.record).size]
          exact few.size
        have turns : (run.turns.push ⟨id, run.machine.snapshots, .run target⟩).size =
            run.turns.size + 1 := Array.size_push ..
        exact ⟨Nat.le_succ_of_le (turns ▸ size), fun _ _ => turns ▸ size⟩
      · rw [ended_decided fun target same => runs ⟨target, same⟩] at still
        cases still
  | @fail id fault policy choosing =>
      rcases crashed_or run.machine id fault with same | ended
      · refine ⟨?_, fun other returning => ?_⟩
        · change (run.machine.crashed id fault).actors.size ≤ _
          rw [same]
          exact few.size
        · change (run.machine.crashed id fault).control = _ at returning
          rw [same] at returning
          cases returning
      · cases still.symm.trans ended

theorem Reached.getElem?_turns
    (reached : Reached program run later) (sane : run.machine.Sane) :
    run.turns.size ≤ later.turns.size ∧
      ∀ index < run.turns.size, later.turns[index]? = run.turns[index]? := by
  induction reached with
  | here => exact ⟨Nat.le_refl _, fun _ _ => rfl⟩
  | @step later reached log induction =>
      obtain ⟨size, same⟩ := induction
      have steps : Steps program later log _ := steps_step (reached.sane sane) log
      refine ⟨Nat.le_trans size steps.size_turns_le, fun index inside => ?_⟩
      rw [steps.getElem?_turns (Nat.lt_of_lt_of_le inside size), same index inside]

theorem Reached.selects_iff
    (reached : Reached program run later) (sane : run.machine.Sane)
    (within : step ≤ run.turns.size) :
    later.Selects step snapshot ↔ run.Selects step snapshot := by
  have same := (reached.getElem?_turns sane).2
  constructor
  · intro selects
    cases selects with
    | @turn index turn _ asked chosen listed =>
        exact .turn ((same index within).symm.trans asked) chosen listed
  · intro selects
    cases selects with
    | @turn index turn _ asked chosen listed =>
        exact .turn ((same index within).trans asked) chosen listed

theorem Reached.exists_asked
    (reached : Reached program first run) (sane : first.machine.Sane) (fresh : first.turns = #[])
    (asked : run.turns[index]? = some turn) :
    ∃ before log, Reached program first before ∧ before.turns.size = index ∧
      ((before.step program).run log).1.turns = before.turns.push turn ∧
      Reached program ((before.step program).run log).1 run := by
  induction reached with
  | here =>
      rw [fresh] at asked
      cases asked
  | @step run reached log induction =>
      have steps : Steps program run log ((run.step program).run log).1 :=
        steps_step (reached.sane sane) log
      by_cases earlier : index < run.turns.size
      · rw [steps.getElem?_turns earlier] at asked
        obtain ⟨before, written, known, size, turns, rest⟩ := induction asked
        exact ⟨before, written, known, size, turns, rest.step log⟩
      · have added : index = run.turns.size ∧
            ((run.step program).run log).1.turns = run.turns.push turn := by
          generalize ((run.step program).run log).1 = next at steps asked
          have inside := (Array.getElem?_eq_some_iff.mp asked).1
          cases steps with
          | tick | fail => exact absurd inside earlier
          | decide choosing =>
              rw [Array.size_push] at inside
              obtain rfl : index = run.turns.size := by omega
              rw [Array.getElem?_push_size] at asked
              cases asked
              exact ⟨rfl, rfl⟩
        exact ⟨run, log, reached, added.1.symm, added.2, .here⟩

section Legal

variable (discreet : program.Discreet handles)
  (reached : Reached program (start program number policy) run)
  (legal : ∀ turn ∈ run.turns, turn.Legal)

include discreet reached legal

theorem Reached.owned (going : run.machine.ended = false) : run.machine.Owned := by
  induction reached with
  | here => exact owned_start (program.root number)
  | @step run reached log induction =>
      have sane := reached.sane (sane_start (program.root number))
      have steps : Steps program run log _ := steps_step sane log
      have before : ∀ turn ∈ run.turns, turn.Legal :=
        fun turn member => legal turn (steps.mem_turns member)
      have sound := reached.sound (sound_start discreet number policy) discreet before
      have earlier := (steps.onward sane).going going
      exact steps.owned (induction before earlier) sound discreet legal going

theorem Reached.few (going : run.machine.ended = false) : run.Few := by
  induction reached with
  | here => exact few_start program number policy
  | @step run reached log induction =>
      have sane := reached.sane (sane_start (program.root number))
      have steps : Steps program run log _ := steps_step sane log
      have before : ∀ turn ∈ run.turns, turn.Legal :=
        fun turn member => legal turn (steps.mem_turns member)
      have sound := reached.sound (sound_start discreet number policy) discreet before
      have earlier := (steps.onward sane).going going
      exact steps.few (induction before earlier) sound discreet legal going

theorem Reached.exists_choice (selects : run.Selects (index + 1) snapshot) :
    ∃ before after current target,
      Choice program (start program number policy) run index snapshot before after current target := by
  have sane := sane_start (μ := μ) (program.root number)
  obtain ⟨turn, asked, chosen, listed⟩ := selects.exists_turn
  obtain ⟨before, log, known, size, turns, rest⟩ := reached.exists_asked sane rfl asked
  have onward : Reached program before ((before.step program).run log).1 := .step .here log
  have steps : Steps program before log ((before.step program).run log).1 :=
    steps_step (known.sane sane) log
  have legal : ∀ turn ∈ ((before.step program).run log).1.turns, turn.Legal :=
    fun turn member => legal turn (rest.mem_turns (onward.sane (known.sane sane)) member)
  have sound := known.sound (sound_start discreet number policy) discreet fun turn member =>
    legal turn (steps.mem_turns member)
  refine ⟨before, ((before.step program).run log).1, turn.current, ?_⟩
  generalize ((before.step program).run log).1 = after at *
  cases steps with
  | tick | fail =>
      have sizes := congrArg Array.size turns
      rw [Array.size_push] at sizes
      exact absurd sizes (Nat.ne_of_lt (Nat.lt_succ_self _))
  | @decide id decision policy written choosing answered =>
      have same := congrArg Array.back? turns
      rw [Array.back?_push, Array.back?_push] at same
      cases same
      cases chosen
      have going : before.machine.ended = false :=
        Bool.of_not_eq_true fun ended => sound.sane.decided ended id choosing
      obtain ⟨coherent, -⟩ := (sound.going going).1.of_choosing choosing
      obtain ⟨target, there, enabled, machine⟩ :=
        decided_run coherent (legal _ Array.mem_push_self snapshot.id rfl)
      obtain ⟨actor, found, shows⟩ := mem_snapshots_iff.mp listed
      cases there.symm.trans found
      exact ⟨target, known, onward, rest, size, choosing, there, shows, enabled, machine, rfl⟩

end Legal

section Choice

variable {before after : Run π σ μ} {current : ActorId} {target : Actor σ μ}
  (choice : Choice program (start program number policy) run index snapshot before after current
    target)

include choice

theorem Choice.sane : before.machine.Sane ∧ after.machine.Sane := by
  have sane := choice.reached.sane (sane_start (program.root number))
  exact ⟨sane, choice.onward.sane sane⟩

theorem Choice.going : before.machine.ended = false :=
  Bool.of_not_eq_true fun ended => choice.sane.1.decided ended current choice.choosing

theorem Choice.asked : run.turns[index]? =
    some ⟨current, before.machine.snapshots, .run snapshot.id⟩ := by
  obtain ⟨-, same⟩ := choice.rest.getElem?_turns choice.sane.2
  have size := choice.size
  have turns := choice.turns
  rw [same index (by rw [turns, Array.size_push, size]; exact Nat.lt_succ_self _), turns, ← size,
    Array.getElem?_push_size]

variable (legal : ∀ turn ∈ run.turns, turn.Legal)

include legal

theorem Choice.lawful :
    (∀ turn ∈ before.turns, turn.Legal) ∧ ∀ turn ∈ after.turns, turn.Legal := by
  obtain ⟨first, second⟩ := choice.sane
  exact ⟨fun turn member => legal turn
      (choice.rest.mem_turns second (choice.onward.mem_turns first member)),
    fun turn member => legal turn (choice.rest.mem_turns second member)⟩

variable (discreet : program.Discreet handles)

include discreet

theorem Choice.sound : before.machine.Sound handles :=
  choice.reached.sound (sound_start discreet number policy) discreet (choice.lawful legal).1

theorem Choice.coherent : before.machine.Coherent current ∧ before.machine.Placed current := by
  obtain ⟨coherent, -, placed⟩ :=
    ((choice.sound legal discreet).going choice.going).1.of_choosing choice.choosing
  exact ⟨coherent, placed⟩

theorem Choice.announces :
    target.stage.Announces snapshot.id snapshot.operation ∧ target.stage ≠ .running := by
  obtain ⟨coherent, placed⟩ := choice.coherent legal discreet
  have announced := coherent.announces_of_enabled choice.there choice.enabled
  rw [show target.record.operation = _ from congrArg Snapshot.operation choice.shows] at announced
  exact ⟨announced, coherent.not_running placed choice.there⟩

/-- At a step there are at most as many actors as steps so far, and the operation is about one of
them. -/
theorem Choice.index_le_of_target :
    (∀ turn, run.turns[index]? = some turn → turn.actors.length ≤ index + 1) ∧
      ∀ other, snapshot.operation.target = some other → other.index ≤ index := by
  have size : before.machine.actors.size ≤ index + 1 := by
    rw [← choice.size]
    exact (choice.reached.few discreet (choice.lawful legal).1 choice.going).size
  constructor
  · intro turn asked
    rw [choice.asked] at asked
    cases asked
    rw [length_snapshots]
    exact size
  · intro other targets
    obtain ⟨coherent, placed⟩ := choice.coherent legal discreet
    have owned := choice.reached.owned discreet (choice.lawful legal).1 choice.going
    have honest := ((choice.sound legal discreet).going choice.going).2.honest discreet
    rw [← choice.shows] at targets
    have inside := coherent.index_lt_of_target owned honest choice.there choice.enabled
      (coherent.not_running placed choice.there) targets
    omega

end Choice

end Run

end Interleave
