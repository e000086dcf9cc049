import Interleave.Proofs.Run.Orderly

namespace Interleave

namespace Machine

variable {σ μ : Type} {program : Program σ μ} {machine after : Machine σ μ} {id next : ActorId}
  {target : Actor σ μ}

theorem mem_snapshots_iff {snapshot : Snapshot} :
    snapshot ∈ machine.snapshots ↔ ∃ actor, machine.actors.get? snapshot.id = some actor ∧
      actor.record.snapshot snapshot.id = snapshot := by
  constructor
  · intro member
    obtain ⟨⟨id, actor⟩, listed, rfl⟩ := List.mem_map.mp member
    exact ⟨actor, Roster.mem_entries_iff.mp listed, rfl⟩
  · intro found
    obtain ⟨actor, there, same⟩ := found
    exact List.mem_map.mpr ⟨⟨snapshot.id, actor⟩, Roster.mem_entries_iff.mpr there, same⟩

theorem exists_get?_run (there : machine.actors.get? next = some target) (id : ActorId) :
    ∃ active, ((machine.advance next target.record).switch id next).actors.get? next =
      some ⟨target.record.hold active, target.stage⟩ := by
  have advanced := get?_advance machine next next target.record
  rw [there, Option.map_some, if_neg fun both => both.1 rfl] at advanced
  by_cases same : next = id
  · refine ⟨target.record.active, ?_⟩
    rw [switch, if_pos same]
    exact advanced
  · refine ⟨true, ?_⟩
    rw [get?_switch same, advanced, Option.map_some, Actor.switching, if_neg same, if_pos rfl]

theorem exists_run_eq (machine : Machine σ μ) (id next : ActorId) (chosen : Record) :
    ∃ actors, (machine.advance next chosen).switch id next =
      { machine with
        actors := actors
        trace := machine.trace.push next
        control := .returning next } := by
  have advanced : ∃ actors, machine.advance next chosen =
      { machine with actors := actors, trace := machine.trace.push next } := by
    unfold advance
    split
    · exact ⟨_, rfl⟩
    · exact ⟨_, rfl⟩
  obtain ⟨actors, same⟩ := advanced
  rw [same]
  unfold switch retire
  split
  · exact ⟨_, rfl⟩
  · split
    · exact ⟨_, rfl⟩
    · exact ⟨_, rfl⟩

/-- Where control goes without a decision: a step is counted at a scheduling point only. -/
inductive Counts (steps : Nat) (machine : Machine σ μ) : Prop
  | announce {id : ActorId} (control : machine.control = .choosing id)
      (counted : machine.steps = steps + 1) : Counts steps machine
  | resume {id : ActorId} {body : σ} {reply : Reply μ}
      (control : machine.control = .resuming id body reply) (counted : machine.steps = steps) :
      Counts steps machine
  | close {id : ActorId} {result : Except ActorError Unit}
      (control : machine.control = .closing id result) (counted : machine.steps = steps) :
      Counts steps machine

theorem Counts.not_returning {steps : Nat} (counts : Counts steps machine) (id : ActorId) :
    machine.control ≠ .returning id := by
  intro returning
  cases counts with
  | announce control | resume control | close control => cases control.symm.trans returning

theorem counts_reach
    (going : machine.ended = false) (id : ActorId) (operation : Operation) (stage : Stage σ μ) :
    Counts machine.steps (machine.reach id operation stage) := by
  obtain ⟨enabled, same⟩ := reach_eq going id operation stage
  rw [same]
  exact .announce rfl rfl

theorem Performs.counts
    {body : σ} {call : Call σ μ} (performs : Performs machine id body call after)
    (going : machine.ended = false) : Counts machine.steps after := by
  cases performs with
  | @announce pending operation prepared prepares =>
      have steps : prepared.steps = machine.steps := by cases prepares <;> rfl
      rw [← steps]
      exact counts_reach ((going_of_prepares prepares).trans going) id operation _
  | reply replies => exact .resume rfl (by cases replies <;> rfl)

theorem Proceeds.counts (proceeds : Proceeds machine id after) (going : machine.ended = false) :
    Counts machine.steps after := by
  cases proceeds with
  | complete there completes => exact .resume rfl (by cases completes <;> rfl)
  | @finish record there =>
      have steps : (machine.finish id).steps = machine.steps := by
        rw [finish_eq there]
        exact steps_enableAll _ _
      have still : (machine.finish id).ended = false := (ended_finish there).trans going
      rw [← steps]
      exact counts_reach still id _ _

theorem Moves.counts
    (moves : Moves program machine after) (going : machine.ended = false)
    (still : after.ended = false) : Counts machine.steps after := by
  cases moves with
  | ends ended =>
      rw [still] at ended
      cases ended
  | call control acts performs => exact performs.counts going
  | close control result => exact .close rfl rfl
  | complete control there completes => exact (Proceeds.complete there completes).counts going
  | finish control there => exact (Proceeds.finish there).counts going
  | @settle id result settled control calm settles =>
      have steps : settled.steps = machine.steps := by cases settles <;> rfl
      have same : settled.ended = machine.ended := by cases settles <;> rfl
      rw [← steps]
      exact counts_reach (same.trans going) id _ _

theorem Moves.calm
    {text : String} (moves : Moves program machine after) (still : after.ended = false) :
    machine.control ≠ .closing id (.error (.panicked text)) := by
  intro panics
  cases moves with
  | ends ended =>
      rw [still] at ended
      cases ended
  | settle control calm settles =>
      cases control.symm.trans panics
      exact calm text rfl
  | call control | close control | complete control | finish control =>
      cases control.symm.trans panics

end Machine

namespace Run

open Machine

variable {π σ μ : Type} {program : Program σ μ} {handles : Handles σ μ} {run next first : Run π σ μ}
  {number step : Nat} {policy : π} {turn : Turn} {snapshot : Snapshot} {log : Log}

/-- At this step, counted from one, the scheduler chose this actor. -/
inductive Selects (run : Run π σ μ) : Nat → Snapshot → Prop
  | turn {index : Nat} {turn : Turn} {snapshot : Snapshot} (asked : run.turns[index]? = some turn)
      (chosen : turn.decision = .run snapshot.id) (listed : snapshot ∈ turn.actors) :
      Selects run (index + 1) snapshot

theorem Selects.le (selects : run.Selects step snapshot) : step ≤ run.turns.size := by
  cases selects with
  | turn asked chosen listed => exact (Array.getElem?_eq_some_iff.mp asked).1

theorem Selects.congr (selects : run.Selects step snapshot) (same : next.turns = run.turns) :
    next.Selects step snapshot := by
  cases selects with
  | turn asked chosen listed => exact .turn (by rw [same, asked]) chosen listed

theorem selects_push_iff (pushed : next.turns = run.turns.push turn) :
    next.Selects step snapshot ↔ run.Selects step snapshot ∨
      step = run.turns.size + 1 ∧ turn.decision = .run snapshot.id ∧ snapshot ∈ turn.actors := by
  constructor
  · intro selects
    cases selects with
    | @turn index known _ asked chosen listed =>
        rw [pushed, Array.getElem?_push] at asked
        split at asked
        · rename_i last
          cases asked
          exact .inr ⟨by rw [last], chosen, listed⟩
        · exact .inl (.turn asked chosen listed)
  · intro cases
    rcases cases with selects | ⟨rfl, chosen, listed⟩
    · cases selects with
      | @turn index known _ asked chosen listed =>
          refine .turn ?_ chosen listed
          have inside := (Array.getElem?_eq_some_iff.mp asked).1
          rw [pushed, Array.getElem?_push, if_neg (Nat.ne_of_lt inside), asked]
    · exact .turn (by rw [pushed, Array.getElem?_push_size]) chosen listed

/-- Before the end, each step has a turn, except the one at whose scheduling point an actor is. -/
structure Punctual (run : Run π σ μ) : Prop where
  choosing : ∀ id, run.machine.control = .choosing id → run.machine.steps = run.turns.size + 1
  counted : (∀ id, run.machine.control ≠ .choosing id) →
    (∀ id text, run.machine.control ≠ .closing id (.error (.panicked text))) →
      run.machine.steps = run.turns.size
  selected : ∀ id actor, run.machine.control = .returning id →
    run.machine.actors.get? id = some actor →
      run.Selects run.turns.size (actor.record.snapshot id)

theorem punctual_of_counts
    (counts : next.machine.Counts run.machine.steps) (turns : next.turns = run.turns)
    (counted : run.machine.steps = run.turns.size) : next.Punctual := by
  rw [counted, ← turns] at counts
  cases counts with
  | announce control steps =>
      refine ⟨fun _ _ => steps, fun undecided => absurd control (undecided _), ?_⟩
      intro id actor returning
      cases control.symm.trans returning
  | resume control steps | close control steps =>
      refine ⟨?_, fun _ _ => steps, ?_⟩
      · intro id choosing
        cases control.symm.trans choosing
      · intro id actor returning
        cases control.symm.trans returning

/-- A decision is the turn of the step that an actor has announced. -/
theorem punctual_run
    {id chosen : ActorId} {target : Actor σ μ} (punctual : run.Punctual)
    (choosing : run.machine.control = .choosing id)
    (there : run.machine.actors.get? chosen = some target)
    (machine : next.machine = (run.machine.advance chosen target.record).switch id chosen)
    (turns : next.turns = run.turns.push ⟨id, run.machine.snapshots, .run chosen⟩) :
    next.Punctual := by
  obtain ⟨actors, run_eq⟩ := exists_run_eq run.machine id chosen target.record
  have control : next.machine.control = .returning chosen := by rw [machine, run_eq]
  refine ⟨?_, ?_, ?_⟩
  · intro other choosing
    cases control.symm.trans choosing
  · intro _ _
    rw [machine, run_eq, turns, Array.size_push]
    exact punctual.choosing id choosing
  · intro other actor returning found
    cases control.symm.trans returning
    obtain ⟨active, same⟩ := exists_get?_run there id
    rw [machine, same] at found
    cases found
    rw [turns, Array.size_push]
    exact (selects_push_iff turns).mpr
      (.inr ⟨rfl, rfl, mem_snapshots_iff.mpr ⟨target, there, rfl⟩⟩)

theorem punctual_start (program : Program σ μ) (number : Nat) (policy : π) :
    (start program number policy).Punctual := by
  have control : (start program number policy).machine.control =
      .resuming .root (program.root number) (.ok .done) := rfl
  refine ⟨?_, fun _ _ => rfl, ?_⟩
  · intro id choosing
    cases control.symm.trans choosing
  · intro id actor returning
    cases control.symm.trans returning

variable [Scheduler π]

theorem Steps.punctual
    (steps : Steps program run log next) (punctual : run.machine.ended = false → run.Punctual)
    (sound : run.machine.Sound handles) (discreet : program.Discreet handles)
    (legal : ∀ turn ∈ next.turns, turn.Legal) (still : next.machine.ended = false) :
    next.Punctual := by
  have going := (steps.onward sound.sane).going still
  obtain ⟨consistent, guarded⟩ := sound.going going
  have punctual := punctual going
  cases steps with
  | tick undecided =>
      have moves := moves_next consistent going (guarded.honest discreet) undecided
      exact punctual_of_counts (moves.counts going still) rfl
        (punctual.counted undecided fun id text => moves.calm still)
  | @decide id decision policy written choosing chosen =>
      obtain ⟨coherent, -, -⟩ := consistent.of_choosing choosing
      by_cases runs : ∃ target, decision = .run target
      · obtain ⟨target, rfl⟩ := runs
        obtain ⟨actor, there, enabled, same⟩ :=
          decided_run coherent (legal _ Array.mem_push_self target rfl)
        exact punctual_run punctual choosing there same rfl
      · have ended : (run.machine.decided id decision).ended = true :=
          ended_decided fun target same => runs ⟨target, same⟩
        rw [ended] at still
        cases still
  | @fail id fault policy choosing =>
      rcases crashed_or run.machine id fault with same | ended
      · have control : (run.machine.crashed id fault).control =
            .closing id (.error (.panicked fault.text)) := by rw [same]; rfl
        refine ⟨?_, fun _ calm => absurd control (calm _ _), ?_⟩
        · intro other choosing
          cases control.symm.trans choosing
        · intro other actor returning
          cases control.symm.trans returning
      · rw [ended] at still
        cases still

theorem Reached.punctual
    (discreet : program.Discreet handles)
    (reached : Reached program (start program number policy) run)
    (legal : ∀ turn ∈ run.turns, turn.Legal) (going : run.machine.ended = false) :
    run.Punctual := by
  induction reached with
  | here => exact punctual_start program number policy
  | @step run reached log induction =>
      have sane := reached.sane (sane_start (program.root number))
      have steps : Steps program run log _ := steps_step sane log
      have before : ∀ turn ∈ run.turns, turn.Legal :=
        fun turn member => legal turn (steps.mem_turns member)
      have sound := reached.sound (sound_start discreet number policy) discreet before
      exact steps.punctual (induction before) sound discreet legal going

end Run

end Interleave
