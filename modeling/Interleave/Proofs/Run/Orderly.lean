import Interleave.Proofs.Machine.Handles
import Interleave.Proofs.Run.Steps
import Interleave.Policy.Replay

namespace Interleave

namespace Machine

variable {σ μ : Type} {program : Program σ μ} {handles : Handles σ μ} {machine : Machine σ μ}
  {current id next : ActorId} {actor : Actor σ μ} {wait : Wait}

/-- Something in the machine says that the actor waits. -/
inductive Marked (machine : Machine σ μ) (id : ActorId) (record : Record) : Wait → Prop
  | message {slot : Nat} {box : Mailbox μ} (found : machine.mailboxes[slot]? = some box)
      (owned : box.owner = id) (parked : box.receiverParked = true) :
      Marked machine id record (.message slot)
  | stop {other : ActorId} {target : Actor σ μ} (there : machine.actors.get? other = some target)
      (waits : id ∈ target.record.waiters) : Marked machine id record (.stop other)
  | progress (yielded : record.yielded = true) : Marked machine id record .progress
  | deadlock (awaiting : record.awaitingDeadlock = true) : Marked machine id record .deadlock

/-- The actor has announced that it waits, what it waits for has not come, and it will be told. -/
inductive Blocked (machine : Machine σ μ) (id : ActorId) (record : Record) : Wait → Prop
  | message {slot : Nat} {box : Mailbox μ} (announced : record.operation = .receive id)
      (found : machine.mailboxes[slot]? = some box) (owned : box.owner = id)
      (empty : box.messages = []) (parked : box.receiverParked = true) :
      Blocked machine id record (.message slot)
  | stop {other : ActorId} {target : Actor σ μ} (announced : record.operation = .join other)
      (there : machine.actors.get? other = some target)
      (living : target.record.terminated = false) (once : target.record.waiters.count id = 1) :
      Blocked machine id record (.stop other)
  | progress (announced : record.operation = .yield id) (yielded : record.yielded = true) :
      Blocked machine id record .progress
  | deadlock (announced : record.operation = .awaitDeadlock id)
      (awaiting : record.awaitingDeadlock = true) : Blocked machine id record .deadlock

structure Orderly (machine : Machine σ μ) (current : ActorId) : Prop where
  present : ∃ actor, machine.actors.get? current = some actor
  active : ∀ id actor, machine.actors.get? id = some actor →
    (actor.record.active = true ↔ id = current)
  blocked : ∀ id actor, machine.actors.get? id = some actor →
    actor.record.terminated = false → actor.record.enabled = false →
      ∃ wait, machine.Blocked id actor.record wait ∧
        ∀ other, machine.Marked id actor.record other → other = wait
  free : ∀ id actor, machine.actors.get? id = some actor → actor.record.enabled = true →
    ∀ wait, ¬ machine.Marked id actor.record wait
  stuck : (∀ id actor, machine.actors.get? id = some actor → actor.record.enabled = false) →
    ∀ id actor, machine.actors.get? id = some actor → actor.record.terminated = false →
      (∃ slot, machine.Blocked id actor.record (.message slot)) ∨
        ∃ other, machine.Blocked id actor.record (.stop other)

/-- What is due does not fault: a call, unless it joins an actor that does not exist, what an actor
does once it has control again, and the choice of an enabled actor. -/
structure Faultless (program : Program σ μ) (machine : Machine σ μ) : Prop where
  calls : ∀ id body reply call next, machine.control = .resuming id body reply →
    program.resume ((machine.setStage id .running).view id) body reply = .call call next →
    (∀ other strict, call = .join other strict →
      ∃ target, machine.actors.get? other = some target) →
    ∃ after, (perform id next call).Gives (machine.setStage id .running) () after
  returns : ∀ id, machine.control = .returning id →
    ∃ after, (proceed id).Gives machine () after
  choices : ∀ id next, machine.control = .choosing id → machine.Enables next →
    ∃ after, (follow id (.run next)).Gives machine () after

theorem exists_of_enables (enables : machine.Enables next) :
    ∃ actor, machine.actors.get? next = some actor ∧ actor.record.enabled = true := by
  obtain ⟨snapshot, member, rfl, enabled⟩ := enables
  obtain ⟨⟨id, actor⟩, listed, rfl⟩ := List.mem_map.mp member
  exact ⟨actor, Roster.mem_entries_iff.mp listed, enabled⟩

namespace Coherent

variable (coherent : machine.Coherent current) (there : machine.actors.get? id = some actor)

include coherent there

theorem blocked_of_wait? (waits : actor.wait? = some wait) :
    machine.Blocked id actor.record wait := by
  have proper := coherent.proper id actor there
  have waiting := waits
  rw [← wait?_of_get? there] at waiting
  cases wait with
  | message slot =>
      obtain ⟨box, found, owned, empty⟩ := coherent.empty id slot waiting
      obtain ⟨record, body, rfl, -, announced⟩ := proper.exists_of_message waits
      refine .message announced found owned empty ?_
      rw [coherent.parked slot box found, owned]
      exact waiting
  | stop other =>
      obtain ⟨target, present, living⟩ := coherent.living id other waiting
      obtain ⟨record, strict, body, rfl, -, announced⟩ := proper.exists_of_stop waits
      refine .stop announced present living ?_
      rw [coherent.waiters other target present id, if_pos waiting]
  | progress =>
      obtain ⟨record, body, rfl, flags, announced⟩ := proper.exists_of_progress waits
      exact .progress announced flags.yielded
  | deadlock =>
      obtain ⟨record, body, rfl, flags, announced⟩ := proper.exists_of_deadlock waits
      exact .deadlock announced flags.awaiting

theorem marked_iff : machine.Marked id actor.record wait ↔ actor.wait? = some wait := by
  have proper := coherent.proper id actor there
  constructor
  · intro marked
    cases marked with
    | message found owned parked =>
        rw [← wait?_of_get? there, ← owned]
        exact (coherent.parked _ _ found).mp parked
    | stop present waits =>
        rw [← wait?_of_get? there]
        exact (coherent.toEnds.mem_waiters_iff present id).mp waits
    | progress yielded => exact proper.wait?_of_yielded yielded
    | deadlock awaiting => exact proper.wait?_of_awaiting awaiting
  · intro waits
    cases coherent.blocked_of_wait? there waits with
    | message announced found owned empty parked => exact .message found owned parked
    | stop announced present living once =>
        exact .stop present (List.count_pos_iff.mp (by omega))
    | progress announced yielded => exact .progress yielded
    | deadlock announced awaiting => exact .deadlock awaiting

end Coherent

theorem orderly_of_coherent (coherent : machine.Coherent id) (released : machine.Released) :
    machine.Orderly id where
  present := coherent.present
  active := coherent.active
  blocked := by
    intro id actor there living disabled
    obtain ⟨wait, waits⟩ := (coherent.proper id actor there).exists_wait? living disabled
    refine ⟨wait, coherent.blocked_of_wait? there waits, ?_⟩
    intro other marked
    rw [coherent.marked_iff there, waits] at marked
    exact (Option.some.inj marked).symm
  free := by
    intro id actor there enabled wait marked
    rw [coherent.marked_iff there, Actor.wait?_of_enabled enabled] at marked
    cases marked
  stuck := by
    intro disabled id actor there living
    obtain ⟨wait, waits⟩ :=
      (coherent.proper id actor there).exists_wait? living (disabled id actor there)
    have blocked := coherent.blocked_of_wait? there waits
    have neither := released disabled id
    rw [wait?_of_get? there, waits] at neither
    cases wait with
    | message slot => exact .inl ⟨slot, blocked⟩
    | stop other => exact .inr ⟨other, blocked⟩
    | progress => exact absurd rfl neither.1
    | deadlock => exact absurd rfl neither.2

theorem exists_gives_run
    (coherent : machine.Coherent id) (enables : machine.Enables next) :
    ∃ target, machine.actors.get? next = some target ∧ target.record.enabled = true ∧
      (follow id (.run next)).Gives machine ()
        ((machine.advance next target.record).switch id next) := by
  obtain ⟨holder, present⟩ := coherent.present
  obtain ⟨target, there, enabled⟩ := exists_of_enables enables
  refine ⟨target, there, enabled, ?_⟩
  apply Attempt.gives_get_bind
  apply Attempt.Gives.bind (Attempt.gives_log _)
  apply gives_handTo present ((coherent.active id holder present).mpr rfl) there enabled
  intro differs
  rw [← Bool.not_eq_true, coherent.active next target there]
  exact differs

theorem decided_run
    (coherent : machine.Coherent id) (enables : machine.Enables next) :
    ∃ target, machine.actors.get? next = some target ∧ target.record.enabled = true ∧
      machine.decided id (.run next) = (machine.advance next target.record).switch id next := by
  obtain ⟨target, there, enabled, gives⟩ := exists_gives_run coherent enables
  exact ⟨target, there, enabled, run_workFor_of_gives gives _⟩

theorem faultless_of_consistent
    (consistent : machine.Consistent) (going : machine.ended = false)
    (honest : machine.Honest program) : machine.Faultless program where
  calls := by
    intro id body reply call next control acts known
    obtain ⟨record, there, flags⟩ := (consistent.ready_of_resuming control).exists_running
    have still : (machine.setStage id .running).ended = false := going
    obtain ⟨after, -, gives⟩ := exists_performs_of_call still there flags.enabled next call
      (fun address => honest.called id body reply call next address control acts) <| by
        intro other strict same
        obtain ⟨target, present⟩ := known other strict same
        exact ⟨_, by rw [get?_setStage, present, Option.map_some]⟩
    exact ⟨after, gives⟩
  returns := by
    intro id control
    obtain ⟨coherent, actor, there, enabled, placed⟩ := consistent.of_returning control
    obtain ⟨after, gives, -⟩ :=
      exists_proceeds coherent there enabled placed going honest
    exact ⟨after, gives⟩
  choices := by
    intro id next control enables
    obtain ⟨coherent, -⟩ := consistent.of_choosing control
    obtain ⟨target, -, -, gives⟩ := exists_gives_run coherent enables
    exact ⟨_, gives⟩

structure Sound (handles : Handles σ μ) (machine : Machine σ μ) : Prop where
  sane : machine.Sane
  going : machine.ended = false → machine.Consistent ∧ Guarded handles machine

end Machine

namespace Run

open Machine

variable {π σ μ : Type} {program : Program σ μ} {handles : Handles σ μ} {run first : Run π σ μ}
  {number : Nat} {policy : π}

theorem sound_start (discreet : program.Discreet handles) (number : Nat) (policy : π) :
    (start program number policy).machine.Sound handles where
  sane := sane_start (program.root number)
  going _ := ⟨consistent_start (program.root number), guarded_start discreet number⟩

theorem sound_next
    {machine : Machine σ μ} (sound : machine.Sound handles) (discreet : program.Discreet handles)
    (undecided : ∀ id, machine.control ≠ .choosing id) : (machine.next program).Sound handles where
  sane := (onward_next program sound.sane).sane sound.sane
  going := by
    intro still
    have going := (onward_next program sound.sane).going still
    obtain ⟨consistent, guarded⟩ := sound.going going
    have moves := moves_next consistent going (guarded.honest discreet) undecided
    refine ⟨?_, ?_⟩
    · rcases moves.consistent consistent going with ended | consistent
      · rw [still] at ended
        cases ended
      · exact consistent
    · rcases moves.guarded guarded discreet going with ended | guarded
      · rw [still] at ended
        cases ended
      · exact guarded

theorem sound_decided
    {machine : Machine σ μ} {id : ActorId} {decision : Decision} (sound : machine.Sound handles)
    (choosing : machine.control = .choosing id)
    (legal : Turn.Legal ⟨id, machine.snapshots, decision⟩) :
    (machine.decided id decision).Sound handles where
  sane := (onward_decided sound.sane choosing decision).sane sound.sane
  going := by
    intro still
    obtain ⟨consistent, guarded⟩ :=
      sound.going ((onward_decided sound.sane choosing decision).going still)
    obtain ⟨coherent, -, placed⟩ := consistent.of_choosing choosing
    by_cases runs : ∃ next, decision = .run next
    · obtain ⟨next, rfl⟩ := runs
      obtain ⟨target, there, enabled, same⟩ := decided_run coherent (legal next rfl)
      rw [same]
      exact ⟨consistent_run coherent placed there enabled, guarded.run id next target.record⟩
    · rw [ended_decided fun next same => runs ⟨next, same⟩] at still
      cases still

theorem sound_crashed
    {machine : Machine σ μ} {id : ActorId} (sound : machine.Sound handles)
    (choosing : machine.control = .choosing id) (fault : Fault) :
    (machine.crashed id fault).Sound handles := by
  have present := sound.sane.present id (by rw [choosing]; rfl)
  have onward : Onward machine (machine.crashed id fault) := (leads_crash present fault).onward _
  refine ⟨onward.sane sound.sane, ?_⟩
  intro still
  obtain ⟨-, guarded⟩ := sound.going (onward.going still)
  rcases crashed_or machine id fault with same | ended
  · rw [same]
    exact ⟨.panicking rfl,
      guarded.of_spreads (spreads_pass machine _) fun _ none => False.elim none⟩
  · rw [still] at ended
    cases ended

variable [Scheduler π]

theorem Steps.sound
    {log : Log} {next : Run π σ μ} (steps : Steps program run log next)
    (sound : run.machine.Sound handles) (discreet : program.Discreet handles)
    (legal : ∀ turn ∈ next.turns, turn.Legal) : next.machine.Sound handles := by
  cases steps with
  | tick undecided => exact sound_next sound discreet undecided
  | decide choosing chosen =>
      exact sound_decided sound choosing (legal _ (Array.mem_push_self))
  | fail choosing => exact sound_crashed sound choosing _

theorem Reached.sound
    (reached : Reached program first run) (sound : first.machine.Sound handles)
    (discreet : program.Discreet handles) (legal : ∀ turn ∈ run.turns, turn.Legal) :
    run.machine.Sound handles := by
  induction reached with
  | here => exact sound
  | @step run reached log induction =>
      have steps : Steps program run log _ := steps_step (reached.sane sound.sane) log
      exact steps.sound (induction fun turn member => legal turn (steps.mem_turns member)) discreet
        legal

/-- Before the end of an execution in which only enabled actors are run, every scheduling point is
orderly, and no primitive faults except a join of an actor that does not exist. -/
theorem orderly_of_reached
    (discreet : program.Discreet handles)
    (reached : Reached program (start program number policy) run)
    (legal : ∀ turn ∈ run.turns, turn.Legal) (going : run.machine.ended = false) :
    (∀ id, run.machine.control = .choosing id → run.machine.Orderly id) ∧
      run.machine.Faultless program := by
  have sound := reached.sound (sound_start discreet number policy) discreet legal
  obtain ⟨consistent, guarded⟩ := sound.going going
  refine ⟨?_, faultless_of_consistent consistent going (guarded.honest discreet)⟩
  intro id choosing
  obtain ⟨coherent, released, -⟩ := consistent.of_choosing choosing
  exact orderly_of_coherent coherent released

/-- The receiver waits for its message while the root is about to send it. -/
theorem orderly_of_reached_errand :
    let run := (((start Errand.program 0 (Policy.Replay.ofTrace ⟨[⟨0⟩, ⟨1⟩]⟩)).complete
      Errand.program 7).run (.empty .trace)).1
    run.machine.control = .choosing ⟨1⟩ ∧ (∀ turn ∈ run.turns, turn.Legal) ∧
      run.machine.Orderly ⟨1⟩ ∧ run.machine.Faultless Errand.program := by
  intro run
  have reached := reached_complete Errand.program 7
    (start Errand.program 0 (Policy.Replay.ofTrace ⟨[⟨0⟩, ⟨1⟩]⟩)) (.empty .trace)
  have legal : ∀ turn ∈ run.turns, turn.Legal := by decide
  have orderly := orderly_of_reached Errand.discreet_program reached legal rfl
  exact ⟨rfl, legal, orderly.1 ⟨1⟩ rfl, orderly.2⟩

end Run

end Interleave
