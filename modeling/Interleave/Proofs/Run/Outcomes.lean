import Interleave.Proofs.Machine.Fates
import Interleave.Proofs.Machine.Verdicts
import Interleave.Proofs.Run.Replay

namespace Interleave

variable {σ μ : Type}

namespace Machine

variable {program : Program σ μ} {machine : Machine σ μ} {id : ActorId} {decision : Decision}
  {outcome : Outcome} {count : Nat}

/-- What the outcome is where a decision ends the execution. It is a deadlock only if the root is
still alive. -/
inductive Decides (machine : Machine σ μ) : Decision → Outcome → Prop
  | sleepSetBlocked : Decides machine .sleepSetBlocked .sleepSetBlocked
  | hitStepLimit : Decides machine .hitStepLimit .hitStepLimit
  | deadlock (living : .root ∈ machine.live) : Decides machine .deadlock (.bug .deadlock)
  | completed (gone : machine.Over .root) : Decides machine .deadlock .completed

theorem mem_live_iff :
    id ∈ machine.live ↔
      ∃ actor, machine.actors.get? id = some actor ∧ actor.record.terminated = false := by
  unfold live
  constructor
  · intro member
    obtain ⟨⟨known, actor⟩, listed, rfl⟩ := List.mem_map.mp member
    obtain ⟨listed, living⟩ := List.mem_filter.mp listed
    exact ⟨actor, Roster.mem_entries_iff.mp listed, by simpa using living⟩
  · rintro ⟨actor, there, living⟩
    refine List.mem_map.mpr ⟨(id, actor), List.mem_filter.mpr ⟨?_, ?_⟩, rfl⟩
    · exact Roster.mem_entries_iff.mpr there
    · simpa using living

theorem departing_decided
    (sane : machine.Sane) (choosing : machine.control = .choosing id)
    (stops : ∀ next, decision ≠ .run next) : (machine.decided id decision).Departing := by
  have onward := onward_decided sane choosing decision
  refine ⟨onward.sane sane, ended_decided stops, ?_, ?_⟩
  · obtain ⟨blocked, limited, deadlocked, same, -⟩ := exists_decided_eq machine id stops
    rw [same]
    exact .returning id
  · obtain ⟨blocked, limited, deadlocked, same, -⟩ := exists_decided_eq machine id stops
    rw [same]
    nofun

theorem Departing.fate_iterate
    (departing : machine.Departing) (unwinds : program.Unwinds) (count : Nat) :
    ((Machine.next program)^[count] machine).fate =
      { machine.fate with bug := ((Machine.next program)^[count] machine).bug } := by
  induction count with
  | zero => rfl
  | succ count induction =>
      have now := departing.iterate unwinds count
      rw [Function.iterate_succ_apply']
      generalize (Machine.next program)^[count] machine = middle at induction now ⊢
      obtain ⟨actors, control, same, -⟩ := exists_unwound_eq middle
      have kept : (middle.next program).fate =
          { middle.fate with bug := (middle.next program).bug } := by
        rw [now.next_eq unwinds, same]
        rfl
      rw [kept, induction]

/-- A cut is all that is known of an execution that was cut before a bug was found. -/
theorem bug_iterate_of_cut
    (departing : machine.Departing) (unwinds : program.Unwinds) (fresh : machine.bug = none)
    (cut : machine.sleepSetBlocked = true ∨ machine.hitStepLimit = true) (count : Nat) :
    ((Machine.next program)^[count] machine).bug = none := by
  have concluded : machine.Concluded := ⟨departing.ended, .inr cut, departing.unwinding⟩
  rw [concluded.iterate_eq unwinds departing.sane, bug_iterate_unwound, fresh]

section Deadlock

variable {actor : Actor σ μ} (coherent : machine.Coherent id)
  (fits : Fits machine.snapshots (.ok .deadlock)) (fresh : machine.bug = none)
  (there : machine.actors.get? .root = some actor)

include coherent fits fresh there

theorem doomed_decided (living : actor.record.terminated = false) :
    (machine.decided id .deadlock).Doomed := by
  have disabled : actor.record.enabled = false :=
    fits (actor.record.snapshot .root) (mem_snapshots_iff.mpr ⟨actor, there, rfl⟩)
  have woken : (machine.decided id .deadlock).actors.get? .root =
      some { actor with record := actor.record.wake } := by
    rw [decided_deadlock]
    exact (get?_modifyRecords machine .root fun _ record => record.wake).trans
      (by rw [there, Option.map_some])
  have control : (machine.decided id .deadlock).control = .returning id := by
    rw [decided_deadlock]
    rfl
  have unknown : (machine.decided id .deadlock).bug = none := by
    rw [decided_deadlock]
    exact fresh
  have waits : ∃ pending body, actor.stage = .waiting pending body := by
    cases coherent.proper .root actor there with
    | free flags => cases flags.enabled.symm.trans disabled
    | gone flags => cases flags.terminated.symm.trans living
    | parked | joining | yielding | awaiting => exact ⟨_, _, rfl⟩
  obtain ⟨pending, body, stage⟩ := waits
  rw [stage] at woken
  refine .waiting woken unknown ?_
  rw [control]
  nofun

omit fits in
theorem spared_decided (terminated : actor.record.terminated = true) :
    (machine.decided id .deadlock).Spared := by
  have woken : (machine.decided id .deadlock).actors.get? .root =
      some { actor with record := actor.record.wake } := by
    rw [decided_deadlock]
    exact (get?_modifyRecords machine .root fun _ record => record.wake).trans
      (by rw [there, Option.map_some])
  refine ⟨?_, ⟨_, woken, ?_⟩, ?_⟩
  · rw [decided_deadlock]
    exact fresh
  · cases coherent.proper .root actor there with
    | @gone record stage flags announced gone =>
        cases stage with
        | ending | ended => rfl
        | running | waiting => cases gone
    | free flags | parked flags | joining flags | yielding flags | awaiting flags =>
        cases flags.terminated.symm.trans terminated
  · rw [decided_deadlock]
    nofun

end Deadlock

/-- How the execution ends is decided, and not changed by the actors that unwind. -/
theorem decides_iterate
    (unwinds : program.Unwinds) (sane : machine.Sane) (afoot : machine.Afoot)
    (fresh : machine.bug = none) (choosing : machine.control = .choosing id)
    (coherent : machine.Coherent id) (rooted : ∃ root, machine.actors.get? .root = some root)
    (stops : ∀ next, decision ≠ .run next) (fits : Fits machine.snapshots (.ok decision))
    (finished : ((Machine.next program)^[count] (machine.decided id decision)).control =
      .finished) :
    machine.Decides decision
      ((Machine.next program)^[count] (machine.decided id decision)).outcome := by
  have departing := departing_decided sane choosing stops
  have fate := departing.fate_iterate unwinds count
  have stopped := fate_decided machine id stops
  rw [stopped, afoot, fresh] at fate
  have known : (machine.decided id decision).bug = none := by
    have same := congrArg Fate.bug stopped
    rw [Fate.bug_stop] at same
    exact same.trans fresh
  have outcome (bug : Option ActorError)
      (found : ((Machine.next program)^[count] (machine.decided id decision)).bug = bug) :
      ((Machine.next program)^[count] (machine.decided id decision)).outcome =
        { (Fate.going none).stop machine.live decision with bug := bug }.outcome := by
    rw [outcome_eq, fate, found]
  cases decision with
  | run next => exact absurd rfl (stops next)
  | deadlock =>
      have uncut : (machine.decided id .deadlock).Uncut :=
        ⟨by rw [decided_deadlock]; exact congrArg Fate.sleepSetBlocked afoot,
          by rw [decided_deadlock]; exact congrArg Fate.hitStepLimit afoot⟩
      obtain ⟨root, there⟩ := rooted
      cases terminated : root.record.terminated with
      | false =>
          have doomed := doomed_decided coherent fits fresh there terminated
          rw [outcome _ (doomed.verdict departing unwinds finished uncut)]
          exact .deadlock (mem_live_iff.mpr ⟨root, there, terminated⟩)
      | true =>
          have spared := spared_decided coherent fresh there terminated
          rw [outcome _ (spared.verdict departing unwinds count)]
          exact .completed ⟨root, there, terminated⟩
  | sleepSetBlocked =>
      have cut : (machine.decided id .sleepSetBlocked).sleepSetBlocked = true :=
        congrArg Fate.sleepSetBlocked stopped
      rw [outcome _ (bug_iterate_of_cut departing unwinds known (.inl cut) count)]
      exact .sleepSetBlocked
  | hitStepLimit =>
      have cut : (machine.decided id .hitStepLimit).hitStepLimit = true :=
        congrArg Fate.hitStepLimit stopped
      rw [outcome _ (bug_iterate_of_cut departing unwinds known (.inr cut) count)]
      exact .hitStepLimit

end Machine

namespace Run

open Machine

variable {π : Type} {program : Program σ μ} {handles : Handles σ μ} {run next : Run π σ μ}
  {number : Nat} {policy : π} {id : ActorId} {log : Log} [Scheduler π]

theorem Steps.afoot
    (steps : Steps program run log next) (sound : run.machine.Sound handles)
    (discreet : program.Discreet handles) (legal : ∀ turn ∈ next.turns, turn.Legal)
    (afoot : run.machine.Afoot) (still : next.machine.ended = false) : next.machine.Afoot := by
  obtain ⟨consistent, guarded⟩ := sound.going afoot.going
  cases steps with
  | tick undecided =>
      have moves := moves_next consistent afoot.going (guarded.honest discreet) undecided
      exact afoot.next moves still
  | @decide id decision policy written choosing chosen =>
      by_cases runs : ∃ target, decision = .run target
      · obtain ⟨target, rfl⟩ := runs
        obtain ⟨coherent, -⟩ := consistent.of_choosing choosing
        obtain ⟨actor, there, enabled, same⟩ :=
          decided_run coherent (legal _ Array.mem_push_self target rfl)
        apply afoot.congr
        rw [same, fate_switch, fate_advance]
      · have ended : (run.machine.decided id decision).ended = true :=
          ended_decided fun target same => runs ⟨target, same⟩
        cases still.symm.trans ended
  | @fail id fault policy choosing =>
      rcases crashed_or run.machine id fault with same | ended
      · exact afoot.congr (by rw [same, fate_pass])
      · cases still.symm.trans ended

theorem Reached.afoot
    (discreet : program.Discreet handles)
    (reached : Reached program (start program number policy) run)
    (legal : ∀ turn ∈ run.turns, turn.Legal) (going : run.machine.ended = false) :
    run.machine.Afoot := by
  induction reached with
  | here => rfl
  | @step run reached log induction =>
      have sane := reached.sane (sane_start (program.root number))
      have steps : Steps program run log _ := steps_step sane log
      have before : ∀ turn ∈ run.turns, turn.Legal :=
        fun turn member => legal turn (steps.mem_turns member)
      have sound := reached.sound (sound_start discreet number policy) discreet before
      have earlier := (steps.onward sane).going going
      exact steps.afoot sound discreet legal (induction before earlier) going

theorem Reached.rooted (reached : Reached program (start program number policy) run) :
    ∃ root, run.machine.actors.get? .root = some root :=
  exists_get? (Nat.lt_of_lt_of_le Nat.one_pos (reached.onward (sane_start _)).size)

theorem exists_complete_of_chosen
    {decision : Decision} {changed : π} {written : Log} (unwinds : program.Unwinds)
    (sane : run.machine.Sane) (choosing : run.machine.control = .choosing id)
    (chosen : (Scheduler.choose run.machine.snapshots id : Attempt π Decision).Returns
      (run.policy, log) decision (changed, written)) (stops : ∀ next, decision ≠ .run next) :
    ∃ count, ((Machine.next program)^[count] (run.machine.decided id decision)).control =
        .finished ∧ ∀ more,
      ((run.complete program (count + 1 + more)).run log).1.machine =
        (Machine.next program)^[count] (run.machine.decided id decision) := by
  have departing := departing_decided sane choosing stops
  obtain ⟨count, finished⟩ := departing.exists_finished unwinds
  refine ⟨count, finished, fun more => ?_⟩
  have unfinished : ¬ run.isFinished = true := by
    rw [isFinished_iff, choosing]
    nofun
  have ended : (run.machine.decided id decision).ended = true := ended_decided stops
  rw [Nat.add_right_comm, complete_succ, if_neg unfinished,
    step_of_chosen program choosing sane chosen,
    complete_of_ended program (count + more) _ departing.sane ended, Nat.add_comm count more,
    Function.iterate_add_apply]
  exact Function.iterate_fixed (next_of_finished program finished) more

end Run

namespace Launcher

variable {π : Type} {program : Program σ μ} {handles : Handles σ μ} {launcher : Launcher π μ}
  {run : Run π σ μ} {policy : π} {id : ActorId} {decision : Decision} {ticks : Nat}
  {log between written : Log} [Scheduler π]

open Run in
/-- A decision that ends an execution in which no bug was found decides its outcome, whatever is
left to be done by the actors of a program that unwinds. -/
theorem decides_of_chosen
    (discreet : program.Discreet handles) (unwinds : program.Unwinds)
    (came : ((start program launcher.executions launcher.policy).complete program ticks).run log =
      (run, between))
    (legal : ∀ turn ∈ run.turns, turn.Legal) (choosing : run.machine.control = .choosing id)
    (chosen : (Scheduler.choose run.machine.snapshots id : Attempt π Decision).Returns
      (run.policy, between) decision (policy, written))
    (stops : ∀ next, decision ≠ .run next) (fits : Fits run.machine.snapshots (.ok decision))
    (fresh : run.machine.bug = none) :
    ∃ enough execution, run.machine.Decides decision execution.outcome ∧
      ∀ allowance, enough ≤ allowance.ticks →
        ∃ after, (execute program allowance).Returns (launcher, log) execution after := by
  have reached : Reached program (start program launcher.executions launcher.policy) run := by
    have reached := reached_complete program ticks
      (start program launcher.executions launcher.policy) log
    rw [came] at reached
    exact reached
  have sound := reached.sound (sound_start discreet _ _) discreet legal
  have going : run.machine.ended = false :=
    Bool.of_not_eq_true fun ended => sound.sane.decided ended id choosing
  have afoot := reached.afoot discreet legal going
  obtain ⟨coherent, -⟩ := (sound.going going).1.of_choosing choosing
  obtain ⟨count, finished, same⟩ :=
    exists_complete_of_chosen unwinds sound.sane choosing chosen stops
  have departing := Machine.departing_decided sound.sane choosing stops
  have decides := Machine.decides_iterate unwinds sound.sane afoot fresh choosing coherent
    reached.rooted stops fits finished
  generalize ended : (Machine.next program)^[count] (run.machine.decided id decision) = last at *
  have uncrashed : last.crashes = [] := by
    have fate := departing.fate_iterate unwinds count
    rw [ended, Machine.fate_decided run.machine id stops] at fate
    have same := congrArg Fate.crashes fate
    exact same.trans ((Fate.crashes_stop _ _ decision).trans afoot.uncrashed)
  refine ⟨ticks + (count + 1), last.summary, decides, fun allowance enough => ?_⟩
  obtain ⟨more, enough⟩ := Nat.exists_eq_add_of_le enough
  have comes : (((start program launcher.executions launcher.policy).complete program
      allowance.ticks).run log).1.machine = last := by
    rw [enough, Nat.add_assoc, complete_add, came]
    exact same more
  exact ⟨_, execute_returns_iff.mpr ⟨_, _, rfl, (congrArg Machine.control comes).trans finished,
    (congrArg Machine.crashes comes).trans uncrashed, congrArg Machine.summary comes, rfl⟩⟩

open Run in
/-- The errand is cut while its receiver has not started. -/
theorem decides_of_chosen_errand :
    let run := (((start Errand.program 0 (.ofTrace ⟨[⟨0⟩, ⟨0⟩]⟩ : Policy.Replay)).complete
      Errand.program 7).run (.empty .error)).1
    (∀ turn ∈ run.turns, turn.Legal) ∧ run.machine.control = .choosing .root ∧
      run.machine.bug = none ∧
      ∃ enough execution, run.machine.Decides .hitStepLimit execution.outcome ∧
        ∀ allowance, enough ≤ allowance.ticks → ∃ after,
          (execute Errand.program allowance).Returns
            (.ofPolicy false (.ofTrace ⟨[⟨0⟩, ⟨0⟩]⟩ : Policy.Replay), .empty .error)
            execution after := by
  intro run
  have legal : ∀ turn ∈ run.turns, turn.Legal := by decide
  have choosing : run.machine.control = .choosing .root := rfl
  have fresh : run.machine.bug = none := by decide
  have chosen : (Scheduler.choose run.machine.snapshots .root :
      Attempt Policy.Replay Decision).Returns (run.policy, .empty .error) .hitStepLimit
        (run.policy, .empty .error) := rfl
  have came : ((start Errand.program 0 (.ofTrace ⟨[⟨0⟩, ⟨0⟩]⟩ : Policy.Replay)).complete
      Errand.program 7).run (.empty .error) = (run, .empty .error) := Prod.ext rfl (by rfl)
  exact ⟨legal, choosing, fresh, decides_of_chosen Errand.discreet_program Errand.unwinds_program
    came legal choosing chosen nofun trivial fresh⟩

end Launcher

end Interleave
