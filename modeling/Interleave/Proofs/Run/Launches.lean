import Interleave.Policy.Scripted
import Interleave.Proofs.Run.Sound

namespace Interleave

variable {π σ μ : Type} {program : Program σ μ}

theorem Machine.length_statuses (machine : Machine σ μ) :
    machine.statuses.length = machine.actors.size := by
  simp [statuses, Roster.entries, Roster.toList, Roster.size]

namespace Run

variable {first : Run π σ μ} {log : Log} [Scheduler π]

theorem size_complete_le
    {allowance : Nat} (sane : first.machine.Sane)
    (finished : ((first.complete program allowance).run log).1.isFinished = true) (steps : Nat) :
    ((first.complete program steps).run log).1.machine.actors.size ≤
      ((first.complete program allowance).run log).1.machine.actors.size := by
  induction allowance generalizing first log steps with
  | zero =>
      have halted : first.isFinished = true := finished
      exact Nat.le_of_eq (by rw [complete_of_finished halted, complete_of_finished halted])
  | succ allowance induction =>
      by_cases halted : first.isFinished = true
      · exact Nat.le_of_eq (by rw [complete_of_finished halted, complete_of_finished halted])
      · cases steps with
        | zero => exact ((reached_complete program _ first log).onward sane).size
        | succ steps =>
            rw [complete_succ, if_neg halted] at finished ⊢
            rw [complete_succ, if_neg halted]
            have made : Steps program first log _ := steps_step sane log
            have onward := made.onward sane
            exact induction (onward.sane sane) finished steps

end Run

namespace Launcher

open Attempt TransitionSystem

variable {allowance : Allowance} {fresh : π} [Scheduler π]

theorem policy_of_advance
    {launcher : Launcher π μ} {log : Log} {more : Bool} {after : Launcher π μ × Log}
    (advanced : advance.Returns (launcher, log) more after) :
    (Scheduler.advance : Attempt π Bool).Returns (launcher.policy, log) more
      (after.1.policy, after.2) := by
  obtain ⟨_, _, got, worked⟩ := returns_bind_iff.mp advanced
  obtain ⟨rfl, rfl⟩ := returns_get_iff.mp got
  obtain ⟨⟨result, policy⟩, ⟨_, written⟩, prepared, worked⟩ := returns_bind_iff.mp worked
  obtain ⟨prepared, rfl⟩ := returns_liftLog_iff.mp prepared
  obtain ⟨_, _, changed, worked⟩ := returns_bind_iff.mp worked
  obtain rfl := returns_set_iff.mp changed
  cases result with
  | error fault =>
      dsimp only at worked
      split at worked
      · obtain ⟨_, _, -, thrown⟩ := returns_bind_iff.mp worked
        exact (returns_throw_iff.mp thrown).elim
      · exact (returns_throw_iff.mp worked).elim
  | ok answer =>
      obtain ⟨rfl, rfl⟩ := returns_pure_iff.mp worked
      exact prepared

/-- A launcher before an execution: a new one, or after another execution and the preparation of the
next one. The executions have only so many actors that the numbers of any two can be added. -/
inductive Explored (program : Program σ μ) (allowance : Allowance) (fresh : π) :
    Launcher π μ → Prop
  | start {launcher : Launcher π μ} (same : launcher.policy = fresh) :
      Explored program allowance fresh launcher
  | round {launcher between next : Launcher π μ} {execution : Execution} {more : Bool}
      {log written before after : Log} (explored : Explored program allowance fresh launcher)
      (executed : (execute program allowance).Returns (launcher, log) execution (between, written))
      (few : 2 * execution.statuses.length ≤ wordSize)
      (advanced : advance.Returns (between, before) more (next, after)) :
      Explored program allowance fresh next

/-- The executions of a search are executions of the system of the program. -/
theorem Explored.exists_past
    {settings : Settings} {launcher : Launcher Policy.Search μ} (steady : program.Steady)
    (explored : Explored program allowance (.ofSettings settings) launcher) (number : Nat) :
    ∃ rounds, (program.system (program.root number)).Past settings rounds launcher.policy []
      launcher.policy := by
  induction explored with
  | start same => exact ⟨[], same ▸ past_start⟩
  | @round launcher between next execution more log _ _ _ _ executed few advanced induction =>
      obtain ⟨rounds, past⟩ := induction
      obtain ⟨run, _, ran, finished, -, rfl, same⟩ := execute_returns_iff.mp executed
      cases same
      have reached := Run.reached_complete program allowance.ticks
        (Run.start program launcher.executions launcher.policy) log
      rw [ran] at reached
      rw [steady number launcher.executions] at past ⊢
      have tracks := reached.tracks past (by
        rwa [Run.Roomy, ← Machine.length_statuses])
      obtain ⟨turns, between, ended, finishes⟩ := tracks.exists_over finished
      exact ⟨_, ended.restart finishes (policy_of_advance advanced)⟩

/-- A launcher that has executed programs and prepared executions, any number of times and in any
order, in particular several executions in a row without a preparation in between. The executions
have only so many actors that the numbers of any two can be added. -/
inductive Driven (fresh : π) : Launcher π μ → Prop
  | start {launcher : Launcher π μ} (same : launcher.policy = fresh) : Driven fresh launcher
  | execute {σ : Type} {program : Program σ μ} {allowance : Allowance} {launcher next : Launcher π μ}
      {execution : Execution} {log written : Log} (driven : Driven fresh launcher)
      (executed : (execute program allowance).Returns (launcher, log) execution (next, written))
      (few : 2 * execution.statuses.length ≤ wordSize) : Driven fresh next
  | advance {launcher next : Launcher π μ} {more : Bool} {log written : Log}
      (driven : Driven fresh launcher)
      (advanced : advance.Returns (launcher, log) more (next, written)) : Driven fresh next

/-- A launcher whose scheduler is new, or has prepared the execution that comes next. -/
inductive Prepared (fresh : π) (launcher : Launcher π μ) : Prop
  | start (same : launcher.policy = fresh)
  | advance {before : Launcher π μ} {more : Bool} {log written : Log}
      (advanced : advance.Returns (before, log) more (launcher, written))

/-- An execution under a scheduler that heeds the actors, in particular under any of the policies in
any configuration, in its first execution and in any later one. Only for priorities must the latter
be prepared: if the order is left from an earlier execution, an actor in it may be missing. -/
inductive Obtained (program : Program σ μ) (allowance : Allowance) (execution : Execution) : Prop
  | heedful {π : Type} [Scheduler π] {launcher : Launcher π μ} {log : Log}
      {after : Launcher π μ × Log}
      (heedful : (Run.start program launcher.executions launcher.policy).Heedful program log)
      (executed : (execute program allowance).Returns (launcher, log) execution after)
  | uniform {launcher : Launcher Policy.Uniform μ} {log : Log}
      {after : Launcher Policy.Uniform μ × Log}
      (executed : (execute program allowance).Returns (launcher, log) execution after)
  | priority {settings : Settings} {launcher : Launcher Policy.Priority μ} {log : Log}
      {after : Launcher Policy.Priority μ × Log} (prepared : launcher.Prepared (.ofSettings settings))
      (executed : (execute program allowance).Returns (launcher, log) execution after)
  | search {settings : Settings} {launcher : Launcher Policy.Search μ} {log : Log}
      {after : Launcher Policy.Search μ × Log}
      (driven : launcher.Driven (.ofSettings settings))
      (executed : (execute program allowance).Returns (launcher, log) execution after)
      (few : 2 * execution.statuses.length ≤ wordSize)
  | replay {launcher : Launcher Policy.Replay μ} {log : Log}
      {after : Launcher Policy.Replay μ × Log}
      (executed : (execute program allowance).Returns (launcher, log) execution after)

/-- To execute the program once more with the trace of the execution gives the same outcome, the
same trace and the same statuses. -/
def Reproducible (program : Program σ μ) (allowance : Allowance) (execution : Execution) : Prop :=
  ∀ (replayer : Launcher Policy.Replay μ) (log : Log),
    replayer.policy = .ofTrace execution.trace →
      ∃ replay after, (execute program allowance).Returns (replayer, log) replay after ∧
        replay.outcome = execution.outcome ∧ replay.trace = execution.trace ∧
        replay.statuses = execution.statuses

theorem Prepared.order_eq_nil
    {settings : Settings} {launcher : Launcher Policy.Priority μ}
    (prepared : launcher.Prepared (.ofSettings settings)) : launcher.policy.order = [] := by
  cases prepared with
  | start same => rw [same]; rfl
  | advance advanced =>
      have changed := policy_of_advance advanced
      simp only [Scheduler.advance, change, returns_bind_iff, returns_get_iff, returns_set_iff,
        returns_pure_iff] at changed
      obtain ⟨_, _, ⟨rfl, rfl⟩, _, _, rfl, -, same⟩ := changed
      have policy := congrArg Prod.fst same
      dsimp only at policy
      rw [← policy]
      rfl

section Search

variable {launcher : Launcher Policy.Search μ} {log : Log} {execution : Execution}
  {after : Launcher Policy.Search μ × Log}
  (sound : launcher.policy.schedule.Sound)
  (executed : (execute program allowance).Returns (launcher, log) execution after)
  (few : 2 * execution.statuses.length ≤ wordSize)

include sound executed few

theorem sound_of_execute : after.1.policy.schedule.Sound := by
  obtain ⟨run, _, ran, finished, uncrashed, rfl, rfl⟩ := execute_returns_iff.mp executed
  have reached := Run.reached_complete program allowance.ticks
    (Run.start program launcher.executions launcher.policy) log
  rw [ran] at reached
  rcases reached.guarded (.inl sound) (Machine.sane_start _) (by
    rwa [Run.Roomy, ← Machine.length_statuses]) with sound | ⟨-, crashed⟩
  · exact sound
  · exact absurd uncrashed crashed

theorem heedful_of_execute :
    (Run.start program launcher.executions launcher.policy).Heedful program log := by
  obtain ⟨run, written, ran, finished, -, rfl, -⟩ := execute_returns_iff.mp executed
  refine Run.heedful_search sound fun steps => ?_
  have halted : (((Run.start program launcher.executions launcher.policy).complete program
      allowance.ticks).run log).1.isFinished = true := by
    rw [ran]
    exact Run.isFinished_iff.mpr finished
  have sane : (Machine.start (program.root launcher.executions) : Machine σ μ).Sane :=
    Machine.sane_start _
  have most := Run.size_complete_le sane halted steps
  rw [ran] at most
  rw [show run.machine.summary.statuses.length = _ from Machine.length_statuses run.machine] at few
  exact Nat.le_trans (Nat.mul_le_mul_left 2 most) few

end Search

theorem Driven.sound
    {settings : Settings} {launcher : Launcher Policy.Search μ}
    (driven : launcher.Driven (.ofSettings settings)) :
    launcher.policy.schedule.Sound := by
  induction driven with
  | start same =>
      rw [same]
      nofun
  | execute _ executed few sound => exact sound_of_execute sound executed few
  | advance _ advanced sound =>
      exact Policy.Search.sound_of_advance sound (policy_of_advance advanced)

/-- An execution with an end of its own can be repeated from its trace. -/
theorem reproducible_of_obtained
    {execution : Execution} (steady : program.Steady) (unwinds : program.Unwinds)
    (obtained : Obtained program allowance execution)
    (uncut : execution.outcome = .completed ∨ ∃ error, execution.outcome = .bug error) :
    Reproducible program allowance execution := by
  intro replayer log fresh
  cases obtained with
  | heedful heedful executed =>
      exact exists_replay steady unwinds heedful executed uncut fresh log
  | uniform executed =>
      exact exists_replay steady unwinds (Run.heedful_uniform _) executed uncut fresh log
  | priority prepared executed =>
      have unordered := prepared.order_eq_nil
      exact exists_replay steady unwinds (Run.heedful_priority _ unordered) executed uncut fresh
        log
  | search driven executed few =>
      have heedful := heedful_of_execute driven.sound executed few
      exact exists_replay steady unwinds heedful executed uncut fresh log
  | replay executed =>
      exact exists_replay steady unwinds (Run.heedful_replay _) executed uncut fresh log

/-- A search is executed twice in a row. What it comes to then, a replay of its trace comes to as
well. -/
theorem reproducible_of_obtained_errand :
    let searcher : Launcher Policy.Search Nat := .ofPolicy false (.ofSettings { sleepSets := false })
    ∃ (launcher : Launcher Policy.Search Nat) (first execution : Execution) (log : Log)
      (after : Launcher Policy.Search Nat × Log),
      (execute Errand.program ⟨40, 1⟩).Returns (searcher, .empty .error) first (launcher, log) ∧
      (execute Errand.program ⟨40, 1⟩).Returns (launcher, log) execution after ∧
        execution.trace = ⟨[⟨0⟩, ⟨0⟩, ⟨1⟩, ⟨1⟩, ⟨1⟩, ⟨0⟩, ⟨0⟩]⟩ ∧ execution.outcome = .completed ∧
        Reproducible Errand.program ⟨40, 1⟩ execution := by
  intro searcher
  obtain ⟨last, returned⟩ : ∃ last, Returns (do
        let first ← execute Errand.program ⟨40, 1⟩
        let second ← execute Errand.program ⟨40, 1⟩
        return (first, second))
      (searcher, .empty .error)
      (⟨.completed, ⟨[⟨0⟩, ⟨0⟩, ⟨1⟩, ⟨1⟩, ⟨1⟩, ⟨0⟩, ⟨0⟩]⟩,
          [⟨⟨0⟩, some "main", true, false, [], 0⟩, ⟨⟨1⟩, none, true, false, [], 0⟩], [], 2⟩,
        ⟨.completed, ⟨[⟨0⟩, ⟨0⟩, ⟨1⟩, ⟨1⟩, ⟨1⟩, ⟨0⟩, ⟨0⟩]⟩,
          [⟨⟨0⟩, some "main", true, false, [], 0⟩, ⟨⟨1⟩, none, true, false, [], 0⟩], [], 2⟩) last :=
    ⟨_, returns_of_ok (by decide +kernel)⟩
  simp only [returns_bind_iff, returns_pure_iff] at returned
  obtain ⟨first, ⟨launcher, log⟩, executed, execution, after, again, same, -⟩ := returned
  cases same
  refine ⟨launcher, _, _, log, after, executed, again, rfl, rfl, ?_⟩
  exact reproducible_of_obtained Errand.steady_program Errand.unwinds_program
    (.search (.execute (.start rfl) executed (by decide)) again (by decide)) (.inl rfl)

/-- This scheduler runs only enabled actors, but first answers a deadlock. The trace does not tell
that the root could have gone on. -/
theorem not_reproducible_of_early_deadlock :
    let scripted : Launcher Policy.Scripted Nat := .ofPolicy false (.ofScript [.deadlock])
    (∀ (calls : Nat) (actors : List Snapshot) (next : ActorId),
      ((⟨[.deadlock], calls⟩ : Policy.Scripted).choose actors).1 = .run next →
        ∃ snapshot ∈ actors, snapshot.id = next ∧ snapshot.enabled = true) ∧
      Errand.program.Steady ∧ Errand.program.Unwinds ∧
      ∃ execution after,
        (execute Errand.program ⟨40, 1⟩).Returns (scripted, .empty .error) execution after ∧
          execution.outcome = .bug .deadlock ∧
          ¬ Reproducible Errand.program ⟨40, 1⟩ execution := by
  intro scripted
  refine ⟨?_, Errand.steady_program, Errand.unwinds_program, ?_⟩
  · intro calls actors next runs
    cases calls with
    | zero => cases runs
    | succ calls =>
        change Policy.Scripted.firstEnabled actors = .run next at runs
        unfold Policy.Scripted.firstEnabled at runs
        split at runs
        · rename_i actor found
          cases runs
          exact ⟨actor, List.mem_of_find?_eq_some found, rfl, List.find?_some found⟩
        · cases runs
  · have ok : ((execute Errand.program ⟨40, 1⟩).outcome (scripted, .empty .error)).1.1 =
        .ok ⟨.bug .deadlock, ⟨[]⟩, [⟨⟨0⟩, some "main", false, false, [], 0⟩], [⟨0⟩], 1⟩ := by
      decide +kernel
    have executed := returns_of_ok ok
    refine ⟨_, _, executed, rfl, fun reproducible => ?_⟩
    let replayer : Launcher Policy.Replay Nat := .ofPolicy false (.ofTrace ⟨[]⟩)
    obtain ⟨replay, after, repeated, outcome, -, -⟩ := reproducible replayer (.empty .error) rfl
    have limited : ((execute Errand.program ⟨40, 1⟩).outcome (replayer, .empty .error)).1.1 =
        .ok ⟨.hitStepLimit, ⟨[]⟩, [⟨⟨0⟩, some "main", false, false, [], 0⟩], [], 1⟩ := by
      decide +kernel
    have same := ((returns_of_ok limited).unique repeated).1
    rw [← same] at outcome
    cases outcome

end Launcher

end Interleave
