import Interleave.Execution
import Interleave.Proofs.Machine.Unwinding

namespace Interleave

namespace Turn

/-- Only an actor is run that the scheduler was shown to be enabled. -/
def Legal (turn : Turn) : Prop :=
  ∀ next ∈ turn.decision.actor?,
    ∃ snapshot ∈ turn.actors, snapshot.id = next ∧ snapshot.enabled = true

instance (turn : Turn) : Decidable turn.Legal :=
  inferInstanceAs (Decidable (∀ next ∈ turn.decision.actor?,
    ∃ snapshot ∈ turn.actors, snapshot.id = next ∧ snapshot.enabled = true))

end Turn

namespace Machine

variable {σ μ : Type} {machine : Machine σ μ} {id : ActorId}

def crashed (machine : Machine σ μ) (id : ActorId) (fault : Fault) : Machine σ μ :=
  ((machine.crash id fault).run (.empty .trace)).1

theorem crashed_or (machine : Machine σ μ) (id : ActorId) (fault : Fault) :
    machine.crashed id fault = machine.pass (.closing id (.error (.panicked fault.text))) ∨
      (machine.crashed id fault).ended = true := by
  have ended : ∀ machine : Machine σ μ, machine.terminate.handOn.ended = true := by
    intro machine
    obtain ⟨control, same, -⟩ := exists_handOn_eq machine.terminate
    rw [same]
    rfl
  simp only [crashed, crash]
  split
  · exact .inl rfl
  · right
    split
    · exact ended _
    · exact ended _

theorem run_crash (present : id.index < machine.actors.size) (fault : Fault) (log : Log) :
    ((machine.crash id fault).run log).1 = machine.crashed id fault :=
  (leads_crash present fault).unread log _

theorem ended_decided {decision : Decision} (stops : ∀ next, decision ≠ .run next) :
    (machine.decided id decision).ended = true := by
  obtain ⟨blocked, limited, deadlocked, same, -⟩ := exists_decided_eq machine id stops
  rw [same]
  rfl

end Machine

namespace Run

variable {π σ μ : Type} {program : Program σ μ} {run next : Run π σ μ}

theorem isFinished_iff : run.isFinished = true ↔ run.machine.control = .finished := by
  unfold isFinished
  cases run.machine.control with
  | finished => simp
  | _ => simp

variable [Scheduler π]

/-- One step of an execution: a transition, a decision, or a fault of the scheduler. -/
inductive Steps (program : Program σ μ) (run : Run π σ μ) (log : Log) : Run π σ μ → Prop
  | tick (undecided : ∀ id, run.machine.control ≠ .choosing id) :
      Steps program run log { run with machine := run.machine.next program }
  | decide {id : ActorId} {decision : Decision} {policy : π} {written : Log}
      (choosing : run.machine.control = .choosing id)
      (chosen : (Scheduler.choose run.machine.snapshots id : Attempt π Decision).Returns
        (run.policy, log) decision (policy, written)) :
      Steps program run log
        ⟨run.machine.decided id decision, policy,
          run.turns.push ⟨id, run.machine.snapshots, decision⟩⟩
  | fail {id : ActorId} {fault : Fault} {policy : π}
      (choosing : run.machine.control = .choosing id)
      (failed : ((Scheduler.choose run.machine.snapshots id : Attempt π Decision).outcome
        (run.policy, log)).1 = (.error fault, policy)) :
      Steps program run log { run with machine := run.machine.crashed id fault, policy := policy }

theorem steps_step (sane : run.machine.Sane) (log : Log) :
    Steps program run log ((run.step program).run log).1 := by
  cases control : run.machine.control with
  | choosing id =>
      have present := sane.present id (by rw [control]; rfl)
      unfold step
      rw [control]
      simp only [choose, StateT.run_bind]
      cases ran : ((Scheduler.choose run.machine.snapshots id : Attempt π Decision).runOn
          run.policy).run log with
      | mk result written =>
          obtain ⟨result, policy⟩ := result
          cases result with
          | ok decision =>
              have same := Machine.run_decide sane control decision written
              change Steps program run log ⟨((run.machine.decide id decision).run written).1, _, _⟩
              rw [same]
              exact .decide control ran
          | error fault =>
              have same := Machine.run_crash present fault written
              change Steps program run log ⟨((run.machine.crash id fault).run written).1, _, _⟩
              rw [same]
              exact .fail control (congrArg Prod.fst ran)
  | _ =>
      have undecided : ∀ id, run.machine.control ≠ .choosing id := by
        intro id choosing
        rw [control] at choosing
        cases choosing
      have same : ((run.machine.tick program).run log).1 = run.machine.next program :=
        Machine.run_tick sane log
      unfold step
      rw [control]
      change Steps program run log { run with machine := ((run.machine.tick program).run log).1 }
      rw [same]
      exact .tick undecided

theorem Steps.onward
    {log : Log} (steps : Steps program run log next) (sane : run.machine.Sane) :
    Machine.Onward run.machine next.machine := by
  cases steps with
  | tick undecided => exact Machine.onward_next program sane
  | @decide id decision _ _ choosing chosen => exact Machine.onward_decided sane choosing decision
  | @fail id fault _ choosing =>
      exact (Machine.leads_crash (sane.present id (by rw [choosing]; rfl)) fault).onward _

theorem step_of_undecided
    (program : Program σ μ) (undecided : ∀ id, run.machine.control ≠ .choosing id)
    (sane : run.machine.Sane) (log : Log) :
    ((run.step program).run log).1 = { run with machine := run.machine.next program } := by
  have steps : Steps program run log ((run.step program).run log).1 := steps_step sane log
  generalize ((run.step program).run log).1 = next at steps ⊢
  cases steps with
  | tick => rfl
  | decide choosing | fail choosing => exact absurd choosing (undecided _)

theorem step_of_chosen
    {id : ActorId} {decision : Decision} {policy : π} {log written : Log} (program : Program σ μ)
    (choosing : run.machine.control = .choosing id) (sane : run.machine.Sane)
    (chosen : (Scheduler.choose run.machine.snapshots id : Attempt π Decision).Returns
      (run.policy, log) decision (policy, written)) :
    ((run.step program).run log).1 =
      ⟨run.machine.decided id decision, policy,
        run.turns.push ⟨id, run.machine.snapshots, decision⟩⟩ := by
  have steps : Steps program run log ((run.step program).run log).1 := steps_step sane log
  generalize ((run.step program).run log).1 = next at steps ⊢
  cases steps with
  | tick undecided => exact absurd choosing (undecided id)
  | decide control answered =>
      cases choosing.symm.trans control
      obtain ⟨rfl, same⟩ := chosen.unique answered
      cases same
      rfl
  | fail control failed =>
      cases choosing.symm.trans control
      rw [show (Scheduler.choose run.machine.snapshots id : Attempt π Decision).outcome _ = _
        from chosen] at failed
      cases failed

theorem Steps.mem_turns
    {log : Log} {turn : Turn} (steps : Steps program run log next) (member : turn ∈ run.turns) :
    turn ∈ next.turns := by
  cases steps with
  | tick | fail => exact member
  | decide => exact Array.mem_push_of_mem _ member

inductive Reached (program : Program σ μ) (first : Run π σ μ) : Run π σ μ → Prop
  | here : Reached program first first
  | step {run : Run π σ μ} (reached : Reached program first run) (log : Log) :
      Reached program first ((run.step program).run log).1

theorem complete_succ (program : Program σ μ) (allowance : Nat) (run : Run π σ μ) (log : Log) :
    (run.complete program (allowance + 1)).run log =
      if run.isFinished then (run, log)
      else (((run.step program).run log).1.complete program allowance).run
        ((run.step program).run log).2 := by
  simp only [complete]
  split
  · rfl
  · rfl

theorem complete_of_finished {log : Log} (halted : run.isFinished = true) (steps : Nat) :
    (run.complete program steps).run log = (run, log) := by
  cases steps with
  | zero => rfl
  | succ steps => rw [complete_succ, if_pos halted]

theorem complete_add (program : Program σ μ) (first second : Nat) (run : Run π σ μ) (log : Log) :
    (run.complete program (first + second)).run log =
      (((run.complete program first).run log).1.complete program second).run
        ((run.complete program first).run log).2 := by
  induction first generalizing run log with
  | zero =>
      rw [Nat.zero_add]
      rfl
  | succ first induction =>
      rw [Nat.add_right_comm, complete_succ, complete_succ]
      by_cases finished : run.isFinished = true
      · rw [if_pos finished, if_pos finished, complete_of_finished finished]
      · rw [if_neg finished, if_neg finished]
        exact induction _ _

theorem Reached.sane
    {first : Run π σ μ} (reached : Reached program first run) (sane : first.machine.Sane) :
    run.machine.Sane := by
  induction reached with
  | here => exact sane
  | step _ log induction => exact ((steps_step induction log).onward induction).sane induction

theorem Reached.trans {middle : Run π σ μ} (reached : Reached program run middle)
    (rest : Reached program middle next) : Reached program run next := by
  induction rest with
  | here => exact reached
  | step _ log induction => exact .step induction log

theorem complete_of_ended
    (program : Program σ μ) (allowance : Nat) (log : Log) (sane : run.machine.Sane)
    (ended : run.machine.ended = true) :
    ((run.complete program allowance).run log).1 =
      { run with machine := (Machine.next program)^[allowance] run.machine } := by
  induction allowance generalizing run log with
  | zero => rfl
  | succ allowance induction =>
      have onward := Machine.onward_next program sane
      rw [complete_succ]
      split
      · rename_i finished
        rw [Function.iterate_fixed (Machine.next_of_finished program (isFinished_iff.mp finished))]
      · rw [step_of_undecided program (sane.decided ended) sane,
          induction _ (onward.sane sane) (onward.ended ended)]
        rfl

theorem reached_complete (program : Program σ μ) (allowance : Nat) (run : Run π σ μ) (log : Log) :
    Reached program run ((run.complete program allowance).run log).1 := by
  induction allowance generalizing run log with
  | zero => exact .here
  | succ allowance induction =>
      rw [complete_succ]
      split
      · exact .here
      · exact (Reached.step .here log).trans (induction _ _)

def after (first : Run π σ μ) (program : Program σ μ) (log : Log) (steps : Nat) : Run π σ μ :=
  ((first.complete program steps).run log).1

section After

variable {first : Run π σ μ} {log : Log} {early late : Nat}

theorem reached_after (steps : Nat) : Reached program first (first.after program log steps) :=
  reached_complete program steps first log

theorem after_of_finished
    (finished : (first.after program log early).isFinished = true) (le : early ≤ late) :
    first.after program log late = first.after program log early := by
  obtain ⟨more, rfl⟩ := Nat.exists_eq_add_of_le le
  unfold after at finished ⊢
  rw [complete_add, complete_of_finished finished]

theorem reached_after_of_le (le : early ≤ late) :
    Reached program (first.after program log early) (first.after program log late) := by
  obtain ⟨more, rfl⟩ := Nat.exists_eq_add_of_le le
  unfold after
  rw [complete_add]
  exact reached_complete program more _ _

theorem steps_after
    (sane : (first.after program log early).machine.Sane)
    (unfinished : ¬ (first.after program log early).isFinished = true) :
    Steps program (first.after program log early) ((first.complete program early).run log).2
      (first.after program log (early + 1)) := by
  have stepped := complete_succ program 0 (first.after program log early)
    ((first.complete program early).run log).2
  rw [if_neg unfinished] at stepped
  have next : first.after program log (early + 1) =
      (((first.after program log early).step program).run
        ((first.complete program early).run log).2).1 := by
    unfold after at stepped ⊢
    rw [complete_add]
    exact congrArg Prod.fst stepped
  rw [next]
  exact steps_step sane _

theorem machine_after_of_ended
    (sane : (first.after program log early).machine.Sane)
    (ended : (first.after program log early).machine.ended = true) (more : Nat) :
    (first.after program log (early + more)).machine =
      (Machine.next program)^[more] (first.after program log early).machine := by
  unfold after at sane ended ⊢
  rw [complete_add, complete_of_ended program more _ sane ended]

theorem exists_ending_step
    (going : first.machine.ended = false)
    (ended : (first.after program log late).machine.ended = true) :
    ∃ early < late, (first.after program log early).machine.ended = false ∧
      (first.after program log (early + 1)).machine.ended = true := by
  induction late with
  | zero => cases going.symm.trans ended
  | succ late induction =>
      cases before : (first.after program log late).machine.ended with
      | false => exact ⟨late, Nat.lt_succ_self late, before, ended⟩
      | true =>
          obtain ⟨early, earlier, last⟩ := induction before
          exact ⟨early, Nat.lt_succ_of_lt earlier, last⟩

end After

end Run

end Interleave
