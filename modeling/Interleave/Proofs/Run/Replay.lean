import Interleave.Exploration
import Interleave.Proofs.Machine.Footprint
import Interleave.Proofs.Run.Answers

/-!
Repeating a recorded execution. Both executions go on in lockstep while the trace lasts. After it
the repetition ends as a deadlock or at the step limit, whichever the actors suggest, and this is how
the recorded execution ended, or it makes no difference because of a bug.
-/

namespace Interleave

/-- The execution has come to its own end. -/
def Outcome.Uncut (outcome : Outcome) : Prop :=
  outcome ≠ .sleepSetBlocked ∧ outcome ≠ .hitStepLimit

namespace Machine

variable {σ μ : Type} {program : Program σ μ} {machine other : Machine σ μ} {id next : ActorId}

theorem crashes_crashed {fault : Fault} (engine : fault.isEngine = true) (id : ActorId) :
    (machine.crashed id fault).crashes ≠ [] := by
  rw [crashed, crashes_crash machine id engine]
  exact List.cons_ne_nil _ _

theorem ended_crashed {fault : Fault} (engine : fault.isEngine = true) (id : ActorId) :
    (machine.crashed id fault).ended = true := by
  rcases crashed_or machine id fault with closes | ended
  · have same := congrArg Machine.crashes closes
    rw [crashed, crashes_crash machine id engine] at same
    exact absurd same (List.cons_ne_self _ _)
  · exact ended

/-- The same machine, but for the reasons for its end if it has a bug. -/
inductive Alike : Machine σ μ → Machine σ μ → Prop
  | same {machine : Machine σ μ} : Alike machine machine
  | recast {machine : Machine σ μ} {blocked limited others limits : Bool}
      {deadlocked dead : List ActorId} (found : machine.bug.isSome = true) :
      Alike (machine.recast blocked limited deadlocked) (machine.recast others limits dead)

theorem outcome_recast
    {error : ActorError} (found : machine.bug = some error) (blocked limited : Bool)
    (deadlocked : List ActorId) :
    (machine.recast blocked limited deadlocked).outcome = .bug error := by
  simp only [outcome, recast, found]

theorem Alike.outcome_eq (alike : machine.Alike other) : other.outcome = machine.outcome := by
  cases alike with
  | same => rfl
  | recast found =>
      obtain ⟨error, found⟩ := Option.isSome_iff_exists.mp found
      rw [outcome_recast found, outcome_recast found]

theorem Alike.control_eq (alike : machine.Alike other) : other.control = machine.control := by
  cases alike with
  | same | recast => rfl

theorem Alike.crashes_eq (alike : machine.Alike other) : other.crashes = machine.crashes := by
  cases alike with
  | same | recast => rfl

theorem Alike.trace_eq (alike : machine.Alike other) : other.trace = machine.trace := by
  cases alike with
  | same | recast => rfl

theorem Alike.statuses_eq (alike : machine.Alike other) : other.statuses = machine.statuses := by
  cases alike with
  | same | recast => rfl

theorem trace_iterate (program : Program σ μ) (machine : Machine σ μ) (count : Nat) :
    ((Machine.next program)^[count] machine).trace = machine.trace := by
  induction count with
  | zero => rfl
  | succ count induction => rw [Function.iterate_succ_apply', trace_next, induction]

theorem bug_of_uncut
    {blocked limited : Bool} {deadlocked : List ActorId}
    (uncut : (machine.recast blocked limited deadlocked).outcome.Uncut)
    (cut : blocked = true ∨ limited = true) : machine.bug.isSome = true := by
  cases bug : machine.bug with
  | some error => rfl
  | none =>
      simp only [outcome, recast, bug] at uncut
      cases blocked with
      | true => exact absurd rfl uncut.1
      | false =>
          cases limited with
          | true => exact absurd rfl uncut.2
          | false => simp at cut

/-- An execution that was cut but has a bug might as well have ended for another reason. -/
theorem alike_of_cut
    {decision verdict : Decision} (unwinds : program.Unwinds) (sane : machine.Sane)
    (choosing : machine.control = .choosing id) (ends : ∀ next, verdict ≠ .run next)
    (cut : decision = .sleepSetBlocked ∨ decision = .hitStepLimit) (count : Nat)
    (uncut : ((Machine.next program)^[count] (machine.decided id decision)).outcome.Uncut) :
    ((Machine.next program)^[count] (machine.decided id decision)).Alike
      ((Machine.next program)^[count] (machine.decided id verdict)) := by
  have stops : ∀ next, decision ≠ .run next := by
    intro next same
    rw [same] at cut
    rcases cut with impossible | impossible <;> cases impossible
  have sound := (onward_decided sane choosing decision).sane sane
  have well := (onward_decided sane choosing verdict).sane sane
  obtain ⟨blocked, limited, deadlocked, first, blocks, limits⟩ := exists_decided_eq machine id stops
  obtain ⟨others, bounds, dead, second, -⟩ := exists_decided_eq machine id ends
  rw [first] at uncut sound ⊢
  rw [second] at well ⊢
  have marked : blocked = true ∨ limited = true := cut.imp blocks limits
  have concluded := concluded_recast machine id blocked limited deadlocked (.inr marked)
  rw [concluded.iterate_eq unwinds sound, iterate_unwound_recast] at uncut ⊢
  have found := bug_of_uncut uncut marked
  have bug : machine.bug.isSome = true := by
    rw [bug_iterate_unwound] at found
    exact found
  have concluded := concluded_recast machine id others bounds dead (.inl bug)
  rw [concluded.iterate_eq unwinds well, iterate_unwound_recast]
  exact .recast found

/-- However the recorded execution ended after its last turn, the repetition ends alike. -/
theorem alike_of_stop
    {decision : Decision} (unwinds : program.Unwinds) (sane : machine.Sane)
    (choosing : machine.control = .choosing id) (stops : ∀ next, decision ≠ .run next)
    (fits : Fits machine.snapshots (.ok decision)) (count : Nat)
    (uncut : ((Machine.next program)^[count] (machine.decided id decision)).outcome.Uncut) :
    ((Machine.next program)^[count] (machine.decided id decision)).Alike
      ((Machine.next program)^[count]
        (machine.decided id (Policy.Replay.atEnd machine.snapshots))) := by
  have ends := Policy.Replay.atEnd_ne_run machine.snapshots
  cases decision with
  | run next => exact absurd rfl (stops next)
  | deadlock =>
      rw [Policy.Replay.atEnd_eq_deadlock_iff.mpr fits]
      exact .same
  | sleepSetBlocked => exact alike_of_cut unwinds sane choosing ends (.inl rfl) count uncut
  | hitStepLimit => exact alike_of_cut unwinds sane choosing ends (.inr rfl) count uncut

end Machine

namespace Run

open Machine

variable {π σ μ : Type} {program : Program σ μ} {run next last : Run π σ μ}
  {again : Run Policy.Replay σ μ} {trace : Trace} {log : Log} {allowance : Nat}

/-- The second run is where the first one is, and repeats what comes next in the trace. -/
structure Repeats (trace : Trace) (run : Run π σ μ) (again : Run Policy.Replay σ μ) : Prop where
  machine : again.machine = run.machine
  policy : again.policy = ⟨trace, run.machine.trace.size⟩

/-- An execution has come to this end with the trace. -/
structure Records (trace : Trace) (last : Machine σ μ) : Prop where
  trace : last.trace.toList = trace.steps
  uncrashed : last.crashes = []
  uncut : last.outcome.Uncut

namespace Repeats

variable {id actor : ActorId} {policy : π} {turns : Array Turn} (repeats : Repeats trace run again)
  (sane : run.machine.Sane) (log : Log)

include repeats sane

theorem tick (undecided : ∀ id, run.machine.control ≠ .choosing id) :
    Repeats trace { run with machine := run.machine.next program }
      ((again.step program).run log).1 := by
  obtain ⟨machine, placed⟩ := repeats
  rw [← machine] at undecided sane
  rw [step_of_undecided program undecided sane log]
  refine ⟨congrArg (Machine.next program) machine, ?_⟩
  simp only [trace_next]
  exact placed

theorem step_of_answer
    {decision : Decision} {position : Nat} (choosing : run.machine.control = .choosing id)
    (answers : (Policy.Replay.choose run.machine.snapshots).Returns
      (⟨trace, run.machine.trace.size⟩, log) decision (⟨trace, position⟩, log)) :
    ∃ turns, ((again.step program).run log).1 =
      ⟨run.machine.decided id decision, ⟨trace, position⟩, turns⟩ := by
  obtain ⟨machine, placed⟩ := repeats
  rw [← machine] at choosing sane
  rw [← placed, ← machine] at answers
  exact ⟨_, by rw [step_of_chosen program choosing sane answers, machine]⟩

theorem choose (choosing : run.machine.control = .choosing id) (enables : run.machine.Enables actor)
    (recorded : trace.steps[run.machine.trace.size]? = some actor) :
    Repeats trace ⟨run.machine.decided id (.run actor), policy, turns⟩
      ((again.step program).run log).1 := by
  obtain ⟨snapshot, listed, rfl, enabled⟩ := enables
  have follows := Policy.Replay.follow_of_enabled (numbered_snapshots _) listed enabled
    (run.machine.trace.size + 1)
  obtain ⟨turns, same⟩ : ∃ turns, ((again.step program).run log).1 = _ :=
    repeats.step_of_answer sane log choosing
      ((Policy.Replay.outcome_choose_of_recorded recorded log).trans (by rw [follows]))
  rw [same]
  refine ⟨rfl, ?_⟩
  simp only [trace_decided_run, Array.size_push]

end Repeats

variable [Scheduler π]

theorem Steps.trace_grows (steps : Steps program run log next) :
    run.machine.trace.toList <+: next.machine.trace.toList := by
  cases steps with
  | tick undecided =>
      exact ⟨[], by rw [List.append_nil, trace_next]⟩
  | @decide id decision policy written choosing chosen =>
      by_cases runs : ∃ target, decision = .run target
      · obtain ⟨target, rfl⟩ := runs
        rw [trace_decided_run, Array.toList_push]
        exact List.prefix_append _ _
      · have tacit := tacit_decided run.machine id fun target same => runs ⟨target, same⟩
        exact ⟨[], by rw [List.append_nil, tacit.trace]⟩
  | @fail id fault policy choosing failed =>
      have same : (run.machine.crashed id fault).trace = _ := (tacit_crash _ id fault _).trace
      exact ⟨[], by rw [List.append_nil, same]⟩

theorem Reached.onward
    {first : Run π σ μ} (reached : Reached program first run) (sane : first.machine.Sane) :
    Onward first.machine run.machine := by
  induction reached with
  | here => exact .refl _
  | step reached log induction =>
      exact induction.trans ((steps_step (reached.sane sane) log).onward (reached.sane sane))

theorem Reached.trace_grows
    {first : Run π σ μ} (reached : Reached program first run) (sane : first.machine.Sane) :
    first.machine.trace.toList <+: run.machine.trace.toList := by
  induction reached with
  | here => exact List.prefix_rfl
  | step reached log induction =>
      exact induction.trans (steps_step (reached.sane sane) log).trace_grows

theorem alike_complete
    (other : Log) (unwinds : program.Unwinds) (sane : run.machine.Sane)
    (heedful : run.Heedful program log) (repeats : Repeats trace run again)
    (records : Records trace ((run.complete program allowance).run log).1.machine) :
    ((run.complete program allowance).run log).1.machine.Alike
      ((again.complete program allowance).run other).1.machine := by
  induction allowance generalizing run again log other with
  | zero =>
      rw [show ((again.complete program 0).run other).1.machine = _ from repeats.machine]
      exact .same
  | succ allowance induction =>
      have heeds : Heeds run log := heedful 0
      have together : again.isFinished = run.isFinished := by
        unfold isFinished
        rw [repeats.machine]
      rw [complete_succ] at records ⊢
      rw [complete_succ, together]
      by_cases finished : run.isFinished = true
      · rw [if_pos finished, if_pos finished, repeats.machine]
        exact .same
      rw [if_neg finished] at records ⊢
      rw [if_neg finished]
      have heedful := heedful.step finished
      have steps : Steps program run log ((run.step program).run log).1 := steps_step sane log
      have sound := (steps.onward sane).sane sane
      have reached := reached_complete program allowance ((run.step program).run log).1
        ((run.step program).run log).2
      generalize ((run.step program).run log).1 = next at *
      generalize ((run.step program).run log).2 = written at *
      cases steps with
      | tick undecided => exact induction _ sound heedful (repeats.tick sane other undecided) records
      | @fail id fault policy choosing failed =>
          have engine := heeds id choosing
          rw [failed] at engine
          exact absurd records.uncrashed
            ((reached.onward sound).crashes (crashes_crashed engine id))
      | @decide id decision policy _ choosing chosen =>
          have fits := heeds id choosing
          rw [show (Scheduler.choose run.machine.snapshots id : Attempt π Decision).outcome _ = _
            from chosen] at fits
          by_cases runs : ∃ actor, decision = .run actor
          · obtain ⟨actor, rfl⟩ := runs
            have recorded : trace.steps[run.machine.trace.size]? = some actor := by
              obtain ⟨rest, same⟩ := reached.trace_grows sound
              rw [← records.trace, ← same, trace_decided_run]
              simp
            exact induction _ sound heedful (repeats.choose sane other choosing fits recorded) records
          · -- The trace is over, so the repetition stops here too.
            have stops : ∀ actor, decision ≠ .run actor := fun actor same => runs ⟨actor, same⟩
            have ends := Policy.Replay.atEnd_ne_run run.machine.snapshots
            rw [complete_of_ended program allowance written sound (ended_decided stops)]
              at records ⊢
            have beyond : trace.steps[run.machine.trace.size]? = none := by
              rw [← records.trace, trace_iterate, (tacit_decided run.machine id stops).trace]
              simp
            obtain ⟨turns, same⟩ : ∃ turns, ((again.step program).run other).1 = _ :=
              repeats.step_of_answer sane other choosing
                (Policy.Replay.outcome_choose_of_over beyond other)
            have well := (onward_decided sane choosing
              (Policy.Replay.atEnd run.machine.snapshots)).sane sane
            rw [same, complete_of_ended program allowance _ well (ended_decided ends)]
            exact alike_of_stop unwinds sane choosing stops fits allowance records.uncut

end Run

namespace Machine

variable {σ μ : Type} {machine : Machine σ μ} {execution : Execution}

theorem result_eq_ok_iff :
    machine.result = .ok execution ↔ machine.crashes = [] ∧ machine.summary = execution := by
  unfold result crash?
  cases machine.crashes with
  | nil => simp
  | cons first rest => simp

end Machine

namespace Launcher

open Attempt

variable {π σ μ : Type} {program : Program σ μ} {allowance : Allowance} {execution : Execution}
  [Scheduler π]

theorem execute_returns_iff {launcher : Launcher π μ} {log : Log} {after : Launcher π μ × Log} :
    (execute program allowance).Returns (launcher, log) execution after ↔
      ∃ run written, ((Run.start program launcher.executions launcher.policy).complete program
          allowance.ticks).run log = (run, written) ∧
        run.machine.control = .finished ∧ run.machine.crashes = [] ∧
        run.machine.summary = execution ∧
        (launcher.add run.policy ⟨run.turns.toList, run.machine.notes.toList⟩, written) = after := by
  simp only [execute, returns_bind_iff, returns_get_iff, returns_liftLog_iff, returns_set_iff]
  constructor
  · intro executed
    obtain ⟨_, _, ⟨rfl, rfl⟩, run, between, ⟨ran, kept⟩, _, _, rfl, worked⟩ := executed
    refine ⟨run, between.2, ran, ?_⟩
    split at worked
    · obtain ⟨_, _, impossible, -⟩ := returns_bind_iff.mp worked
      exact (returns_throw_iff.mp impossible).elim
    · rename_i finished
      obtain ⟨result, same⟩ := returns_lift_iff.mp worked
      obtain ⟨uncrashed, summary⟩ := Machine.result_eq_ok_iff.mp result
      exact ⟨Run.isFinished_iff.mp (by simpa using finished), uncrashed, summary, same⟩
  · intro executed
    obtain ⟨run, written, ran, finished, uncrashed, summary, same⟩ := executed
    refine ⟨_, _, ⟨rfl, rfl⟩, run, (launcher, written), ⟨ran, rfl⟩, ⟨⟩, _, rfl, ?_⟩
    have halted : run.isFinished = true := Run.isFinished_iff.mpr finished
    simp only [halted]
    exact returns_lift_iff.mpr ⟨Machine.result_eq_ok_iff.mpr ⟨uncrashed, summary⟩, same⟩

/-- To execute a program once more with the trace of an execution that was not cut gives the same
outcome, the same trace and the same statuses. -/
theorem exists_replay
    {launcher : Launcher π μ} {replayer : Launcher Policy.Replay μ} {after : Launcher π μ × Log}
    {log : Log} (steady : program.Steady) (unwinds : program.Unwinds)
    (heedful : (Run.start program launcher.executions launcher.policy).Heedful program log)
    (executed : (execute program allowance).Returns (launcher, log) execution after)
    (uncut : execution.outcome = .completed ∨ ∃ error, execution.outcome = .bug error)
    (fresh : replayer.policy = .ofTrace execution.trace) (other : Log) :
    ∃ replay last, (execute program allowance).Returns (replayer, other) replay last ∧
      replay.outcome = execution.outcome ∧ replay.trace = execution.trace ∧
      replay.statuses = execution.statuses := by
  obtain ⟨run, written, ran, finished, uncrashed, rfl, -⟩ := execute_returns_iff.mp executed
  have records : Run.Records run.machine.summary.trace
      ((Run.start program launcher.executions launcher.policy).complete program
        allowance.ticks |>.run log).1.machine := by
    rw [ran]
    refine ⟨rfl, uncrashed, ?_⟩
    rcases uncut with completed | ⟨error, bug⟩
    · rw [show run.machine.outcome = _ from completed]
      exact ⟨nofun, nofun⟩
    · rw [show run.machine.outcome = _ from bug]
      exact ⟨nofun, nofun⟩
  have repeats : Run.Repeats run.machine.summary.trace
      (Run.start program launcher.executions launcher.policy)
      (Run.start program replayer.executions replayer.policy) := by
    refine ⟨?_, fresh⟩
    rw [Run.start, Run.start, steady replayer.executions launcher.executions]
  have sane : (Run.start program launcher.executions launcher.policy).machine.Sane :=
    Machine.sane_start (program.root launcher.executions)
  have alike := Run.alike_complete other unwinds sane heedful repeats records
  rw [ran] at alike
  refine ⟨_, _, execute_returns_iff.mpr ⟨_, _, rfl, ?_, ?_, rfl, rfl⟩, ?_, ?_, ?_⟩
  · exact alike.control_eq.trans finished
  · exact alike.crashes_eq.trans uncrashed
  · exact alike.outcome_eq
  · exact congrArg (fun trace => Trace.mk trace.toList) alike.trace_eq
  · exact alike.statuses_eq

end Launcher

end Interleave
