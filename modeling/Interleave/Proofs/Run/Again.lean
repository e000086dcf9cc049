import Interleave.Proofs.Run.Launches

namespace Interleave

namespace Policy.Search

open Attempt

variable {policy again next : Search} {base : List Frame} {settings : Settings}
  {actors : List Snapshot} {current : ActorId} {decision : Decision} {log written : Log}

/-- The second search is where the first one is, but above these frames. -/
structure Atop (base : List Frame) (policy again : Search) : Prop where
  kin : policy.Kin again
  stacked : ∃ stack, policy.schedule = .ofStack stack stack.length ∧
    again.schedule = .ofStack (stack ++ base) (stack ++ base).length

structure Settled (settings : Settings) (base : List Frame) (policy : Search) : Prop where
  kin : (ofSettings settings).Kin policy
  stacked : policy.schedule = .ofStack base base.length

theorem Settled.atop (settled : Settled settings base again) :
    Atop base (.ofSettings settings) again :=
  ⟨settled.kin, [], rfl, settled.stacked⟩

theorem Atop.exists_settled
    (atop : Atop base policy again) (kin : (ofSettings settings).Kin policy) :
    ∃ whole, Settled settings whole again := by
  obtain ⟨stack, -, stacked⟩ := atop.stacked
  exact ⟨stack ++ base, kin.trans atop.kin, stacked⟩

theorem Systematic.of_kin (systematic : policy.Systematic) (kin : policy.Kin next) :
    next.Systematic :=
  ⟨kin.randomized.trans systematic.orderly, kin.stepLimit.trans systematic.unlimited⟩

/-- Without sleep sets, what is below the new frame does not matter. -/
theorem Atop.choose
    (atop : Atop base policy again) (systematic : policy.Systematic)
    (wakeful : policy.sleepSets = false)
    (chosen : (choose actors current).Returns (policy, log) decision (next, written))
    (other : Log) :
    ∃ after, (Search.choose actors current).Returns (again, other) decision (after, other) ∧
      Atop base next after ∧ policy.Kin next := by
  obtain ⟨stack, first, second⟩ := atop.stacked
  have also := systematic.of_kin atop.kin
  have awake := atop.kin.sleepSets.trans wakeful
  have opening : again.opening (stack ++ base) actors = policy.opening stack actors := by
    simp only [Search.opening, awake, wakeful]
    rfl
  have marked (frame : Frame) : again.marked current frame = policy.marked current frame := by
    simp only [Search.marked, atop.kin.reduction]
  obtain ⟨frame, changed, marks, picks, same⟩ := (systematic.free.choose_new_iff systematic.orderly
    first (fun sleeps => absurd (wakeful.symm.trans sleeps) Bool.false_ne_true)
    fun _ marks => selections_of_marked marks selections_opening).mp chosen
  cases same
  refine ⟨again.withSchedule (.ofStack (changed :: (stack ++ base)) ((stack ++ base).length + 1)),
    (also.free.choose_new_iff also.orderly second
      (fun sleeps => absurd (awake.symm.trans sleeps) Bool.false_ne_true)
      fun _ marks => selections_of_marked marks selections_opening).mpr
        ⟨frame, changed, ?_, picks, rfl⟩, ?_, kin_withSchedule policy _⟩
  · rw [opening, marked]
    exact marks
  · exact ⟨⟨atop.kin.reduction, atop.kin.sleepSets, atop.kin.randomized, atop.kin.stepLimit⟩,
      changed :: stack, rfl, rfl⟩

end Policy.Search

namespace Run

open Attempt Machine

variable {σ μ : Type} {program : Program σ μ} {body : σ} {settings : Settings}
  {rounds : List Policy.Search.Round} {policy : Policy.Search} {base : List Frame}
  {run again : Run Policy.Search σ μ} {log : Log} {allowance : Nat}

structure Atop (settings : Settings) (base : List Frame) (run again : Run Policy.Search σ μ) :
    Prop where
  machine : again.machine = run.machine
  policy : Policy.Search.Atop base run.policy again.policy
  kin : (Policy.Search.ofSettings settings).Kin run.policy

section Wakeful

variable (orderly : settings.randomized = false) (wakeful : settings.sleepSets = false)
  (unlimited : settings.stepLimit = none)

include orderly wakeful unlimited

theorem Atop.step
    (atop : Atop settings base run again)
    (tracks : Tracks program body settings rounds policy run) (sane : run.machine.Sane)
    (roomy : run.Roomy) (log other : Log) :
    Atop settings base ((run.step program).run log).1 ((again.step program).run other).1 := by
  have same := atop.machine
  have steps : Steps program run log ((run.step program).run log).1 := steps_step sane log
  generalize ((run.step program).run log).1 = next at steps ⊢
  cases steps with
  | tick undecided =>
      rw [← same] at undecided sane
      rw [step_of_undecided program undecided sane other]
      exact ⟨congrArg (Machine.next program) same, atop.policy, atop.kin⟩
  | @decide id decision policy written choosing chosen =>
      have systematic : run.policy.Systematic :=
        ⟨atop.kin.randomized.trans orderly, atop.kin.stepLimit.trans unlimited⟩
      obtain ⟨after, answers, still, kin⟩ :=
        atop.policy.choose systematic (atop.kin.sleepSets.trans wakeful) chosen other
      rw [← same] at choosing sane answers
      rw [step_of_chosen program choosing sane answers]
      exact ⟨by rw [same], still, atop.kin.trans kin⟩
  | @fail id fault policy choosing failed =>
      obtain ⟨decision, after, chosen⟩ := tracks.exists_choice sane roomy choosing log
      exact absurd (congrArg Prod.fst failed) chosen.not_fails

theorem atop_complete
    (atop : Atop settings base run again)
    (tracks : Tracks program body settings rounds policy run) (sane : run.machine.Sane)
    (log other : Log) (roomy : ((run.complete program allowance).run log).1.Roomy) :
    Atop settings base ((run.complete program allowance).run log).1
      ((again.complete program allowance).run other).1 := by
  induction allowance generalizing run again log other with
  | zero => exact atop
  | succ allowance induction =>
      have together : again.isFinished = run.isFinished := by
        unfold isFinished
        rw [atop.machine]
      have whole := (reached_complete program (allowance + 1) run log).onward sane
      have now : run.Roomy := Nat.le_trans (Nat.mul_le_mul_left 2 whole.size) roomy
      rw [complete_succ] at roomy ⊢
      rw [complete_succ, together]
      by_cases finished : run.isFinished = true
      · rw [if_pos finished, if_pos finished]
        exact atop
      · rw [if_neg finished] at roomy ⊢
        rw [if_neg finished]
        have steps : Steps program run log _ := steps_step sane log
        exact induction (atop.step orderly wakeful unlimited tracks sane now log other)
          (steps.tracks tracks sane now) ((steps.onward sane).sane sane) _ _ roomy

end Wakeful

end Run

namespace Launcher

open Attempt

variable {π σ μ : Type} {program : Program σ μ} {allowance : Allowance} {settings : Settings}
  {execution : Execution}

/-- After executions in a row, without the preparation of the next one in between. -/
inductive Executed [Scheduler π] (program : Program σ μ) (allowance : Allowance)
    (launcher : Launcher π μ) : Launcher π μ → Prop
  | once {next : Launcher π μ} {execution : Execution} {log written : Log}
      (executed : (execute program allowance).Returns (launcher, log) execution (next, written))
      (few : 2 * execution.statuses.length ≤ wordSize) : Executed program allowance launcher next
  | again {between next : Launcher π μ} {execution : Execution} {log written : Log}
      (before : Executed program allowance launcher between)
      (executed : (execute program allowance).Returns (between, log) execution (next, written)) :
      Executed program allowance launcher next

section Search

variable {fresh launcher between : Launcher Policy.Search μ}
  {after : Launcher Policy.Search μ × Log} {base : List Frame} {log : Log}

theorem Explored.exists_settled
    (steady : program.Steady) (explored : launcher.Explored program allowance (.ofSettings settings))
    (executed : (execute program allowance).Returns (launcher, log) execution after)
    (few : 2 * execution.statuses.length ≤ wordSize) :
    ∃ base, Policy.Search.Settled settings base after.1.policy := by
  obtain ⟨rounds, past⟩ := explored.exists_past steady launcher.executions
  obtain ⟨run, _, ran, finished, -, rfl, rfl⟩ := execute_returns_iff.mp executed
  have reached := Run.reached_complete program allowance.ticks
    (Run.start program launcher.executions launcher.policy) log
  rw [ran] at reached
  have tracks := reached.tracks past (by rwa [Run.Roomy, ← Machine.length_statuses])
  obtain ⟨turns, between, ended, finishes⟩ := tracks.exists_over finished
  obtain ⟨kept, stack, whole, stays, -, kin, stacked, -⟩ := ended.ends finishes
  exact ⟨whole, stays.kin.trans kin, stacked⟩

variable (steady : program.Steady) (orderly : settings.randomized = false)
  (wakeful : settings.sleepSets = false) (unlimited : settings.stepLimit = none)
  (new : fresh.policy = .ofSettings settings)
  (first : (execute program allowance).Returns (fresh, log) execution after)
  (few : 2 * execution.statuses.length ≤ wordSize)

include steady orderly wakeful unlimited new first few

theorem returns_of_settled
    (settled : Policy.Search.Settled settings base between.policy) (other : Log) :
    ∃ later, (execute program allowance).Returns (between, other) execution later ∧
      ∃ whole, Policy.Search.Settled settings whole later.1.policy := by
  obtain ⟨run, written, ran, finished, uncrashed, rfl, -⟩ := execute_returns_iff.mp first
  have begins : Run.Atop settings base (Run.start program fresh.executions fresh.policy)
      (Run.start program between.executions between.policy) := by
    refine ⟨?_, new ▸ settled.atop, new ▸ .refl _⟩
    exact congrArg Machine.start (steady between.executions fresh.executions)
  have tracks : Run.Tracks program (program.root fresh.executions) settings [] fresh.policy
      (Run.start program fresh.executions fresh.policy) :=
    Run.tracks_start (new ▸ TransitionSystem.past_start)
  have ends := Run.atop_complete orderly wakeful unlimited begins tracks (Machine.sane_start _) log
    other (by rw [ran]; rwa [Run.Roomy, ← Machine.length_statuses])
  rw [ran] at ends
  cases repeats : ((Run.start program between.executions between.policy).complete program
      allowance.ticks).run other with
  | mk last rest =>
      rw [repeats] at ends
      have same : last.machine = run.machine := ends.machine
      refine ⟨_, execute_returns_iff.mpr ⟨last, rest, repeats, ?_, ?_, ?_, rfl⟩,
        ends.policy.exists_settled ends.kin⟩
      · rw [same, finished]
      · rw [same, uncrashed]
      · rw [same]

theorem exists_settled_of_executed
    (explored : launcher.Explored program allowance (.ofSettings settings))
    (executed : Executed program allowance launcher between) :
    ∃ base, Policy.Search.Settled settings base between.policy := by
  induction executed with
  | once executed few => exact explored.exists_settled steady executed few
  | @again between next _ log written before executed induction =>
      obtain ⟨base, settled⟩ := induction
      obtain ⟨later, repeated, still⟩ := returns_of_settled steady orderly wakeful unlimited new
        first few settled log
      rw [(repeated.unique executed).2] at still
      exact still

/-- Whatever a search without sleep sets and without a step limit has explored: to execute once more
without the preparation of the next execution gives what the first execution of a new search gives,
however often that is done. In a search that is new itself, it gives the same as its execution. The
exploration that follows is not the same: the frames of every further execution lie above those of
the ones before it, and all of them are taken for one execution. -/
theorem returns_again_of_executed
    (explored : launcher.Explored program allowance (.ofSettings settings))
    (executed : Executed program allowance launcher between) (other : Log) :
    ∃ later, (execute program allowance).Returns (between, other) execution later := by
  obtain ⟨base, settled⟩ := exists_settled_of_executed steady orderly wakeful unlimited new first few
    explored executed
  obtain ⟨later, repeated, -⟩ :=
    returns_of_settled steady orderly wakeful unlimited new first few settled other
  exact ⟨later, repeated⟩

end Search

/-- After the second execution of a search, another one in a row gives the first one again. -/
theorem returns_again_of_executed_errand :
    let settings : Settings := { reduction := false, sleepSets := false, stepLimit := none }
    ∃ (launcher between : Launcher Policy.Search Nat) (execution repeated : Execution)
      (log written : Log) (later : Launcher Policy.Search Nat × Log),
      launcher.Explored Errand.program ⟨40, 1⟩ (.ofSettings settings) ∧
      (execute Errand.program ⟨40, 1⟩).Returns (launcher, log) execution (between, written) ∧
      execution.trace = ⟨[⟨0⟩, ⟨1⟩, ⟨0⟩, ⟨1⟩, ⟨1⟩, ⟨0⟩, ⟨0⟩]⟩ ∧
      (execute Errand.program ⟨40, 1⟩).Returns (between, written) repeated later ∧
      repeated.trace = ⟨[⟨0⟩, ⟨0⟩, ⟨1⟩, ⟨1⟩, ⟨1⟩, ⟨0⟩, ⟨0⟩]⟩ := by
  intro settings
  obtain ⟨last, returned⟩ : ∃ last, Returns (do
        let first ← execute Errand.program ⟨40, 1⟩
        let _ ← advance
        let second ← execute Errand.program ⟨40, 1⟩
        return (first, second))
      (.ofPolicy false (.ofSettings settings : Policy.Search), .empty .error)
      (⟨.completed, ⟨[⟨0⟩, ⟨0⟩, ⟨1⟩, ⟨1⟩, ⟨1⟩, ⟨0⟩, ⟨0⟩]⟩,
          [⟨⟨0⟩, some "main", true, false, [], 0⟩, ⟨⟨1⟩, none, true, false, [], 0⟩], [], 2⟩,
        ⟨.completed, ⟨[⟨0⟩, ⟨1⟩, ⟨0⟩, ⟨1⟩, ⟨1⟩, ⟨0⟩, ⟨0⟩]⟩,
          [⟨⟨0⟩, some "main", true, false, [], 0⟩, ⟨⟨1⟩, none, true, false, [], 0⟩], [], 2⟩) last :=
    ⟨_, returns_of_ok (by decide +kernel)⟩
  simp only [returns_bind_iff, returns_pure_iff] at returned
  obtain ⟨execution, ⟨ended, _⟩, first, more, ⟨prepared, log⟩, advanced, again, ⟨between, written⟩,
    second, same, -⟩ := returned
  cases same
  have explored : Explored Errand.program ⟨40, 1⟩ (.ofSettings settings) prepared :=
    .round (.start rfl) first (by decide) advanced
  obtain ⟨later, repeated⟩ := returns_again_of_executed Errand.steady_program rfl rfl rfl rfl first
    (by decide) explored (.once second (by decide)) written
  exact ⟨prepared, between, _, _, log, written, later, explored, second, rfl, repeated, rfl⟩

end Launcher

end Interleave
