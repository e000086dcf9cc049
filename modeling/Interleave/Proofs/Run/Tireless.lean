import Interleave.Proofs.Run.Answers

namespace Interleave

/-- The answer of a scheduler that never gives up: it runs somebody who is enabled, and there is a
deadlock only where nobody is. -/
def Presses (actors : List Snapshot) : Except Fault Decision → Prop
  | .ok (.run next) => ∃ snapshot ∈ actors, snapshot.id = next ∧ snapshot.enabled = true
  | .ok .deadlock => ∀ snapshot ∈ actors, snapshot.enabled = false
  | .ok .sleepSetBlocked | .ok .hitStepLimit | .error _ => False

namespace Policy.Uniform

variable {policy : Uniform}

theorem exists_pick_eq (policy : Uniform) (choices : List Snapshot) :
    ∃ source, (policy.pick choices).2 = { policy with source := source } := by
  simp only [pick]
  split
  · exact ⟨_, rfl⟩
  · exact ⟨policy.source, rfl⟩

theorem choose_of_unlimited (unlimited : policy.stepLimit = none) (actors : List Snapshot) :
    policy.choose actors = { policy with steps := policy.steps + 1 }.pick
      (Snapshot.enabledPreferring preferred actors) := by
  simp [choose, unlimited]

theorem presses_choose (unlimited : policy.stepLimit = none) (actors : List Snapshot) :
    Presses actors (.ok (policy.choose actors).1) := by
  have fits := fits_choose actors policy
  have uncut : (policy.choose actors).1 ≠ .hitStepLimit := by
    rw [choose_of_unlimited unlimited]
    simp only [pick]
    split <;> simp
  cases chosen : (policy.choose actors).1 with
  | run next | deadlock =>
      rw [chosen] at fits
      exact fits
  | sleepSetBlocked => exact choose_ne_sleepSetBlocked actors policy chosen
  | hitStepLimit => exact uncut chosen

theorem unlimited_choose (unlimited : policy.stepLimit = none) (actors : List Snapshot) :
    (policy.choose actors).2.stepLimit = none := by
  rw [choose_of_unlimited unlimited]
  obtain ⟨source, same⟩ := exists_pick_eq { policy with steps := policy.steps + 1 }
    (Snapshot.enabledPreferring preferred actors)
  rw [same]
  exact unlimited

end Policy.Uniform

namespace Run

variable {π σ μ : Type} {program : Program σ μ} {log : Log}

section Tireless

variable [Scheduler π] {run : Run π σ μ}

def Pressing (run : Run π σ μ) (log : Log) : Prop :=
  ∀ id, run.machine.control = .choosing id →
    Presses run.machine.snapshots
      ((Scheduler.choose run.machine.snapshots id : Attempt π Decision).outcome
        (run.policy, log)).1.1

def Tireless (program : Program σ μ) (run : Run π σ μ) (log : Log) : Prop :=
  ∀ steps, Pressing ((run.complete program steps).run log).1 ((run.complete program steps).run log).2

theorem Tireless.step
    (tireless : run.Tireless program log) (unfinished : ¬ run.isFinished = true) :
    ((run.step program).run log).1.Tireless program ((run.step program).run log).2 := by
  intro steps
  have later := tireless (steps + 1)
  rw [complete_succ, if_neg unfinished] at later
  exact later

theorem Pressing.decides
    {id : ActorId} (pressing : run.Pressing log) (choosing : run.machine.control = .choosing id)
    (sane : run.machine.Sane) (program : Program σ μ) :
    (∃ next, run.machine.Enables next ∧
      ((run.step program).run log).1.machine = run.machine.decided id (.run next)) ∨
      (∀ snapshot ∈ run.machine.snapshots, snapshot.enabled = false) ∧
        ((run.step program).run log).1.machine = run.machine.decided id .deadlock := by
  have presses := pressing id choosing
  cases answer : (Scheduler.choose run.machine.snapshots id : Attempt π Decision).outcome
      (run.policy, log) with
  | mk result written =>
      obtain ⟨result, policy⟩ := result
      rw [answer] at presses
      cases result with
      | error => cases presses
      | ok decision =>
          have step := step_of_chosen program choosing sane answer
          cases decision with
          | run next =>
              left
              refine ⟨next, presses, ?_⟩
              rw [step]
          | deadlock =>
              right
              refine ⟨presses, ?_⟩
              rw [step]
          | sleepSetBlocked | hitStepLimit => cases presses

end Tireless

theorem Steps.unlimited
    {run next : Run Policy.Uniform σ μ} (steps : Steps program run log next)
    (unlimited : run.policy.stepLimit = none) : next.policy.stepLimit = none := by
  have kept := Policy.Uniform.unlimited_choose unlimited run.machine.snapshots
  cases steps with
  | tick => exact unlimited
  | @decide id decision policy written choosing chosen =>
      have same : (run.policy.choose run.machine.snapshots).2 = policy :=
        congrArg (fun outcome => outcome.1.2) chosen
      rw [← same]
      exact kept
  | @fail id fault policy choosing failed =>
      have same : (run.policy.choose run.machine.snapshots).2 = policy := congrArg Prod.snd failed
      rw [← same]
      exact kept

theorem tireless_uniform
    {policy : Policy.Uniform} (number : Nat) (unlimited : policy.stepLimit = none) :
    (start program number policy).Tireless program log := by
  have kept : ∀ run, Reached program (start program number policy) run →
      run.policy.stepLimit = none := by
    intro run reached
    induction reached with
    | here => exact unlimited
    | step reached log induction =>
        have sane := reached.sane (Machine.sane_start (program.root number))
        exact (steps_step sane log).unlimited induction
  intro steps id choosing
  exact Policy.Uniform.presses_choose (kept _ (reached_complete program steps _ log)) _

end Run

end Interleave
