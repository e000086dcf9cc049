import Interleave.Proofs.Deposits.Auditing
import Interleave.Proofs.Deposits.Handles
import Interleave.Proofs.Scene.Runs

namespace Interleave.Deposits

variable {depositors : Nat} {bank : Bank} {ledger : Ledger} {deeds : List (Deed Body Message)}
  {scene : Scene Body Message} {work : Nat}

/-- Where the bank and the ledger are after these deeds. -/
structure Recounts (depositors : Nat) (bank : Bank) (ledger : Ledger)
    (deeds : List (Deed Body Message)) (scene : Scene Body Message) : Prop where
  tells : Ledger.Tells (deeds.filterMap Event.of?) ledger
  fit : Fit depositors bank ledger
  depicts : Depicts depositors bank scene

def Told (depositors : Nat) (deeds : List (Deed Body Message)) (scene : Scene Body Message)
    (work : Nat) : Prop :=
  ∃ bank ledger, Recounts depositors bank ledger deeds scene ∧ bank.work depositors = work

theorem Recounts.step
    {after : Scene Body Message} {deed : Option (Deed Body Message)}
    (recounts : Recounts depositors bank ledger deeds scene)
    (few : depositors * (depositors + 1) < wordSize)
    (step : scene.Step (program depositors true) deed after) :
    ∃ less < bank.work depositors, Told depositors (deeds ++ deed.toList) after less := by
  obtain ⟨tells, fit, depicts⟩ := recounts
  obtain ⟨next, moved, shown⟩ := exists_continues fit depicts few step
  obtain ⟨later, follows, fits⟩ := fit.exists_follows moved
  refine ⟨_, moved.work_lt fit.ordered.roll, next, later, ⟨?_, fits, shown⟩, rfl⟩
  rw [List.filterMap_append]
  cases deed with
  | none =>
      cases (follows : later = ledger)
      simpa using tells
  | some deed =>
      cases told : Event.of? deed with
      | none =>
          rw [Option.bind_some, told] at follows
          cases (follows : later = ledger)
          simpa [told] using tells
      | some event =>
          rw [Option.bind_some, told] at follows
          have longer : Ledger.Tells _ later := tells.step follows
          simpa [told] using longer

theorem Depicts.gone (depicts : Depicts depositors bank scene)
    (audit : bank.audit = .gone) (keeper : bank.keeper = some .gone)
    (teller : bank.teller = some .gone) (customers : ∀ customer ∈ bank.customers, customer = .gone) :
    ∀ prospect ∈ scene.prospects, prospect = .gone := by
  intro prospect member
  obtain ⟨index, there⟩ := List.mem_iff_getElem?.mp member
  rcases depicts.cast.cases there with ⟨-, same⟩ | ⟨-, known, serves, same⟩ |
    ⟨-, known, serves, same⟩ | ⟨position, customer, -, here, same⟩
  · rw [same, audit]
    rfl
  · cases keeper.symm.trans serves
    exact same
  · cases teller.symm.trans serves
    exact same
  · rw [same, customers customer (List.mem_of_getElem? here)]
    rfl

theorem course_program (few : depositors * (depositors + 1) < wordSize) :
    Course (program depositors true) (depositors + 3) (Told depositors) where
  tame := by
    rintro deeds scene work ⟨bank, ledger, recounts, -⟩
    exact tame_of_depicts recounts.fit recounts.depicts
  few := by
    rintro deeds scene work ⟨bank, ledger, recounts, -⟩
    exact length_of_depicts recounts.fit recounts.depicts
  step := by
    rintro deeds scene _ deed after ⟨bank, ledger, recounts, rfl⟩ step
    exact recounts.step few step
  gone := by
    rintro deeds scene work ⟨bank, ledger, recounts, -⟩ still
    obtain ⟨audit, keeper, teller, -, customers⟩ :=
      recounts.fit.all_gone (stuck_of_still recounts.depicts still)
    exact recounts.depicts.gone audit keeper teller customers

theorem depicts_start (view : View Message) :
    Depicts depositors .start ⟨[.ofAction .root ((program depositors true).resume view
      ((program depositors true).root 0) (.ok .done))], []⟩ := by
  refine ⟨⟨rfl, rfl, rfl, fun _ => rfl⟩, ⟨rfl, rfl, nofun, ?_⟩⟩
  rintro ⟨index⟩ address letter uses
  match index with
  | 0 | 1 | 2 | index + 3 => cases uses

theorem Recounts.balance_of_gone
    (recounts : Recounts depositors bank ledger deeds scene)
    (gone : ∀ prospect ∈ scene.prospects, prospect = .gone) :
    scene.prospects.length = depositors + 3 ∧ ledger = .audited (total depositors) := by
  obtain ⟨-, fit, depicts⟩ := recounts
  have still : scene.Still := by
    intro prospect member
    rw [gone prospect member]
    exact .gone
  obtain ⟨audit, keeper, teller, all, customers⟩ :=
    fit.all_gone (stuck_of_still depicts still)
  refine ⟨by rw [depicts.cast.length (by rw [teller]; rfl), all], ?_⟩
  obtain ⟨balance, rfl⟩ := fit.lawful.reviews.audited.mpr (congrArg Audit.review audit)
  have deposited := fit.balance_of_late audit rfl
  exact congrArg Ledger.audited deposited

/-- The last that is told is the balance at the end. -/
theorem exists_audit {events : List Event} {balance : Nat}
    (tells : Ledger.Tells events (.audited balance)) :
    ∃ before, events = before ++ [.answers .root balance] ∧ lastStored before = balance := by
  cases tells with
  | @step events event ledger _ tells step =>
      cases step
      exact ⟨events, rfl, tells.fits.last⟩

def deadline (depositors : Nat) : Nat := 55 * depositors + 63

section Executions

variable {π : Type} [Scheduler π]

def events (program : Program Body Message) (allowance : Nat) (run : Run π Body Message)
    (log : Log) : List Event :=
  (run.deeds program allowance log).filterMap Event.of?

omit [Scheduler π] in
theorem stands_start (depositors number : Nat) (policy : π) :
    Stands (program depositors true) handles (depositors + 3) (Told depositors) []
      (deadline depositors) (Run.start (program depositors true) number policy).machine := by
  have told : Told depositors []
      ((Run.start (program depositors true) number policy).machine.scene (program depositors true))
        (18 * depositors + 19) :=
    ⟨.start, .free 0, ⟨.start, fit_start depositors, depicts_start _⟩, rfl⟩
  refine .plays (Run.sound_start (discreet_program depositors true) number policy)
    (clean_start _) told ?_
  change 3 * (18 * depositors + 19) + 2 + (depositors + 3) < deadline depositors
  unfold deadline
  omega

/-- The execution is over and completed: all actors have terminated, and none of them was blocked. At
its end the root has been told the sum of all deposits, which is what has been stored last. -/
structure Settled (depositors : Nat) (last : Run π Body Message) (told : List Event) : Prop where
  finished : last.isFinished = true
  completed : ∃ execution, last.machine.result = .ok execution ∧ execution.outcome = .completed ∧
    execution.deadlocked = [] ∧ execution.statuses.length = depositors + 3 ∧
      ∀ status ∈ execution.statuses, status.terminated = true
  balance : ∃ before, told = before ++ [.answers .root (depositors * (depositors + 1) / 2)] ∧
    lastStored before = depositors * (depositors + 1) / 2

/-- Whatever the order in which enabled actors are run, the deposits under the lock are atomic, and the
execution comes to its end in bounded time. -/
theorem atomic_and_settled
    (depositors number : Nat) (few : depositors * (depositors + 1) < wordSize) (policy : π)
    (log : Log)
    (tireless : (Run.start (program depositors true) number policy).Tireless
      (program depositors true) log) :
    let start := Run.start (program depositors true) number policy
    (∀ allowance, Atomic (events (program depositors true) allowance start log)) ∧
      ∀ allowance, deadline depositors ≤ allowance →
        Settled depositors ((start.complete (program depositors true) allowance).run log).1
          (events (program depositors true) allowance start log) := by
  intro start
  have stands := (stands_start depositors number policy).complete (course_program few)
    (discreet_program depositors true) tireless
  simp only [List.nil_append] at stands
  constructor
  · intro allowance
    obtain ⟨scene, work, bank, ledger, recounts, -⟩ := (stands allowance).exists_holds
    exact recounts.tells.atomic
  · intro allowance enough
    have spent := stands allowance
    rw [Nat.sub_eq_zero_of_le enough] at spent
    have finished : ((start.complete (program depositors true) allowance).run
        log).1.machine.control = .finished := by
      by_contra unfinished
      exact Nat.lt_irrefl 0 (spent.budget_pos unfinished)
    obtain ⟨scene, work, told, gone, result, outcome, deadlocked, count, terminated⟩ :=
      spent.exists_result finished
    obtain ⟨bank, ledger, recounts, -⟩ := told
    obtain ⟨all, rfl⟩ := recounts.balance_of_gone gone
    exact ⟨Run.isFinished_iff.mpr finished,
      ⟨_, result, outcome, deadlocked, count.trans all, terminated⟩, exists_audit recounts.tells⟩

end Executions

/-- Two depositors under a scheduler that samples without a limit. -/
theorem atomic_and_settled_two :
    let start := Run.start (program 2 true) 0 (Policy.Uniform.ofSettings { stepLimit := none })
    2 * (2 + 1) < wordSize ∧ start.Tireless (program 2 true) (.empty .trace) ∧
      (∀ allowance, Atomic (events (program 2 true) allowance start (.empty .trace))) ∧
      Settled 2 ((start.complete (program 2 true) (deadline 2)).run (.empty .trace)).1
        (events (program 2 true) (deadline 2) start (.empty .trace)) := by
  intro start
  have few : 2 * (2 + 1) < wordSize := by decide
  have tireless : start.Tireless (program 2 true) (.empty .trace) := Run.tireless_uniform 0 rfl
  obtain ⟨atomic, settled⟩ := atomic_and_settled 2 0 few _ _ tireless
  exact ⟨few, tireless, atomic, settled _ (Nat.le_refl _)⟩

end Interleave.Deposits
