import Interleave.Demo.Deposits

/-!
The lock and the account, told as one story: one depositor after the other gets the lock, learns the
balance, stores a new one and releases the lock.
-/

namespace Interleave.Deposits

inductive Event
  | grants (client : ActorId)
  | answers (client : ActorId) (balance : Nat)
  | stores (client : ActorId) (amount : Nat)
  | releases (client : ActorId)
deriving DecidableEq

/-- What a depositor adds to the balance: the root and the two servers come before the first. -/
def deposit (client : ActorId) : Nat := client.index - 2

/-- The balance that has been stored last. -/
def lastStored (events : List Event) : Nat :=
  events.foldl (fun last event => match event with | .stores _ amount => amount | _ => last) 0

/-- The lock has been granted to the client, and not released since. -/
def Holds (events : List Event) (client : ActorId) : Prop :=
  ∃ before after, events = before ++ .grants client :: after ∧ .releases client ∉ after

def Informed (events : List Event) (client : ActorId) (balance : Nat) : Prop :=
  ∃ before after, events = before ++ .answers client balance :: after ∧
    ∀ other amount, .stores other amount ∉ after

/-- At most one client holds the lock, and only the holder stores a balance; an answer is up to date;
and the first balance that is stored after an answer comes from the client that got it, and adds the
deposit of that client. -/
structure Atomic (events : List Event) : Prop where
  exclusive : ∀ first second, Holds events first → Holds events second → first = second
  guarded : ∀ before client amount after, events = before ++ .stores client amount :: after →
    Holds before client
  current : ∀ before client balance after, events = before ++ .answers client balance :: after →
    balance = lastStored before
  undisturbed : ∀ before client balance other amount after, Informed before client balance →
    events = before ++ .stores other amount :: after →
      other = client ∧ amount = balance + deposit client

/-- How far the deposit of the holder of the lock has come, with the balance. After the audit nobody
gets the lock any more. -/
inductive Ledger
  | free (balance : Nat)
  | granted (client : ActorId) (balance : Nat)
  | answered (client : ActorId) (balance : Nat)
  | stored (client : ActorId) (balance : Nat)
  | audited (balance : Nat)

namespace Ledger

def balance : Ledger → Nat
  | free balance | granted _ balance | answered _ balance | stored _ balance
  | audited balance => balance

def holder? : Ledger → Option ActorId
  | free _ | audited _ => none
  | granted client _ | answered client _ | stored client _ => some client

inductive Step : Ledger → Event → Ledger → Prop
  | grant (client : ActorId) (balance : Nat) :
      Step (free balance) (.grants client) (granted client balance)
  | answer (client : ActorId) (balance : Nat) :
      Step (granted client balance) (.answers client balance) (answered client balance)
  | store (client : ActorId) (balance : Nat) :
      Step (answered client balance) (.stores client (balance + deposit client))
        (stored client (balance + deposit client))
  | release (client : ActorId) (balance : Nat) :
      Step (stored client balance) (.releases client) (free balance)
  | audit (balance : Nat) : Step (free balance) (.answers .root balance) (audited balance)

inductive Tells : List Event → Ledger → Prop
  | start : Tells [] (free 0)
  | step {events : List Event} {event : Event} {ledger next : Ledger}
      (tells : Tells events ledger) (step : Step ledger event next) : Tells (events ++ [event]) next

end Ledger

section Snoc

variable {events before after : List Event} {event last : Event} {client : ActorId} {balance : Nat}

theorem concat_split (split : events ++ [last] = before ++ event :: after) :
    events = before ∧ last = event ∧ after = [] ∨
      ∃ rest, events = before ++ event :: rest ∧ after = rest ++ [last] := by
  rcases List.eq_nil_or_concat after with rfl | ⟨rest, final, rfl⟩
  · obtain ⟨same, final⟩ := List.append_inj' split rfl
    exact .inl ⟨same, List.singleton_inj.mp final, rfl⟩
  · rw [List.concat_eq_append, ← List.cons_append, ← List.append_assoc] at split
    obtain ⟨same, final⟩ := List.append_inj' split rfl
    cases List.singleton_inj.mp final
    exact .inr ⟨rest, same, List.concat_eq_append⟩

theorem holds_concat_iff : Holds (events ++ [last]) client ↔
    last = .grants client ∨ Holds events client ∧ last ≠ .releases client := by
  constructor
  · rintro ⟨before, after, split, kept⟩
    rcases concat_split split with ⟨-, same, -⟩ | ⟨rest, known, rfl⟩
    · exact .inl same
    · simp only [List.mem_append, List.mem_singleton, not_or] at kept
      exact .inr ⟨⟨before, rest, known, kept.1⟩, fun same => kept.2 same.symm⟩
  · rintro (rfl | ⟨⟨before, after, rfl, kept⟩, differs⟩)
    · exact ⟨events, [], rfl, List.not_mem_nil⟩
    · refine ⟨before, after ++ [last], by simp, ?_⟩
      simp only [List.mem_append, List.mem_singleton, not_or]
      exact ⟨kept, fun same => differs same.symm⟩

theorem informed_concat
    (informed : Informed (events ++ [last]) client balance) :
    last = .answers client balance ∨
      Informed events client balance ∧ ∀ other amount, last ≠ .stores other amount := by
  obtain ⟨before, after, split, quiet⟩ := informed
  rcases concat_split split with ⟨-, same, -⟩ | ⟨rest, known, rfl⟩
  · exact .inl same
  · simp only [List.mem_append, List.mem_singleton, not_or] at quiet
    exact .inr ⟨⟨before, rest, known, fun other amount => (quiet other amount).1⟩,
      fun other amount same => (quiet other amount).2 same.symm⟩

theorem lastStored_concat (events : List Event) (last : Event) :
    lastStored (events ++ [last]) =
      match last with | .stores _ amount => amount | _ => lastStored events := by
  unfold lastStored
  rw [List.foldl_append]
  cases last <;> rfl

end Snoc

namespace Ledger

variable {events : List Event} {ledger : Ledger}

structure Fits (events : List Event) (ledger : Ledger) : Prop where
  holds : ∀ client, Holds events client ↔ ledger.holder? = some client
  informed : ∀ client balance, Informed events client balance →
    ledger = answered client balance ∨ client = .root ∧ ledger = audited balance
  last : lastStored events = ledger.balance

theorem Tells.fits (tells : Tells events ledger) : Fits events ledger := by
  induction tells with
  | start =>
      refine ⟨fun client => ⟨?_, nofun⟩, ?_, rfl⟩
      · rintro ⟨before, after, split, -⟩
        simp at split
      · rintro client balance ⟨before, after, split, -⟩
        simp at split
  | @step events event ledger next tells step fits =>
      have holds : ∀ client, Holds (events ++ [event]) client ↔ event = .grants client ∨
          ledger.holder? = some client ∧ event ≠ .releases client := by
        intro client
        rw [holds_concat_iff, fits.holds]
      have last := lastStored_concat events event
      rw [fits.last] at last
      have informed : ∀ client balance, Informed (events ++ [event]) client balance →
          event = .answers client balance ∨ (ledger = answered client balance ∨
            client = .root ∧ ledger = audited balance) ∧
              ∀ other amount, event ≠ .stores other amount := by
        intro client balance informed
        exact (informed_concat informed).imp_right fun known =>
          ⟨fits.informed client balance known.1, known.2⟩
      refine ⟨fun client => (holds client).trans ?_, ?_, last.trans ?_⟩
      · cases step <;> simp [holder?, eq_comm]
      · intro client balance known
        have known := informed client balance known
        cases step <;> simp_all
      · cases step <;> rfl

namespace Tells

variable {before after : List Event} {client other : ActorId} {balance amount : Nat}

theorem guarded
    (tells : Tells events ledger) (split : events = before ++ .stores client amount :: after) :
    Holds before client := by
  induction tells generalizing after with
  | start => simp at split
  | @step events event ledger next tells step induction =>
      rcases concat_split split with ⟨rfl, rfl, -⟩ | ⟨rest, known, -⟩
      · cases step with
        | store => exact (tells.fits.holds _).mpr rfl
      · exact induction known

theorem current
    (tells : Tells events ledger) (split : events = before ++ .answers client balance :: after) :
    balance = lastStored before := by
  induction tells generalizing after with
  | start => simp at split
  | @step events event ledger next tells step induction =>
      rcases concat_split split with ⟨rfl, rfl, -⟩ | ⟨rest, known, -⟩
      · cases step with
        | answer | audit => exact tells.fits.last.symm
      · exact induction known

theorem undisturbed
    (tells : Tells events ledger) (informed : Informed before client balance)
    (split : events = before ++ .stores other amount :: after) :
    other = client ∧ amount = balance + deposit client := by
  induction tells generalizing after with
  | start => simp at split
  | @step events event ledger next tells step induction =>
      rcases concat_split split with ⟨rfl, rfl, -⟩ | ⟨rest, known, -⟩
      · cases step with
        | store holder stored =>
            rcases tells.fits.informed client balance informed with same | ⟨-, same⟩
            · cases same
              exact ⟨rfl, rfl⟩
            · cases same
      · exact induction known

/-- Between the moments at which the lock is free, the story is that of a single deposit. -/
theorem atomic (tells : Tells events ledger) : Atomic events := by
  refine ⟨?_, fun _ _ _ _ => tells.guarded, fun _ _ _ _ => tells.current,
    fun _ _ _ _ _ _ => tells.undisturbed⟩
  intro first second one other
  have known := (tells.fits.holds first).mp one
  exact Option.some.inj (known.symm.trans ((tells.fits.holds second).mp other))

end Tells

end Ledger

end Interleave.Deposits
