import Interleave.Log

namespace Interleave

theorem Checked.bind_eq_ok_iff
    {α β : Type} {value : Except Fault α} {next : α → Except Fault β} {result : β} :
    value >>= next = .ok result ↔ ∃ found, value = .ok found ∧ next found = .ok result := by
  cases value with
  | error fault =>
      constructor
      · intro bound
        cases bound
      · rintro ⟨found, impossible, -⟩
        cases impossible
  | ok value =>
      constructor
      · intro bound
        exact ⟨value, rfl, bound⟩
      · rintro ⟨found, same, bound⟩
        cases same
        exact bound

theorem Checked.bind_eq_error_iff
    {α β : Type} {value : Except Fault α} {next : α → Except Fault β} {fault : Fault} :
    value >>= next = .error fault ↔
      value = .error fault ∨ ∃ found, value = .ok found ∧ next found = .error fault := by
  cases value with
  | error other =>
      constructor
      · intro bound
        cases bound
        exact .inl rfl
      · rintro (same | ⟨found, impossible, -⟩)
        · cases same
          rfl
        · cases impossible
  | ok value =>
      constructor
      · intro bound
        exact .inr ⟨value, rfl, bound⟩
      · rintro (impossible | ⟨found, same, bound⟩)
        · cases impossible
        · cases same
          exact bound

namespace Attempt

variable {σ α β : Type}

def outcome (attempt : Attempt σ α) (before : σ × Log) : (Except Fault α × σ) × Log :=
  (attempt.runOn before.1).run before.2

/-- From a state and a log, the attempt succeeds with a value, and leaves this state and log. -/
def Returns (attempt : Attempt σ α) (before : σ × Log) (value : α) (after : σ × Log) : Prop :=
  attempt.outcome before = ((.ok value, after.1), after.2)

theorem Returns.unique
    {attempt : Attempt σ α} {before after other : σ × Log} {value result : α}
    (first : attempt.Returns before value after)
    (second : attempt.Returns before result other) :
    value = result ∧ after = other := by
  have same := first.symm.trans second
  simp only [Prod.mk.injEq, Except.ok.injEq] at same
  exact ⟨same.1.1, Prod.ext same.1.2 same.2⟩

theorem returns_of_ok
    {attempt : Attempt σ α} {before : σ × Log} {value : α}
    (ok : (attempt.outcome before).1.1 = .ok value) :
    attempt.Returns before value ((attempt.outcome before).1.2, (attempt.outcome before).2) := by
  unfold Returns
  rw [← ok]

theorem returns_of_isOk
    {attempt : Attempt σ Unit} {before : σ × Log}
    (ok : (attempt.outcome before).1.1.isOk = true) :
    attempt.Returns before () ((attempt.outcome before).1.2, (attempt.outcome before).2) := by
  apply returns_of_ok
  generalize attempt.outcome before = result at ok ⊢
  obtain ⟨⟨fault | value, state⟩, log⟩ := result
  · cases ok
  · rfl

@[simp] theorem returns_pure_iff {value result : α} {before after : σ × Log} :
    Returns (pure value) before result after ↔ value = result ∧ before = after := by
  change ((Except.ok value, before.1), before.2) = ((Except.ok result, after.1), after.2) ↔ _
  simp [Prod.ext_iff, and_assoc]

theorem outcome_bind
    (attempt : Attempt σ α) (next : α → Attempt σ β) (before : σ × Log) :
    (attempt >>= next).outcome before =
      match attempt.outcome before with
      | ((.ok value, state), log) => (next value).outcome (state, log)
      | ((.error fault, state), log) => ((.error fault, state), log) := by
  unfold outcome runOn
  rw [ExceptT.run_bind, StateT.run_bind, StateT.run_bind]
  change (match (attempt.run.run before.1).run before.2 with | (result, log) => _) = _
  rcases (attempt.run.run before.1).run before.2 with ⟨⟨fault | value, state⟩, log⟩ <;> rfl

theorem outcome_get_bind (next : σ → Attempt σ β) (before : σ × Log) :
    (get >>= next).outcome before = (next before.1).outcome before := by
  rw [outcome_bind]
  rfl

theorem outcome_modify_bind
    (change : σ → σ) (next : PUnit → Attempt σ β) (before : σ × Log) :
    (modify change >>= next).outcome before = (next ⟨⟩).outcome (change before.1, before.2) := by
  rw [outcome_bind]
  rfl

theorem outcome_lift (value : Except Fault α) (before : σ × Log) :
    (liftM value : Attempt σ α).outcome before = ((value, before.1), before.2) := by
  cases value with
  | ok | error => rfl

theorem outcome_within
    {τ : Type} (part : τ) (whole : τ → σ) (attempt : Attempt τ α) (before : σ × Log) :
    (within part whole attempt).outcome before =
      (((attempt.outcome (part, before.2)).1.1, whole (attempt.outcome (part, before.2)).1.2),
        (attempt.outcome (part, before.2)).2) := by
  rcases worked : attempt.outcome (part, before.2) with ⟨⟨result, changed⟩, log⟩
  change (ofExcept (attempt.outcome (part, before.2)).1.1 : Attempt σ α).outcome
    (whole (attempt.outcome (part, before.2)).1.2, (attempt.outcome (part, before.2)).2) = _
  rw [worked]
  cases result with
  | ok | error => rfl

theorem exists_of_returns_within
    {τ : Type} {part : τ} {whole : τ → σ} {attempt : Attempt τ α} {value : α}
    {before after : σ × Log} (returned : (within part whole attempt).Returns before value after) :
    ∃ changed, whole changed = after.1 ∧
      attempt.Returns (part, before.2) value (changed, after.2) := by
  rw [Returns, outcome_within] at returned
  simp only [Prod.mk.injEq] at returned
  obtain ⟨⟨answered, same⟩, written⟩ := returned
  refine ⟨_, same, ?_⟩
  rw [Returns, ← answered, ← written]

theorem returns_bind_iff
    {attempt : Attempt σ α} {next : α → Attempt σ β} {result : β}
    {before after : σ × Log} :
    Returns (attempt >>= next) before result after ↔
      ∃ value between, Returns attempt before value between ∧
        Returns (next value) between result after := by
  unfold Returns
  rw [outcome_bind]
  rcases attempt.outcome before with ⟨⟨fault | value, state⟩, log⟩
  · simp
  · constructor
    · intro returned
      exact ⟨value, (state, log), rfl, returned⟩
    · rintro ⟨_, _, first, second⟩
      simp only [Prod.mk.injEq, Except.ok.injEq] at first
      obtain ⟨⟨rfl, rfl⟩, rfl⟩ := first
      exact second

@[simp] theorem returns_throw_iff
    {fault : Fault} {result : α} {before after : σ × Log} :
    Returns (throw fault : Attempt σ α) before result after ↔ False := by
  change ((Except.error fault, before.1), before.2) = ((Except.ok result, after.1), after.2) ↔ _
  simp

@[simp] theorem returns_get_iff {result : σ} {before after : σ × Log} :
    Returns (get : Attempt σ σ) before result after ↔ before.1 = result ∧ before = after := by
  change ((Except.ok before.1, before.1), before.2) = ((Except.ok result, after.1), after.2) ↔ _
  simp [Prod.ext_iff, and_assoc]

@[simp] theorem returns_set_iff {state : σ} {result : PUnit} {before after : σ × Log} :
    Returns (set state : Attempt σ PUnit) before result after ↔ (state, before.2) = after := by
  change ((Except.ok PUnit.unit, state), before.2) = ((Except.ok result, after.1), after.2) ↔ _
  simp [Prod.ext_iff]

@[simp] theorem returns_modify_iff {change : σ → σ} {result : PUnit} {before after : σ × Log} :
    Returns (modify change : Attempt σ PUnit) before result after ↔
      (change before.1, before.2) = after := by
  change ((Except.ok PUnit.unit, change before.1), before.2) =
    ((Except.ok result, after.1), after.2) ↔ _
  simp [Prod.ext_iff]

@[simp] theorem returns_log_iff {event : Event} {result : Unit} {before after : σ × Log} :
    Returns (log event : Attempt σ Unit) before result after ↔
      (before.1, before.2.add event) = after := by
  change ((Except.ok (), before.1), before.2.add event) =
    ((Except.ok result, after.1), after.2) ↔ _
  simp [Prod.ext_iff]

@[simp] theorem returns_ofExcept_iff
    {value : Except Fault α} {result : α} {before after : σ × Log} :
    Returns (ofExcept value : Attempt σ α) before result after ↔
      value = .ok result ∧ before = after := by
  cases value with
  | ok value => simp [ofExcept]
  | error fault => simp [ofExcept]

@[simp] theorem returns_lift_iff
    {value : Except Fault α} {result : α} {before after : σ × Log} :
    Returns (liftM value : Attempt σ α) before result after ↔
      value = .ok result ∧ before = after :=
  returns_ofExcept_iff

@[simp] theorem returns_tryChange_iff
    {step : σ → Except Fault (α × σ)} {result : α} {before after : σ × Log} :
    Returns (tryChange step) before result after ↔
      step before.1 = .ok (result, after.1) ∧ before.2 = after.2 := by
  simp only [tryChange, returns_bind_iff, returns_get_iff, returns_ofExcept_iff, returns_set_iff,
    returns_pure_iff]
  constructor
  · rintro ⟨_, _, ⟨rfl, rfl⟩, ⟨value, state⟩, _, ⟨changed, rfl⟩, _, _, rfl, rfl, rfl⟩
    exact ⟨changed, rfl⟩
  · rintro ⟨changed, same⟩
    exact ⟨_, _, ⟨rfl, rfl⟩, _, _, ⟨changed, rfl⟩, ⟨⟩, after,
      Prod.ext rfl same, rfl, rfl⟩

theorem returns_liftLog_iff
    {work : StateM Log β} {result : β} {before after : σ × Log} :
    Returns (liftM work : Attempt σ β) before result after ↔
      work.run before.2 = (result, after.2) ∧ before.1 = after.1 := by
  change ((Except.ok (work.run before.2).1, before.1), (work.run before.2).2) =
    ((Except.ok result, after.1), after.2) ↔ _
  rcases ran : work.run before.2 with ⟨value, log⟩
  constructor
  · intro same
    simp only [Prod.mk.injEq, Except.ok.injEq] at same
    obtain ⟨⟨rfl, state⟩, rfl⟩ := same
    exact ⟨rfl, state⟩
  · rintro ⟨same, state⟩
    cases same
    rw [state]

section Fails

/-- From a state and a log, the attempt stops at the fault. -/
def Fails (attempt : Attempt σ α) (before : σ × Log) (fault : Fault) : Prop :=
  (attempt.outcome before).1.1 = .error fault

variable {before : σ × Log} {fault : Fault}

theorem Returns.not_fails
    {attempt : Attempt σ α} {value : α} {after : σ × Log}
    (returned : attempt.Returns before value after) : ¬ attempt.Fails before fault := by
  intro fails
  rw [Fails, returned] at fails
  cases fails

theorem returns_or_fails (attempt : Attempt σ α) (before : σ × Log) :
    (∃ value after, attempt.Returns before value after) ∨ ∃ fault, attempt.Fails before fault := by
  unfold Returns Fails
  rcases attempt.outcome before with ⟨⟨fault | value, state⟩, log⟩
  · exact .inr ⟨fault, rfl⟩
  · exact .inl ⟨value, (state, log), rfl⟩

theorem fails_bind_iff {attempt : Attempt σ α} {next : α → Attempt σ β} :
    Fails (attempt >>= next) before fault ↔
      attempt.Fails before fault ∨
        ∃ value between, Returns attempt before value between ∧
          Fails (next value) between fault := by
  unfold Fails Returns
  rw [outcome_bind]
  rcases attempt.outcome before with ⟨⟨other | value, state⟩, log⟩
  · simp
  · constructor
    · intro failed
      exact .inr ⟨value, (state, log), rfl, failed⟩
    · rintro (failed | ⟨_, _, first, second⟩)
      · cases failed
      · simp only [Prod.mk.injEq, Except.ok.injEq] at first
        obtain ⟨⟨rfl, rfl⟩, rfl⟩ := first
        exact second

@[simp] theorem fails_pure_iff {value : α} :
    Fails (pure value : Attempt σ α) before fault ↔ False :=
  iff_false_intro fun failed => nomatch failed

@[simp] theorem fails_get_iff : Fails (get : Attempt σ σ) before fault ↔ False :=
  iff_false_intro fun failed => nomatch failed

@[simp] theorem fails_set_iff {state : σ} :
    Fails (set state : Attempt σ PUnit) before fault ↔ False :=
  iff_false_intro fun failed => nomatch failed

@[simp] theorem fails_modify_iff {change : σ → σ} :
    Fails (modify change : Attempt σ PUnit) before fault ↔ False :=
  iff_false_intro fun failed => nomatch failed

@[simp] theorem fails_log_iff {event : Event} :
    Fails (log event : Attempt σ Unit) before fault ↔ False :=
  iff_false_intro fun failed => nomatch failed

@[simp] theorem fails_lift_iff {value : Except Fault α} :
    Fails (liftM value : Attempt σ α) before fault ↔ value = .error fault := by
  rw [Fails, outcome_lift]

@[simp] theorem fails_ofExcept_iff {value : Except Fault α} :
    Fails (ofExcept value : Attempt σ α) before fault ↔ value = .error fault :=
  fails_lift_iff

@[simp] theorem fails_liftLog_iff {work : StateM Log β} :
    Fails (liftM work : Attempt σ β) before fault ↔ False :=
  iff_false_intro fun failed => nomatch failed

@[simp] theorem fails_tryChange_iff {step : σ → Except Fault (α × σ)} :
    Fails (tryChange step) before fault ↔ step before.1 = .error fault := by
  simp only [tryChange, fails_bind_iff, fails_get_iff, returns_get_iff, fails_ofExcept_iff,
    fails_set_iff, fails_pure_iff, false_or, and_false, exists_false, or_false]
  constructor
  · rintro ⟨_, _, ⟨rfl, rfl⟩, failed⟩
    exact failed
  · intro failed
    exact ⟨_, _, ⟨rfl, rfl⟩, failed⟩

end Fails

/-- What one round of a loop over consecutive numbers keeps, the whole loop keeps. -/
theorem returns_loop
    {body : Nat → Attempt σ Unit} {motive : Nat → σ × Log → Prop}
    {first count : Nat} {result : PUnit} {before after : σ × Log}
    (returned :
      Returns (forIn (List.range' first count) PUnit.unit fun step _ => do
        body step
        pure (ForInStep.yield PUnit.unit)) before result after)
    (start : motive first before)
    (round : ∀ step between next, first ≤ step → step < first + count →
      motive step between → Returns (body step) between () next → motive (step + 1) next) :
    motive (first + count) after := by
  induction count generalizing first before with
  | zero =>
      simp only [List.range'_zero, List.forIn_nil, returns_pure_iff] at returned
      obtain ⟨-, rfl⟩ := returned
      exact start
  | succ count induction =>
      simp only [List.range'_succ, List.forIn_cons, returns_bind_iff, returns_pure_iff]
        at returned
      obtain ⟨_, _, ⟨_, next, worked, rfl, rfl⟩, rest⟩ := returned
      have once := round first before next (Nat.le_refl first) (by omega) start worked
      rw [show first + (count + 1) = first + 1 + count by omega]
      apply induction rest once
      intro step between next lower upper
      exact round step between next (by omega) (by omega)

end Attempt

end Interleave
