import Interleave.Proofs.Race.Precedence

namespace Interleave

theorem le_toNat_max_iff (step : Nat) (left right : UInt32) :
    step ≤ (max left right).toNat ↔ step ≤ left.toNat ∨ step ≤ right.toNat := by
  have max_eq : max left right = if left ≤ right then right else left := rfl
  rw [max_eq]
  split
  · rename_i le
    rw [UInt32.le_iff_toNat_le] at le
    omega
  · rename_i le
    rw [UInt32.le_iff_toNat_le] at le
    omega

theorem Latest.assign_eq_ok
    {latest changed : Latest} {key step : Nat}
    (assigned : latest.assign key step = .ok changed) : changed = latest.set key step := by
  unfold assign at assigned
  obtain ⟨-, -, assigned⟩ := Checked.bind_eq_ok_iff.mp assigned
  cases assigned
  rfl

namespace Schedule

/-- Of the steps that have been selected, the clock covers those of the past and no others. -/
def Knows (schedule : Schedule) (clock : Clock) (past : Nat → Prop) : Prop :=
  ∀ earlier actor, schedule.ActsAt actor earlier →
    (earlier ≤ (clock.get actor.index).toNat ↔ past earlier)

namespace Knows

variable {schedule : Schedule} {clock other : Clock} {past also : Nat → Prop}

theorem of_zero (zero : ∀ actor, clock.get actor = 0) :
    schedule.Knows clock fun _ => False := by
  intro earlier actor acts
  have positive := Schedule.ActsAt.positive acts
  rw [zero]
  simp only [UInt32.toNat_zero, iff_false]
  omega

theorem congr (knows : schedule.Knows clock past) (same : ∀ step, past step ↔ also step) :
    schedule.Knows clock also := by
  intro earlier actor acts
  rw [knows earlier actor acts, same]

theorem join (knows : schedule.Knows clock past) (knowsOther : schedule.Knows other also) :
    schedule.Knows (clock.join other) fun step => past step ∨ also step := by
  intro earlier actor acts
  rw [Clock.get_join, le_toNat_max_iff, knows earlier actor acts, knowsOther earlier actor acts]

theorem set
    {actor : ActorId} {step : Nat}
    (knows : schedule.Knows clock past) (acts : schedule.ActsAt actor step)
    (short : step < 2 ^ 32) (below : ∀ earlier, past earlier → earlier < step)
    (covered : ∀ earlier, schedule.ActsAt actor earlier → earlier < step → past earlier) :
    schedule.Knows (clock.set actor.index (.ofNat step))
      fun earlier => earlier = step ∨ past earlier := by
  intro earlier owner ownerActs
  rw [Clock.get_set]
  by_cases same : owner = actor
  · subst same
    rw [if_pos rfl, UInt32.toNat_ofNat_of_lt' short]
    constructor
    · intro le
      rcases Nat.lt_or_eq_of_le le with lt | equal
      · exact .inr (covered earlier ownerActs lt)
      · exact .inl equal
    · rintro (rfl | before)
      · exact Nat.le_refl _
      · exact Nat.le_of_lt (below earlier before)
  · have differs : owner.index ≠ actor.index := fun equal => same (ActorId.ext_iff.mpr equal)
    have notStep : earlier ≠ step := by
      rintro rfl
      exact same (ownerActs.unique acts)
    rw [if_neg differs, knows earlier owner ownerActs]
    simp [notStep]

end Knows

theorem exists_isLatest (property : Nat → Prop) (bound : Nat) :
    ∃ latest, IsLatest property (bound + 1) latest := by
  induction bound with
  | zero => exact ⟨0, .zero property⟩
  | succ bound induction =>
      by_cases holds : property (bound + 1)
      · exact ⟨bound + 1, .succ_of_holds holds⟩
      · obtain ⟨latest, isLatest⟩ := induction
        exact ⟨latest, isLatest.succ_of_not holds⟩

/-- If the latest step of a kind precedes each step of the kind, an earlier one reaches a later one. -/
theorem reaches_of_repeated
    {schedule : Schedule} {property : Nat → Prop}
    (precedes : ∀ earlier later, property later → 0 < earlier → IsLatest property later earlier →
      schedule.Precedes earlier later)
    {earlier later : Nat} (positive : 0 < earlier) (first : property earlier)
    (second : property later) (le : earlier ≤ later) : schedule.Reaches earlier later := by
  induction later using Nat.strongRecOn with
  | ind later induction =>
      rcases Nat.lt_or_eq_of_le le with lt | rfl
      · obtain ⟨latest, isLatest⟩ := exists_isLatest property (later - 1)
        rw [Nat.sub_add_cancel (Nat.lt_of_lt_of_le positive le)] at isLatest
        have between := isLatest.le_of_holds lt first
        have somewhere : 0 < latest := Nat.lt_of_lt_of_le positive between
        exact (induction latest isLatest.1 (isLatest.holds somewhere) between).tail
          (precedes latest later second somewhere isLatest)
      · exact .refl

theorem reaches_of_acts
    {schedule : Schedule} {actor : ActorId} {earlier later : Nat}
    (first : schedule.ActsAt actor earlier) (second : schedule.ActsAt actor later)
    (le : earlier ≤ later) : schedule.Reaches earlier later :=
  reaches_of_repeated (fun _ _ acts positive latest => .program acts positive latest)
    first.positive first second le

theorem reaches_of_life
    {schedule : Schedule} {target earlier later : Nat} (positive : 0 < earlier)
    (first : schedule.lifeTarget? earlier = some target)
    (second : schedule.lifeTarget? later = some target) (le : earlier ≤ later) :
    schedule.Reaches earlier later :=
  reaches_of_repeated (fun _ _ touches somewhere latest => .life touches somewhere latest)
    positive first second le

end Schedule

namespace Causality

def clockAt (causality : Causality) (step : Nat) : Clock :=
  causality.clocks[step - 1]?.getD (.zero 0)

variable {causality changed : Causality}

theorem clock_eq_ok_iff {step : Nat} {clock : Clock} :
    causality.clock step = .ok clock ↔
      0 < step ∧ step ≤ causality.clocks.size ∧ causality.clockAt step = clock := by
  unfold Causality.clock clockAt Schedule.index Checked.sub
  by_cases positive : 1 ≤ step
  · simp only [if_pos positive]
    change Checked.get causality.clocks (step - 1) = .ok clock ↔ _
    rw [Checked.get_eq_ok_iff]
    by_cases within : step ≤ causality.clocks.size
    · have inside : step - 1 < causality.clocks.size := by omega
      simp [Array.getElem?_eq_getElem inside, within, Nat.lt_of_lt_of_le Nat.one_pos positive]
    · have outside : causality.clocks.size ≤ step - 1 := by omega
      simp [Array.getElem?_eq_none outside, within]
  · simp only [if_neg positive]
    constructor
    · intro ok
      cases ok
    · rintro ⟨pos, -⟩
      exact absurd pos positive

theorem clockAt_modifyClock
    {step other : Nat} {change : Clock → Clock} (positive : 0 < step)
    (otherPositive : 0 < other) (within : step ≤ causality.clocks.size) :
    (causality.modifyClock step change).clockAt other =
      if other = step then change (causality.clockAt step) else causality.clockAt other := by
  unfold clockAt modifyClock
  simp only [Array.getElem?_modify]
  by_cases same : other = step
  · subst same
    have inside : other - 1 < causality.clocks.size := by omega
    simp [Array.getElem?_eq_getElem inside]
  · have differs : step - 1 ≠ other - 1 := by omega
    simp [same, differs]

@[simp] theorem size_clocks_modifyClock (step : Nat) (change : Clock → Clock) :
    (causality.modifyClock step change).clocks.size = causality.clocks.size := by
  simp [modifyClock]

def SameClocksBut (step : Nat) (before after : Causality) : Prop :=
  after.clocks.size = before.clocks.size ∧
    ∀ other, 0 < other → other ≠ step → after.clockAt other = before.clockAt other

theorem SameClocksBut.trans
    {step : Nat} {before between after : Causality}
    (first : before.SameClocksBut step between) (second : between.SameClocksBut step after) :
    before.SameClocksBut step after := by
  refine ⟨second.1.trans first.1, ?_⟩
  intro other positive differs
  rw [second.2 other positive differs, first.2 other positive differs]

theorem sameClocksBut_modifyClock
    {step : Nat} (positive : 0 < step) (within : step ≤ causality.clocks.size)
    (change : Clock → Clock) :
    causality.SameClocksBut step (causality.modifyClock step change) := by
  refine ⟨size_clocks_modifyClock step change, ?_⟩
  intro other otherPositive differs
  rw [clockAt_modifyClock positive otherPositive within, if_neg differs]

theorem joinStep_eq_ok
    {later earlier : Nat} (joined : causality.joinStep later earlier = .ok changed) :
    0 < earlier ∧
      changed = causality.modifyClock later fun clock =>
        clock.join (causality.clockAt earlier) := by
  unfold joinStep at joined
  obtain ⟨known, read, joined⟩ := Checked.bind_eq_ok_iff.mp joined
  cases joined
  obtain ⟨positive, -, rfl⟩ := clock_eq_ok_iff.mp read
  exact ⟨positive, rfl⟩

theorem happensBefore_eq_ok
    {schedule : Schedule} {earlier later : Nat} {frame : Frame}
    {entry : Frame.Entry} (found : schedule.frame earlier = .ok frame)
    (selected : frame.selected = .ok entry) (positive : 0 < later)
    (within : later ≤ causality.clocks.size) :
    causality.happensBefore schedule earlier later =
      .ok (UInt32.ofNat earlier ≤ (causality.clockAt later).get entry.id.index) := by
  have read : causality.clock later = .ok (causality.clockAt later) :=
    clock_eq_ok_iff.mpr ⟨positive, within, rfl⟩
  unfold happensBefore
  apply Checked.bind_eq_ok_iff.mpr
  refine ⟨frame, found, Checked.bind_eq_ok_iff.mpr ⟨entry, selected, ?_⟩⟩
  exact Checked.bind_eq_ok_iff.mpr ⟨_, read, rfl⟩

theorem follow_eq_ok
    {actor step : Nat} (followed : causality.follow actor step = .ok changed) :
    actor < causality.actors ∧
      ∃ inherited,
        inherited = causality.clockAt
          (if 0 < causality.lastStep.get actor then causality.lastStep.get actor else step) ∧
        changed = { causality.modifyClock step fun _ => inherited.set actor (.ofNat step) with
          lastStep := causality.lastStep.set actor step } := by
  unfold follow at followed
  by_cases unknown : causality.actors ≤ actor
  · simp only [if_pos unknown] at followed
    cases followed
  · simp only [if_neg unknown] at followed
    refine ⟨Nat.lt_of_not_le unknown, ?_⟩
    split at followed
    · rename_i positive
      obtain ⟨inherited, read, followed⟩ := Checked.bind_eq_ok_iff.mp followed
      cases followed
      exact ⟨inherited, by rw [if_pos positive, (clock_eq_ok_iff.mp read).2.2], rfl⟩
    · rename_i zero
      obtain ⟨inherited, read, followed⟩ := Checked.bind_eq_ok_iff.mp followed
      cases followed
      exact ⟨inherited, by rw [if_neg zero, (clock_eq_ok_iff.mp read).2.2], rfl⟩

/-- The step has come to know what the latest steps of so many other actors know. -/
structure Learned (schedule : Schedule) (actor step : Nat) (past : Nat → Prop) (count : Nat)
    (before after : Causality) : Prop where
  rest : after = { before with clocks := after.clocks }
  clocks : before.SameClocksBut step after
  knows : schedule.Knows (after.clockAt step) fun earlier =>
    past earlier ∨ ∃ other, other < count ∧ other ≠ actor ∧ 0 < before.lastStep.get other ∧
      schedule.Reaches earlier (before.lastStep.get other)

section Learned

variable {schedule : Schedule} {actor step count : Nat} {past : Nat → Prop} {between : Causality}

theorem learned_zero (knows : schedule.Knows (causality.clockAt step) past) :
    Learned schedule actor step past 0 causality causality where
  rest := rfl
  clocks := ⟨rfl, fun _ _ _ => rfl⟩
  knows := knows.congr fun earlier => by simp

theorem Learned.next
    (learned : Learned schedule actor step past count causality between)
    (positive : 0 < step) (within : step ≤ causality.clocks.size)
    (known : count ≠ actor → 0 < causality.lastStep.get count →
      causality.lastStep.get count ≠ step ∧
        schedule.Knows (causality.clockAt (causality.lastStep.get count))
          (schedule.Reaches · (causality.lastStep.get count)))
    (looked : (if count ≠ actor ∧ 0 < between.lastStep.get count then
      between.joinStep step (between.lastStep.get count) else pure between) = .ok changed) :
    Learned schedule actor step past (count + 1) causality changed := by
  have sameLast : between.lastStep = causality.lastStep := by rw [learned.rest]
  rw [sameLast] at looked
  by_cases due : count ≠ actor ∧ 0 < causality.lastStep.get count
  · rw [if_pos due] at looked
    obtain ⟨-, rfl⟩ := joinStep_eq_ok looked
    obtain ⟨differs, knowsLast⟩ := known due.1 due.2
    have inside : step ≤ between.clocks.size := by rw [learned.clocks.1]; exact within
    refine ⟨by rw [learned.rest]; rfl,
      learned.clocks.trans (sameClocksBut_modifyClock positive inside _), ?_⟩
    rw [clockAt_modifyClock positive positive inside, if_pos rfl,
      learned.clocks.2 _ due.2 differs]
    apply (learned.knows.join knowsLast).congr
    intro earlier
    simp only [Nat.lt_succ_iff_lt_or_eq, or_and_right, exists_or, exists_eq_left, or_assoc, due.1,
      due.2, ne_eq, not_false_eq_true, true_and]
  · rw [if_neg due] at looked
    cases looked
    refine ⟨learned.rest, learned.clocks, learned.knows.congr fun earlier => ?_⟩
    have nobody : ¬ (count ≠ actor ∧ 0 < causality.lastStep.get count ∧
        schedule.Reaches earlier (causality.lastStep.get count)) :=
      fun awaited => due ⟨awaited.1, awaited.2.1⟩
    simp only [Nat.lt_succ_iff_lt_or_eq, or_and_right, exists_or, exists_eq_left, nobody, or_false]

theorem learned_joinOthers
    (positive : 0 < step) (within : step ≤ causality.clocks.size)
    (knows : schedule.Knows (causality.clockAt step) past)
    (known : ∀ other, other ≠ actor → 0 < causality.lastStep.get other →
      causality.lastStep.get other ≠ step ∧
        schedule.Knows (causality.clockAt (causality.lastStep.get other))
          (schedule.Reaches · (causality.lastStep.get other)))
    (joined : causality.joinOthers actor step = .ok changed) :
    Learned schedule actor step past causality.actors causality changed := by
  unfold joinOthers at joined
  -- By induction on the number of actors that have been looked at.
  generalize causality.actors = count at joined ⊢
  induction count generalizing changed with
  | zero =>
      cases joined
      exact learned_zero knows
  | succ count induction =>
      rw [List.range_succ, List.foldlM_append] at joined
      obtain ⟨between, before, looked⟩ := Checked.bind_eq_ok_iff.mp joined
      rw [List.foldlM_cons] at looked
      obtain ⟨_, looked, done⟩ := Checked.bind_eq_ok_iff.mp looked
      cases done
      exact (induction before).next positive within (known count) looked

end Learned

/-- What a step touches, by the target that its operation has in the schedule. -/
theorem touch_eq
    {schedule : Schedule} {step : Nat} {frame : Frame} {entry : Frame.Entry}
    (sized : schedule.frames[step - 1]?.map Frame.size = some frame.size)
    (selected : schedule.selected? step = some entry.snapshot) :
    causality.touch schedule.position step frame entry =
      match schedule.lifeTarget? step, schedule.sendTarget? step with
      | some target, _ => do
          let life ← causality.lastOfLife.assign target step
          return (causality.lastOfLife.get target, { causality with lastOfLife := life })
      | none, some target => do
          let sends ← causality.lastSend.assign target step
          return (causality.lastSend.get target, { causality with lastSend := sends })
      | none, none =>
          match entry.kind with
          | .receive => .ok (entry.snapshot.sendStep.getD 0, causality)
          | .awaitDeadlock => do return (0, ← causality.joinOthers entry.id.index step)
          | .invalid => .error (.invalidStep step entry.id)
          | _ => .ok (0, causality) := by
  have kind : entry.snapshot.kind = entry.kind := rfl
  have operation : entry.snapshot.operation = entry.operation := rfl
  simp only [Schedule.lifeTarget?, Schedule.sendTarget?, selected, Option.bind_some, sized,
    kind, operation, touch, target]
  cases entry.kind with
  | create => by_cases last : step < schedule.position <;> simp [last]
  | start => cases entry.operation.target <;> rfl
  | stop => cases entry.operation.target <;> rfl
  | join => cases entry.operation.target <;> rfl
  | send => cases entry.operation.target <;> rfl
  | receive => rfl
  | awaitDeadlock => rfl
  | invalid => rfl
  | yield => rfl

end Causality

end Interleave
