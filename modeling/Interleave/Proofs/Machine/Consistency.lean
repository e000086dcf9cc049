import Interleave.Proofs.Machine.Coherence

namespace Interleave

variable {σ μ : Type}

namespace Actor

def finishing (id : ActorId) (waiters : List ActorId) (known : ActorId) (actor : Actor σ μ) :
    Actor σ μ :=
  if known = id then
    ⟨{ actor.record with
        enabled := false, terminated := true, waiters := [], operation := .stop id,
        sendStep := none },
      .ending true⟩
  else if known ∈ waiters then { actor with record := actor.record.enable }
  else actor

/-- An actor that has announced its end for the second time is gone. -/
def retired (actor : Actor σ μ) : Actor σ μ :=
  match actor.stage with
  | .ending true => { actor with stage := .ended }
  | _ => actor

def switching (id next : ActorId) (known : ActorId) (actor : Actor σ μ) : Actor σ μ :=
  if known = id then { actor with record := actor.record.hold false }.retired
  else if known = next then { actor with record := actor.record.hold true }
  else actor

variable {id known : ActorId} {actor : Actor σ μ} {waiters : List ActorId}

theorem finishing_self : finishing id waiters id actor =
    ⟨{ actor.record with
        enabled := false, terminated := true, waiters := [], operation := .stop id,
        sendStep := none },
      .ending true⟩ := if_pos rfl

theorem finishing_waiter (differs : known ≠ id) (waits : known ∈ waiters) :
    finishing id waiters known actor = { actor with record := actor.record.enable } := by
  rw [finishing, if_neg differs, if_pos waits]

theorem finishing_other (differs : known ≠ id) (busy : known ∉ waiters) :
    finishing id waiters known actor = actor := by
  rw [finishing, if_neg differs, if_neg busy]

@[simp] theorem waiters_finishing :
    (finishing id waiters known actor).record.waiters =
      if known = id then [] else actor.record.waiters := by
  unfold finishing
  split
  · rfl
  · split <;> rfl

@[simp] theorem terminated_finishing :
    (finishing id waiters known actor).record.terminated =
      if known = id then true else actor.record.terminated := by
  unfold finishing
  split
  · rfl
  · split <;> rfl

@[simp] theorem active_finishing :
    (finishing id waiters known actor).record.active = actor.record.active := by
  unfold finishing
  split
  · rfl
  · split <;> rfl

end Actor

namespace Machine

variable {program : Program σ μ} {machine after : Machine σ μ}
  {current id other next : ActorId} {actor changed : Actor σ μ} {record : Record}
  {operation : Operation} {stage : Stage σ μ}

def enableAll (machine : Machine σ μ) (waiters : List ActorId) : Machine σ μ :=
  waiters.foldl (fun machine waiter => machine.modifyRecord waiter Record.enable) machine

theorem exists_enableAll_eq (machine : Machine σ μ) (waiters : List ActorId) :
    ∃ actors, machine.enableAll waiters = { machine with actors := actors } := by
  induction waiters generalizing machine with
  | nil => exact ⟨machine.actors, rfl⟩
  | cons waiter rest induction =>
      obtain ⟨actors, same⟩ := induction (machine.modifyRecord waiter Record.enable)
      exact ⟨actors, same⟩

@[simp] theorem mailboxes_enableAll (machine : Machine σ μ) (waiters : List ActorId) :
    (machine.enableAll waiters).mailboxes = machine.mailboxes := by
  obtain ⟨actors, same⟩ := exists_enableAll_eq machine waiters
  rw [same]

@[simp] theorem ended_enableAll (machine : Machine σ μ) (waiters : List ActorId) :
    (machine.enableAll waiters).ended = machine.ended := by
  obtain ⟨actors, same⟩ := exists_enableAll_eq machine waiters
  rw [same]

@[simp] theorem steps_enableAll (machine : Machine σ μ) (waiters : List ActorId) :
    (machine.enableAll waiters).steps = machine.steps := by
  obtain ⟨actors, same⟩ := exists_enableAll_eq machine waiters
  rw [same]

theorem get?_enableAll (machine : Machine σ μ) (waiters : List ActorId) (known : ActorId) :
    (machine.enableAll waiters).actors.get? known =
      (machine.actors.get? known).map fun actor =>
        if known ∈ waiters then { actor with record := actor.record.enable } else actor := by
  induction waiters generalizing machine with
  | nil => exact Option.map_id'.symm
  | cons waiter rest induction =>
      rw [show machine.enableAll (waiter :: rest) =
        (machine.modifyRecord waiter Record.enable).enableAll rest from rfl, induction,
        get?_modifyRecord, Option.map_map]
      congr 1
      funext actor
      by_cases first : known = waiter
      · by_cases later : known ∈ rest
        · simp [first, Record.enable]
        · simp [first, Record.enable]
      · simp [first]

theorem finish_eq (there : machine.actors.get? id = some actor) :
    machine.finish id = (machine.modifyRecord id Record.finish).enableAll actor.record.waiters := by
  unfold Machine.finish
  rw [there]
  rfl

theorem ended_finish (there : machine.actors.get? id = some actor) :
    (machine.finish id).ended = machine.ended := by
  rw [finish_eq there]
  exact ended_enableAll _ _

theorem get?_finishing
    (there : machine.actors.get? id = some actor) (busy : id ∉ actor.record.waiters)
    (known : ActorId) :
    ((machine.finish id).announce id (.stop id) (.ending true)).actors.get? known =
      (machine.actors.get? known).map (Actor.finishing id actor.record.waiters known) := by
  rw [get?_announce, finish_eq there, get?_enableAll, get?_modifyRecord, Option.map_map,
    Option.map_map]
  congr 1
  funext other
  by_cases self : known = id
  · simp [self, busy, Actor.finishing, Record.announce, Record.finish, Operation.stop]
  · by_cases waits : known ∈ actor.record.waiters
    · simp [self, waits, Actor.finishing]
    · simp [self, waits, Actor.finishing]

section Finish

variable (coherent : machine.Coherent id) (there : machine.actors.get? id = some actor)

include coherent there

theorem exists_of_mem_waiters
    (found : machine.actors.get? other = some changed) (waits : other ∈ actor.record.waiters) :
    ∃ record strict body, changed = ⟨record, .waiting (.join id strict) body⟩ ∧
      record.Flags false false false false ∧ record.operation = .join id := by
  rw [coherent.toEnds.mem_waiters_iff there, wait?_of_get? found] at waits
  exact (coherent.proper other changed found).exists_of_stop waits

/-- Only the waits for the end of this actor end with it. -/
theorem wait?_finishing_iff
    (enabled : actor.record.enabled = true) (found : machine.actors.get? other = some changed)
    (wait : Wait) :
    (Actor.finishing id actor.record.waiters other changed).wait? = some wait ↔
      changed.wait? = some wait ∧ wait ≠ .stop id := by
  by_cases same : other = id
  · subst same
    cases there.symm.trans found
    rw [Actor.finishing_self, Actor.wait?_of_over rfl, Actor.wait?_of_enabled enabled]
    simp
  · have waiting := coherent.toEnds.mem_waiters_iff there other
    rw [wait?_of_get? found] at waiting
    by_cases waits : other ∈ actor.record.waiters
    · rw [Actor.finishing_waiter same waits, Actor.wait?_of_enabled rfl, waiting.mp waits]
      simp [eq_comm]
    · rw [Actor.finishing_other same waits]
      constructor
      · intro now
        refine ⟨now, ?_⟩
        rintro rfl
        exact waits (waiting.mpr now)
      · exact And.left

theorem Coherent.finish (enabled : actor.record.enabled = true) :
    ((machine.finish id).announce id (.stop id) (.ending true)).Coherent id := by
  have busy : id ∉ actor.record.waiters := by
    rw [coherent.toEnds.mem_waiters_iff there, wait?_of_get? there, Actor.wait?_of_enabled enabled]
    intro impossible
    cases impossible
  have actors := get?_finishing there busy
  have mailboxes : ((machine.finish id).announce id (.stop id) (.ending true)).mailboxes =
      machine.mailboxes := by
    rw [finish_eq there]
    exact mailboxes_enableAll _ _
  have flags := coherent.flags_of_enabled there enabled
  refine ⟨?_, ?_, ?_⟩
  · apply poised_of_change actors coherent.present
    intro known other found
    rw [Actor.active_finishing]
    refine ⟨?_, coherent.active known other found, ?_⟩
    · by_cases same : known = id
      · subst same
        cases there.symm.trans found
        rw [Actor.finishing_self]
        exact .gone ⟨rfl, flags.yielded, flags.awaiting, rfl⟩ rfl rfl
      · by_cases waits : known ∈ actor.record.waiters
        · obtain ⟨record, strict, body, rfl, flags, announced⟩ :=
            exists_of_mem_waiters coherent there found waits
          rw [Actor.finishing_waiter same waits]
          exact .free ⟨rfl, flags.yielded, flags.awaiting, flags.terminated⟩ announced rfl
        · rw [Actor.finishing_other same waits]
          exact coherent.proper known other found
    · intro running
      by_cases same : known = id
      · exact same
      · by_cases waits : known ∈ actor.record.waiters
        · obtain ⟨record, strict, body, rfl, -⟩ := exists_of_mem_waiters coherent there found waits
          rw [Actor.finishing_waiter same waits] at running
          cases running
        · rw [Actor.finishing_other same waits] at running
          exact coherent.running known other found running
  · apply coherent.toMail.of_change actors mailboxes
    · intro slot known other found
      rw [wait?_finishing_iff coherent there enabled found]
      simp
    · intro known other slot found receives
      by_cases same : known = id
      · subst same
        rw [Actor.finishing_self] at receives
        cases receives.1
      · by_cases waits : known ∈ actor.record.waiters
        · obtain ⟨record, strict, body, rfl, -⟩ := exists_of_mem_waiters coherent there found waits
          rw [Actor.finishing_waiter same waits] at receives
          obtain ⟨-, body, impossible⟩ := receives
          cases impossible
        · rw [Actor.finishing_other same waits] at receives ⊢
          exact coherent.queued known other slot found receives
  · apply coherent.toEnds.finish actors ⟨actor, there⟩
    · intro known other _
      exact Actor.waiters_finishing
    · intro known other _
      exact Actor.terminated_finishing
    · intro known other joined found
      rw [wait?_finishing_iff coherent there enabled found]
      simp
    · intro known other joined found joins
      by_cases same : known = id
      · subst same
        rw [Actor.finishing_self] at joins
        cases joins.1
      · by_cases waits : known ∈ actor.record.waiters
        · obtain ⟨record, strict, body, rfl, -⟩ := exists_of_mem_waiters coherent there found waits
          rw [Actor.finishing_waiter same waits] at joins
          obtain ⟨-, strict, body, same⟩ := joins
          cases same
          exact .inr rfl
        · rw [Actor.finishing_other same waits] at joins
          exact .inl (coherent.joined known other joined found joins)

end Finish

section Release

theorem releaseYielded_of_flags
    {enabled awaiting terminated : Bool}
    (flags : record.Flags enabled false awaiting terminated) : record.releaseYielded = record := by
  rw [Record.releaseYielded, if_neg (by rw [flags.yielded]; exact Bool.false_ne_true)]

theorem releaseAwaiting_of_flags
    {enabled yielded terminated : Bool}
    (flags : record.Flags enabled yielded false terminated) : record.releaseAwaiting = record := by
  rw [Record.releaseAwaiting, if_neg (by rw [flags.awaiting]; exact Bool.false_ne_true)]

theorem yielded_releaseAwaiting (record : Record) :
    record.releaseAwaiting.yielded = record.yielded := by
  unfold Record.releaseAwaiting
  split <;> rfl

theorem awaitingDeadlock_releaseAwaiting (record : Record) :
    record.releaseAwaiting.awaitingDeadlock = false := by
  unfold Record.releaseAwaiting
  split
  · rfl
  · rename_i awaiting
    exact Bool.of_not_eq_true awaiting

theorem Coherent.keeps_of_pass
    {freed : Record} {body : σ} (coherent : machine.Coherent current)
    (there : machine.actors.get? id = some ⟨record, .waiting .pass body⟩)
    (flags : freed.Flags true false false false)
    (announced : freed.operation = .yield id ∨ freed.operation = .awaitDeadlock id)
    (active : freed.active = record.active) (waiters : freed.waiters = record.waiters)
    (terminated : record.terminated = false) :
    machine.Keeps current id ⟨record, .waiting .pass body⟩ ⟨freed, .waiting .pass body⟩ := by
  have idle : (⟨freed, .waiting .pass body⟩ : Actor σ μ).wait? = none :=
    Actor.wait?_of_enabled flags.enabled
  constructor
  case proper => exact .free flags announced rfl
  case active =>
    rw [active]
    exact coherent.active id _ there
  case running =>
    intro impossible
    cases impossible
  case waiters => exact waiters
  case terminated => exact flags.terminated.trans terminated.symm
  case message =>
    intro slot
    rw [idle]
    exact ⟨(nomatch ·), fun waits => absurd waits (Actor.not_message_of_pass slot)⟩
  case stop =>
    intro other
    rw [idle]
    exact ⟨(nomatch ·), fun waits => absurd waits (Actor.not_stop_of_pass other)⟩
  case queued =>
    intro slot receives
    obtain ⟨-, body, impossible⟩ := receives
    cases impossible
  case joined =>
    intro other joins
    obtain ⟨-, strict, body, impossible⟩ := joins
    cases impossible

theorem Coherent.keeps_releaseYielded
    (coherent : machine.Coherent current) (there : machine.actors.get? id = some actor) :
    machine.Keeps current id actor { actor with record := actor.record.releaseYielded } := by
  have same := coherent.keeps there
  cases coherent.proper id actor there with
  | free flags | parked flags | joining flags | awaiting flags | gone flags =>
      rw [releaseYielded_of_flags flags]
      exact same
  | @yielding record body flags announced =>
      have released : record.releaseYielded = { record with yielded := false, enabled := true } :=
        if_pos flags.yielded
      rw [released]
      exact coherent.keeps_of_pass there ⟨rfl, rfl, flags.awaiting, flags.terminated⟩
        (.inl announced) rfl rfl flags.terminated

theorem Coherent.keeps_releaseAwaiting
    (coherent : machine.Coherent current) (there : machine.actors.get? id = some actor) :
    machine.Keeps current id actor { actor with record := actor.record.releaseAwaiting } := by
  have same := coherent.keeps there
  cases coherent.proper id actor there with
  | free flags | parked flags | joining flags | yielding flags | gone flags =>
      rw [releaseAwaiting_of_flags flags]
      exact same
  | @awaiting record body flags announced =>
      have released : record.releaseAwaiting =
          { record with awaitingDeadlock := false, enabled := true } :=
        if_pos flags.awaiting
      rw [released]
      exact coherent.keeps_of_pass there ⟨rfl, flags.yielded, rfl, flags.terminated⟩
        (.inr announced) rfl rfl flags.terminated

theorem any_records_iff (machine : Machine σ μ) (test : Record → Bool) :
    (machine.actors.toList.map Actor.record).any test = true ↔
      ∃ id actor, machine.actors.get? id = some actor ∧ test actor.record = true := by
  simp only [List.any_map, List.any_eq_true, Function.comp_apply]
  constructor
  · intro found
    obtain ⟨actor, member, passes⟩ := found
    obtain ⟨position, inside⟩ := List.mem_iff_getElem?.mp member
    exact ⟨⟨position⟩, actor, Array.getElem?_toList.symm.trans inside, passes⟩
  · intro found
    obtain ⟨id, actor, there, passes⟩ := found
    have inside : machine.actors.toList[id.index]? = some actor :=
      Array.getElem?_toList.trans there
    exact ⟨actor, List.mem_of_getElem? inside, passes⟩

theorem Coherent.releaseBlocked (coherent : machine.Coherent current) :
    machine.releaseBlocked.Coherent current := by
  simp only [Machine.releaseBlocked]
  split
  · exact coherent
  · split
    · exact coherent.revise coherent.present (get?_modifyRecords machine · _) rfl
        fun id actor there => coherent.keeps_releaseYielded there
    · exact coherent.revise coherent.present (get?_modifyRecords machine · _) rfl
        fun id actor there => coherent.keeps_releaseAwaiting there

/-- If still no actor is enabled then nobody waits for progress or for a deadlock. -/
theorem Coherent.released (coherent : machine.Coherent current) :
    machine.releaseBlocked.Released := by
  simp only [Machine.releaseBlocked]
  split
  · rename_i enabled
    intro disabled
    obtain ⟨id, actor, there, enabled⟩ := (any_records_iff machine Record.enabled).mp enabled
    rw [disabled id actor there] at enabled
    cases enabled
  · split
    · rename_i yielded
      intro disabled
      obtain ⟨id, actor, there, yielded⟩ := (any_records_iff machine Record.yielded).mp yielded
      have off := disabled id _ (get?_change (get?_modifyRecords machine · _) there)
      rw [Record.releaseYielded, if_pos yielded] at off
      cases off
    · rename_i unyielding
      intro disabled id
      have actors := (get?_modifyRecords machine · fun _ record => record.releaseAwaiting)
      have after := coherent.revise coherent.present actors rfl
        fun id actor there => coherent.keeps_releaseAwaiting there
      constructor
      · intro waits
        obtain ⟨actor, there, waits⟩ := exists_of_wait? waits
        obtain ⟨record, body, same, flags, -⟩ := (after.proper id actor there).exists_of_progress waits
        have yielded : actor.record.yielded = true := by
          rw [same]
          exact flags.yielded
        obtain ⟨before, known, rfl⟩ := exists_get?_of_change actors there
        rw [yielded_releaseAwaiting] at yielded
        exact unyielding ((any_records_iff machine Record.yielded).mpr ⟨id, before, known, yielded⟩)
      · intro waits
        obtain ⟨actor, there, waits⟩ := exists_of_wait? waits
        obtain ⟨record, body, same, flags, -⟩ := (after.proper id actor there).exists_of_deadlock waits
        have awaiting : actor.record.awaitingDeadlock = true := by
          rw [same]
          exact flags.awaiting
        obtain ⟨before, known, rfl⟩ := exists_get?_of_change actors there
        rw [awaitingDeadlock_releaseAwaiting] at awaiting
        cases awaiting

end Release

theorem exists_release (machine : Machine σ μ) :
    ∃ change : Record → Record,
      (∀ record, (change record).operation = record.operation ∧
        (change record).sendStep = record.sendStep) ∧
      ∀ known, machine.releaseBlocked.actors.get? known =
        (machine.actors.get? known).map fun actor =>
          { actor with record := change actor.record } := by
  simp only [Machine.releaseBlocked]
  split
  · exact ⟨fun record => record, fun _ => ⟨rfl, rfl⟩, fun known => Option.map_id'.symm⟩
  · split
    · refine ⟨Record.releaseYielded, ?_, (get?_modifyRecords machine · _)⟩
      intro record
      unfold Record.releaseYielded
      split <;> exact ⟨rfl, rfl⟩
    · refine ⟨Record.releaseAwaiting, ?_, (get?_modifyRecords machine · _)⟩
      intro record
      unfold Record.releaseAwaiting
      split <;> exact ⟨rfl, rfl⟩

theorem mailboxes_releaseBlocked (machine : Machine σ μ) :
    machine.releaseBlocked.mailboxes = machine.mailboxes := by
  simp only [Machine.releaseBlocked]
  split
  · rfl
  · split <;> rfl

theorem reach_eq
    (going : machine.ended = false) (id : ActorId) (operation : Operation) (stage : Stage σ μ) :
    ∃ enabled, machine.reach id operation stage =
      { (machine.announce id operation stage).releaseBlocked with
        steps := machine.steps + 1
        maxEnabled := enabled
        control := .choosing id } := by
  unfold reach
  rw [if_neg (by rw [going]; exact Bool.false_ne_true)]
  exact ⟨_, rfl⟩

theorem consistent_reach
    (going : machine.ended = false) (placed : stage ≠ .running)
    (announced : (machine.announce id operation stage).Coherent id) :
    (machine.reach id operation stage).Consistent := by
  obtain ⟨enabled, same⟩ := reach_eq going id operation stage
  rw [same]
  refine .choosing rfl (announced.releaseBlocked.congr (fun _ => rfl) rfl) announced.released ?_
  intro actor there
  obtain ⟨change, -, actors⟩ := exists_release (machine.announce id operation stage)
  have there : (machine.announce id operation stage).releaseBlocked.actors.get? id = some actor :=
    there
  rw [actors, get?_announce, Option.map_map] at there
  obtain ⟨before, -, rfl⟩ := Option.map_eq_some_iff.mp there
  simpa using placed

section Switch

theorem retired_or (actor : Actor σ μ) :
    actor.retired = actor ∨
      actor.stage = .ending true ∧ actor.retired = { actor with stage := .ended } := by
  unfold Actor.retired
  split
  · rename_i same
    exact .inr ⟨same, rfl⟩
  · exact .inl rfl

theorem get?_retire (machine : Machine σ μ) (id known : ActorId) :
    (machine.retire id).actors.get? known =
      (machine.actors.get? known).map fun actor =>
        if known = id then actor.retired else actor := by
  by_cases self : known = id
  · subst self
    unfold retire
    split
    · rename_i there
      rw [get?_setStage, there]
      simp [Actor.retired]
    · rename_i other
      cases there : machine.actors.get? known with
      | none => rfl
      | some actor =>
          obtain ⟨record, stage⟩ := actor
          rw [Option.map_some, if_pos rfl]
          rcases retired_or (⟨record, stage⟩ : Actor σ μ) with same | stopped
          · rw [same]
          · obtain ⟨rfl, -⟩ := stopped
            exact absurd there (other record)
  · unfold retire
    split
    · rw [get?_setStage]
      simp [self]
    · simp [self]

theorem get?_switch (differs : next ≠ id) (known : ActorId) :
    (machine.switch id next).actors.get? known =
      (machine.actors.get? known).map (Actor.switching id next known) := by
  rw [switch, if_neg differs]
  change ((((machine.modifyRecord id (Record.hold false)).modifyRecord next
    (Record.hold true)).retire id).actors.get? known) = _
  rw [get?_retire, get?_modifyRecord, get?_modifyRecord, Option.map_map, Option.map_map]
  congr 1
  funext actor
  by_cases self : known = id
  · subst self
    simp [Actor.switching, differs.symm]
  · by_cases same : known = next
    · subst same
      simp [Actor.switching, self]
    · simp [Actor.switching, self, same]

theorem Coherent.keeps_hold
    (coherent : machine.Coherent id) (there : machine.actors.get? other = some actor)
    {active : Bool} (holds : active = true ↔ other = next)
    (running : actor.stage = .running → other = next) :
    machine.Keeps next other actor { actor with record := actor.record.hold active } := by
  have keeps := coherent.keeps there
  exact ⟨keeps.proper.with_record rfl rfl rfl rfl rfl, holds, running, rfl, rfl, fun _ => Iff.rfl,
    fun _ => Iff.rfl, keeps.queued, keeps.joined⟩

theorem Keeps.retired (keeps : machine.Keeps current id actor changed) :
    machine.Keeps current id actor changed.retired := by
  rcases retired_or changed with same | stopped
  · rw [same]
    exact keeps
  · obtain ⟨ending, same⟩ := stopped
    have idle : changed.wait? = none := Actor.wait?_of_over (by rw [ending]; rfl)
    have still : changed.retired.wait? = none := Actor.wait?_of_over (by rw [same]; rfl)
    rw [same] at still ⊢
    constructor
    case proper =>
      obtain ⟨record, stage⟩ := changed
      cases keeps.proper with
      | gone flags announced stopped => exact .gone flags announced rfl
      | free flags announced living =>
          rw [show stage = .ending true from ending] at living
          cases living
      | _ => cases ending
    case active => exact keeps.active
    case running =>
      intro impossible
      cases impossible
    case waiters => exact keeps.waiters
    case terminated => exact keeps.terminated
    case message =>
      intro slot
      rw [still, ← idle]
      exact keeps.message slot
    case stop =>
      intro other
      rw [still, ← idle]
      exact keeps.stop other
    case queued =>
      intro slot receives
      obtain ⟨-, body, impossible⟩ := receives
      cases impossible
    case joined =>
      intro other joins
      obtain ⟨-, strict, body, impossible⟩ := joins
      cases impossible

theorem Coherent.not_running
    (coherent : machine.Coherent id) (placed : machine.Placed id)
    (there : machine.actors.get? other = some actor) : actor.stage ≠ .running := by
  intro running
  have self := coherent.running other actor there running
  subst self
  exact placed actor there running

theorem Coherent.keeps_switching
    (coherent : machine.Coherent id) (placed : machine.Placed id) (differs : next ≠ id)
    (there : machine.actors.get? other = some actor) :
    machine.Keeps next other actor (actor.switching id next other) := by
  have running : actor.stage = .running → other = next :=
    fun running => absurd running (coherent.not_running placed there)
  by_cases self : other = id
  · rw [Actor.switching, if_pos self]
    have holds : (false : Bool) = true ↔ other = next := by simp [self, differs.symm]
    exact (coherent.keeps_hold there holds running).retired
  · rw [Actor.switching, if_neg self]
    by_cases same : other = next
    · rw [if_pos same]
      exact coherent.keeps_hold there (by simp [same]) running
    · rw [if_neg same]
      have holds : actor.record.active = true ↔ other = next := by
        rw [coherent.active other actor there]
        exact ⟨fun holder => absurd holder self, fun holder => absurd holder same⟩
      exact coherent.keeps_hold there holds running

theorem mailboxes_retire (machine : Machine σ μ) (id : ActorId) :
    (machine.retire id).mailboxes = machine.mailboxes := by
  unfold retire
  split <;> rfl

theorem mailboxes_switch (machine : Machine σ μ) (id next : ActorId) :
    (machine.switch id next).mailboxes = machine.mailboxes := by
  unfold Machine.switch
  split
  · rfl
  · exact mailboxes_retire _ id

theorem Coherent.switch
    {target : Actor σ μ} (coherent : machine.Coherent id) (placed : machine.Placed id)
    (there : machine.actors.get? next = some target) (enabled : target.record.enabled = true) :
    (machine.switch id next).Consistent := by
  by_cases same : next = id
  · subst same
    rw [Machine.switch, if_pos rfl]
    exact .returning rfl (coherent.congr (fun _ => rfl) rfl) there enabled (placed target there)
  · have actors := @get?_switch _ _ machine id next same
    have switched := coherent.revise ⟨target, there⟩ actors (mailboxes_switch machine id next)
      fun other actor there => coherent.keeps_switching placed same there
    have now := get?_change actors there
    rw [Actor.switching, if_neg same, if_pos rfl] at now
    refine .returning ?_ switched now enabled ?_
    · rw [Machine.switch, if_neg same]
      rfl
    · intro running
      exact same (coherent.running next target there running)

end Switch

theorem mailboxes_advance (machine : Machine σ μ) (next : ActorId) (chosen : Record) :
    (machine.advance next chosen).mailboxes = machine.mailboxes := by
  unfold Machine.advance
  split <;> rfl

theorem Coherent.advance
    (coherent : machine.Coherent id) (next : ActorId) (chosen : Record) :
    (machine.advance next chosen).Coherent id := by
  apply coherent.revise coherent.present (get?_advance machine next · chosen)
    (mailboxes_advance machine next chosen)
  intro other actor there
  split
  · exact coherent.keeps_releaseYielded there
  · exact coherent.keeps there

theorem consistent_run
    {target : Actor σ μ} (coherent : machine.Coherent id) (placed : machine.Placed id)
    (there : machine.actors.get? next = some target) (enabled : target.record.enabled = true) :
    ((machine.advance next target.record).switch id next).Consistent := by
  apply (coherent.advance next target.record).switch _ _ enabled
  · intro actor found
    rw [get?_advance] at found
    obtain ⟨before, known, rfl⟩ := Option.map_eq_some_iff.mp found
    split
    · exact placed before known
    · exact placed before known
  · rw [get?_advance, there, Option.map_some, if_neg fun both => both.1 rfl]

theorem Coherent.annotate
    {name : Option String} {cancelled : Bool} {faults : List ActorError}
    (coherent : machine.Coherent current) (there : machine.actors.get? id = some actor)
    (here : after.actors.get? id = some { actor with
      record := { actor.record with name := name, cancelled := cancelled, faults := faults } })
    (others : ∀ other, other ≠ id → after.actors.get? other = machine.actors.get? other)
    (mailboxes : after.mailboxes = machine.mailboxes) : after.Coherent current := by
  have keeps := coherent.keeps there
  exact coherent.revise_one there here others mailboxes
    ⟨keeps.proper.with_record rfl rfl rfl rfl rfl, keeps.active, keeps.running, rfl, rfl,
      fun _ => Iff.rfl, fun _ => Iff.rfl, keeps.queued, keeps.joined⟩

theorem Replies.ready
    {call : Call σ μ} {reply : Reply μ}
    (replies : Replies machine id call reply after) (coherent : machine.Coherent id)
    (there : machine.actors.get? id = some ⟨record, .running⟩) (enabled : record.enabled = true) :
    after.Ready id := by
  cases replies with
  | mailbox => exact (coherent.withMailbox id).resume there enabled
  | refuse | cancel | stray | pause => exact coherent.resume there enabled
  | note value =>
      have noted : (machine.takeNote (.value value)).Coherent id :=
        coherent.congr (fun _ => rfl) rfl
      exact noted.resume there enabled
  | noteStatuses =>
      have noted : (machine.takeNote (.statuses machine.statuses)).Coherent id :=
        coherent.congr (fun _ => rfl) rfl
      exact noted.resume there enabled
  | rename name =>
      have here := get?_modifyRecord_self there fun record => { record with name := some name }
      have renamed := coherent.annotate there here
        (fun other differs => get?_modifyRecord_other differs _) rfl
      exact renamed.resume here enabled

theorem Ready.announce
    {noted : Machine σ μ} {name : Option String} {cancelled : Bool} {faults : List ActorError}
    (ready : machine.Ready id) (there : machine.actors.get? id = some actor)
    (here : noted.actors.get? id = some { actor with
      record := { actor.record with name := name, cancelled := cancelled, faults := faults } })
    (others : ∀ other, other ≠ id → noted.actors.get? other = machine.actors.get? other)
    (mailboxes : noted.mailboxes = machine.mailboxes) :
    (noted.announce id (.stop id) (.ending false)).Coherent id := by
  obtain ⟨record, running, flags⟩ := ready.exists_running
  have same := running
  rw [get?_setStage, there, Option.map_some, if_pos rfl] at same
  cases same
  have announced : (.ending false : Stage σ μ).Announces id (.stop id) := rfl
  have freed : (Record.announce (.stop id) { actor.record with
      name := name, cancelled := cancelled, faults := faults }).Flags true false false false :=
    ⟨flags.enabled, flags.yielded, flags.awaiting, flags.terminated⟩
  apply Coherent.revise_one running (get?_announce_of_some here) _ ready mailboxes
  · apply ready.keeps_of_enabled running flags.enabled freed announced rfl (fun _ => rfl) rfl rfl
    · intro slot body impossible
      cases impossible
    · intro other strict body impossible
      cases impossible
  · intro other differs
    rw [get?_announce_of_other differs, others other differs, get?_setStage]
    simp only [if_neg differs]
    exact Option.map_id'.symm

theorem Settles.announced
    (settles : Settles machine id after) (ready : machine.Ready id) :
    (after.announce id (.stop id) (.ending false)).Coherent id := by
  obtain ⟨record, running, -⟩ := ready.exists_running
  rw [get?_setStage] at running
  obtain ⟨actor, there, -⟩ := Option.map_eq_some_iff.mp running
  cases settles with
  | keep bug => exact ready.announce there there (fun _ _ => rfl) rfl
  | fault error =>
      exact ready.announce there (get?_modifyRecord_self there _)
        (fun other differs => get?_modifyRecord_other differs _) rfl
  | cancel =>
      exact ready.announce there (get?_modifyRecord_self there _)
        (fun other differs => get?_modifyRecord_other differs _) rfl

theorem Ready.pass (ready : machine.Ready id) (control : Control σ μ) :
    (machine.pass control).Ready id :=
  Coherent.congr ready (fun _ => rfl) rfl

namespace Consistent

variable (consistent : machine.Consistent)

include consistent

theorem ready_of_resuming
    {body : σ} {reply : Reply μ} (control : machine.control = .resuming id body reply) :
    machine.Ready id := by
  cases consistent with
  | resuming known ready =>
      cases control.symm.trans known
      exact ready
  | choosing known | returning known | closing known | panicking known =>
      cases control.symm.trans known

theorem of_choosing (control : machine.control = .choosing id) :
    machine.Coherent id ∧ machine.Released ∧ machine.Placed id := by
  cases consistent with
  | choosing known coherent released placed =>
      cases control.symm.trans known
      exact ⟨coherent, released, placed⟩
  | resuming known | returning known | closing known | panicking known =>
      cases control.symm.trans known

theorem of_returning (control : machine.control = .returning id) :
    machine.Coherent id ∧ ∃ actor, machine.actors.get? id = some actor ∧
      actor.record.enabled = true ∧ actor.stage ≠ .running := by
  cases consistent with
  | returning known coherent there enabled placed =>
      cases control.symm.trans known
      exact ⟨coherent, _, there, enabled, placed⟩
  | resuming known | choosing known | closing known | panicking known =>
      cases control.symm.trans known

theorem of_closing {result : Except ActorError Unit} (control : machine.control = .closing id result) :
    machine.Ready id ∨ ∃ text, result = .error (.panicked text) := by
  cases consistent with
  | closing known ready =>
      cases control.symm.trans known
      exact .inl ready
  | panicking known =>
      cases control.symm.trans known
      exact .inr ⟨_, rfl⟩
  | resuming known | choosing known | returning known =>
      cases control.symm.trans known

end Consistent

theorem going_of_prepares
    {call : Call σ μ} {pending : Pending σ μ} {prepared : Machine σ μ}
    (prepares : Prepares machine id call pending operation prepared) :
    prepared.ended = machine.ended := by
  cases prepares <;> rfl

/-- Every transition keeps the machine consistent, or ends the execution. -/
theorem Moves.consistent
    (moves : Moves program machine after) (consistent : machine.Consistent)
    (going : machine.ended = false) : after.ended = true ∨ after.Consistent := by
  cases moves with
  | ends ended => exact .inl ended
  | @call id body next reply call after control acts performs =>
      have ready := consistent.ready_of_resuming control
      obtain ⟨record, there, flags⟩ := ready.exists_running
      cases performs with
      | announce prepares =>
          right
          apply consistent_reach
          · rw [going_of_prepares prepares]
            exact going
          · intro impossible
            cases impossible
          · exact prepares.announced ready there flags next
      | reply replies =>
          have replied := replies.ready ready there flags.enabled
          exact .inr (.resuming rfl (replied.pass _))
  | @close id body reply control result =>
      have ready := consistent.ready_of_resuming control
      obtain ⟨record, there, flags⟩ := ready.exists_running
      have still : (machine.setStage id .running).Ready id :=
        Coherent.resume ready there flags.enabled
      exact .inr (.closing rfl (still.pass _))
  | complete control there completes =>
      obtain ⟨coherent, actor, known, enabled, -⟩ := consistent.of_returning control
      cases there.symm.trans known
      exact .inr (.resuming rfl ((completes.ready coherent there enabled).pass _))
  | finish control there =>
      obtain ⟨coherent, actor, known, enabled, -⟩ := consistent.of_returning control
      cases there.symm.trans known
      right
      apply consistent_reach
      · rw [finish_eq there]
        exact (ended_enableAll _ _).trans going
      · intro impossible
        cases impossible
      · exact coherent.finish there enabled
  | settle control calm settles =>
      rcases consistent.of_closing control with ready | ⟨text, same⟩
      · right
        apply consistent_reach
        · cases settles <;> exact going
        · intro impossible
          cases impossible
        · exact settles.announced ready
      · exact absurd same (calm text)

theorem eq_of_get?_start
    {body : σ} (there : (start body : Machine σ μ).actors.get? id = some actor) :
    id = .root ∧ actor = ⟨.start .root (some "main") true, .running⟩ := by
  have pushed : (Roster.empty.push _ : Roster (Actor σ μ)).get? id = some actor := there
  rw [Roster.get?_push] at pushed
  split at pushed
  · rename_i same
    exact ⟨same, (Option.some.inj pushed).symm⟩
  · cases pushed

theorem consistent_start (body : σ) : (start body : Machine σ μ).Consistent := by
  have present : ((start body).setStage .root .running : Machine σ μ).actors.get? .root =
      some ⟨.start .root (some "main") true, .running⟩ := rfl
  have only : ∀ id actor, ((start body).setStage .root .running : Machine σ μ).actors.get? id =
      some actor → id = .root ∧ actor = ⟨.start .root (some "main") true, .running⟩ := by
    intro id actor there
    rw [get?_setStage] at there
    obtain ⟨before, known, rfl⟩ := Option.map_eq_some_iff.mp there
    obtain ⟨rfl, rfl⟩ := eq_of_get?_start known
    exact ⟨rfl, rfl⟩
  have idle : ∀ id wait, ((start body).setStage .root .running : Machine σ μ).wait? id ≠
      some wait := by
    intro id wait waits
    obtain ⟨actor, there, waits⟩ := exists_of_wait? waits
    obtain ⟨rfl, rfl⟩ := only id actor there
    cases waits
  have poised : ((start body).setStage .root .running : Machine σ μ).Poised .root := by
    refine ⟨⟨_, present⟩, ?_, ?_, ?_⟩
    all_goals
      intro id actor there
      obtain ⟨rfl, rfl⟩ := only id actor there
    · exact .free ⟨rfl, rfl, rfl, rfl⟩ trivial rfl
    · exact ⟨fun _ => rfl, fun _ => rfl⟩
    · exact fun _ => rfl
  have mail : ((start body).setStage .root .running : Machine σ μ).Mail := by
    constructor
    · intro slot box found
      cases found
    · intro id slot waits
      exact absurd waits (idle id _)
    · intro id actor slot there receives
      obtain ⟨rfl, rfl⟩ := only id actor there
      obtain ⟨-, body, impossible⟩ := receives
      cases impossible
  have ends : ((start body).setStage .root .running : Machine σ μ).Ends := by
    constructor
    · intro other target there id
      obtain ⟨rfl, rfl⟩ := only other target there
      rw [if_neg (idle id _)]
      rfl
    · intro id other waits
      exact absurd waits (idle id _)
    · intro id actor other there joins
      obtain ⟨rfl, rfl⟩ := only id actor there
      obtain ⟨-, strict, body, impossible⟩ := joins
      cases impossible
  exact .resuming rfl ⟨poised, mail, ends⟩

end Machine

end Interleave
