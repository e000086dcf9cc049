import Interleave.Proofs.Machine.Moves

namespace Interleave

variable {σ μ : Type}

namespace Actor

def joining (id other : ActorId) (strict : Bool) (body : σ) (known : ActorId)
    (actor : Actor σ μ) : Actor σ μ :=
  let waiters :=
    if known = other then actor.record.waiters ++ [id] else actor.record.waiters
  if known = id then
    ⟨{ actor.record with
        waiters := waiters, enabled := false, operation := .join other, sendStep := none },
      .waiting (.join other strict) body⟩
  else { actor with record := { actor.record with waiters := waiters } }

variable {id other known : ActorId} {strict : Bool} {body : σ}

@[simp] theorem waiters_joining (actor : Actor σ μ) :
    (joining id other strict body known actor).record.waiters =
      if known = other then actor.record.waiters ++ [id] else actor.record.waiters := by
  by_cases self : known = id
  · rw [joining, if_pos self]
  · rw [joining, if_neg self]

@[simp] theorem terminated_joining (actor : Actor σ μ) :
    (joining id other strict body known actor).record.terminated = actor.record.terminated := by
  by_cases self : known = id
  · rw [joining, if_pos self]
  · rw [joining, if_neg self]

@[simp] theorem active_joining (actor : Actor σ μ) :
    (joining id other strict body known actor).record.active = actor.record.active := by
  by_cases self : known = id
  · rw [joining, if_pos self]
  · rw [joining, if_neg self]

theorem Proper.with_record {actor : Actor σ μ} {record : Record} (proper : actor.Proper id)
    (enabled : record.enabled = actor.record.enabled)
    (yielded : record.yielded = actor.record.yielded)
    (awaiting : record.awaitingDeadlock = actor.record.awaitingDeadlock)
    (terminated : record.terminated = actor.record.terminated)
    (operation : record.operation = actor.record.operation) :
    Proper id ⟨record, actor.stage⟩ := by
  have flags {enabled' yielded' awaiting' terminated' : Bool}
      (flags : actor.record.Flags enabled' yielded' awaiting' terminated') :
      record.Flags enabled' yielded' awaiting' terminated' :=
    ⟨enabled.trans flags.enabled, yielded.trans flags.yielded, awaiting.trans flags.awaiting,
      terminated.trans flags.terminated⟩
  cases proper with
  | free known announced living =>
      rw [← operation] at announced
      exact .free (flags known) announced living
  | parked known announced => exact .parked (flags known) (operation.trans announced)
  | joining known announced => exact .joining (flags known) (operation.trans announced)
  | yielding known announced => exact .yielding (flags known) (operation.trans announced)
  | awaiting known announced => exact .awaiting (flags known) (operation.trans announced)
  | gone known announced stopped => exact .gone (flags known) (operation.trans announced) stopped

end Actor

namespace Machine

variable {program : Program σ μ} {machine after : Machine σ μ}
  {current id other next : ActorId} {actor changed : Actor σ μ} {record : Record}
  {operation : Operation} {stage : Stage σ μ}

def announce (machine : Machine σ μ) (id : ActorId) (operation : Operation) (stage : Stage σ μ) :
    Machine σ μ :=
  (machine.setStage id stage).modifyRecord id (Record.announce operation)

theorem get?_announce (machine : Machine σ μ) (id other : ActorId) (operation : Operation)
    (stage : Stage σ μ) :
    (machine.announce id operation stage).actors.get? other =
      (machine.actors.get? other).map fun actor =>
        if other = id then ⟨actor.record.announce operation, stage⟩ else actor := by
  rw [announce, get?_modifyRecord, get?_setStage, Option.map_map]
  congr 1
  funext actor
  by_cases same : other = id
  · simp [same]
  · simp [same]

theorem Coherent.keeps
    (coherent : machine.Coherent current) (there : machine.actors.get? id = some actor) :
    machine.Keeps current id actor actor where
  proper := coherent.proper id actor there
  active := coherent.active id actor there
  running := coherent.running id actor there
  waiters := rfl
  terminated := rfl
  message _ := Iff.rfl
  stop _ := Iff.rfl
  queued slot := coherent.queued id actor slot there
  joined other := coherent.joined id actor other there

theorem Coherent.congr
    (coherent : machine.Coherent current)
    (actors : ∀ id, after.actors.get? id = machine.actors.get? id)
    (mailboxes : after.mailboxes = machine.mailboxes) : after.Coherent current := by
  have same : ∀ id, after.actors.get? id = (machine.actors.get? id).map fun actor => actor := by
    intro id
    rw [actors, Option.map_id']
  exact coherent.revise coherent.present same mailboxes fun id actor there => coherent.keeps there

section One

variable (there : machine.actors.get? id = some actor) (here : after.actors.get? id = some changed)
  (others : ∀ other, other ≠ id → after.actors.get? other = machine.actors.get? other)

include there here others

theorem get?_eq_map_of_one (other : ActorId) :
    after.actors.get? other =
      (machine.actors.get? other).map fun actor => if other = id then changed else actor := by
  by_cases same : other = id
  · subst same
    rw [here, there, Option.map_some, if_pos rfl]
  · rw [others other same]
    simp only [if_neg same]
    exact Option.map_id'.symm

theorem Coherent.revise_one
    (coherent : machine.Coherent current) (mailboxes : after.mailboxes = machine.mailboxes)
    (keeps : machine.Keeps current id actor changed) : after.Coherent current := by
  apply coherent.revise coherent.present (get?_eq_map_of_one there here others) mailboxes
  intro other known present
  by_cases same : other = id
  · subst same
    cases there.symm.trans present
    rw [if_pos rfl]
    exact keeps
  · rw [if_neg same]
    exact coherent.keeps present

theorem Coherent.poised_of_one
    (coherent : machine.Coherent current) (proper : changed.Proper id)
    (active : changed.record.active = actor.record.active)
    (running : changed.stage = .running → id = current) : after.Poised current := by
  apply poised_of_change (get?_eq_map_of_one there here others) coherent.present
  intro other known present
  by_cases same : other = id
  · subst same
    cases there.symm.trans present
    rw [if_pos rfl, active]
    exact ⟨proper, coherent.active _ _ there, running⟩
  · rw [if_neg same]
    exact ⟨coherent.proper _ _ present, coherent.active _ _ present, coherent.running _ _ present⟩

theorem Coherent.ends_of_one
    (coherent : machine.Coherent current) (waiters : changed.record.waiters = actor.record.waiters)
    (terminated : changed.record.terminated = actor.record.terminated)
    (before : ∀ other, actor.wait? ≠ some (.stop other))
    (now : ∀ other, changed.wait? ≠ some (.stop other))
    (joins : ∀ other, ¬ changed.Joins other) : after.Ends := by
  apply coherent.toEnds.of_change (get?_eq_map_of_one there here others)
  · intro other known present
    by_cases same : other = id
    · subst same
      cases there.symm.trans present
      rw [if_pos rfl]
      exact ⟨waiters, terminated⟩
    · rw [if_neg same]
      exact ⟨rfl, rfl⟩
  · intro joined other known present
    by_cases same : other = id
    · subst same
      cases there.symm.trans present
      rw [if_pos rfl]
      exact ⟨fun waits => absurd waits (now joined), fun waits => absurd waits (before joined)⟩
    · rw [if_neg same]
  · intro other known joined present joining
    by_cases same : other = id
    · rw [if_pos same] at joining
      exact absurd joining (joins joined)
    · rw [if_neg same] at joining
      exact coherent.joined other known joined present joining

end One

theorem Coherent.flags_of_enabled
    (coherent : machine.Coherent current) (there : machine.actors.get? id = some actor)
    (enabled : actor.record.enabled = true) : actor.record.Flags true false false false := by
  cases coherent.proper id actor there with
  | free flags => exact flags
  | parked flags | joining flags | yielding flags | awaiting flags | gone flags =>
      rw [flags.enabled] at enabled
      cases enabled

theorem Coherent.announces_of_enabled
    (coherent : machine.Coherent current) (there : machine.actors.get? id = some actor)
    (enabled : actor.record.enabled = true) : actor.stage.Announces id actor.record.operation := by
  cases coherent.proper id actor there with
  | free flags announced => exact announced
  | parked flags | joining flags | yielding flags | awaiting flags | gone flags =>
      rw [flags.enabled] at enabled
      cases enabled

theorem Coherent.keeps_of_enabled
    (coherent : machine.Coherent current) (there : machine.actors.get? id = some actor)
    (enabled : actor.record.enabled = true) (flags : record.Flags true false false false)
    (announced : stage.Announces id record.operation) (living : stage.isOver = false)
    (running : stage = .running → id = current) (active : record.active = actor.record.active)
    (waiters : record.waiters = actor.record.waiters)
    (queued : ∀ slot body, stage = .waiting (.receive ⟨id, slot⟩) body →
      machine.Queued ⟨id, slot⟩ record.sendStep)
    (joined : ∀ other strict body, stage = .waiting (.join other strict) body →
      machine.Over other) :
    machine.Keeps current id actor ⟨record, stage⟩ := by
  have idle : (⟨record, stage⟩ : Actor σ μ).wait? = none := Actor.wait?_of_enabled flags.enabled
  have before : actor.wait? = none := Actor.wait?_of_enabled enabled
  have alive := (coherent.flags_of_enabled there enabled).terminated
  constructor
  case proper => exact .free flags announced living
  case active =>
    rw [active]
    exact coherent.active id actor there
  case running => exact running
  case waiters => exact waiters
  case terminated => rw [flags.terminated, alive]
  case message =>
    intro slot
    rw [idle, before]
  case stop =>
    intro other
    rw [idle, before]
  case queued =>
    intro slot receives
    obtain ⟨-, body, same⟩ := receives
    exact queued slot body same
  case joined =>
    intro other joins
    obtain ⟨-, strict, body, same⟩ := joins
    exact joined other strict body same

section Announce

variable {prepared : Machine σ μ} {noted : Record}
  (coherent : machine.Coherent id) (there : machine.actors.get? id = some ⟨record, .running⟩)
  (here : prepared.actors.get? id = some ⟨noted, .running⟩)
  (others : ∀ other, other ≠ id → prepared.actors.get? other = machine.actors.get? other)

theorem get?_announce_of_some (here : prepared.actors.get? id = some actor) :
    (prepared.announce id operation stage).actors.get? id =
      some ⟨actor.record.announce operation, stage⟩ := by
  rw [get?_announce, here, Option.map_some, if_pos rfl]

theorem get?_announce_of_other (differs : other ≠ id) :
    (prepared.announce id operation stage).actors.get? other = prepared.actors.get? other := by
  rw [get?_announce]
  simp only [if_neg differs]
  exact Option.map_id'

include coherent there here others

theorem Coherent.announce_free
    (mailboxes : prepared.mailboxes = machine.mailboxes)
    (before : record.enabled = true) (flags : noted.Flags true false false false)
    (announced : stage.Announces id operation)
    (living : stage.isOver = false) (active : noted.active = record.active)
    (waiters : noted.waiters = record.waiters)
    (queued : ∀ slot body, stage = .waiting (.receive ⟨id, slot⟩) body →
      machine.Queued ⟨id, slot⟩ (noted.announce operation).sendStep)
    (joined : ∀ other strict body, stage = .waiting (.join other strict) body →
      machine.Over other) :
    (prepared.announce id operation stage).Coherent id := by
  apply coherent.revise_one there (get?_announce_of_some here) _ mailboxes
  · exact coherent.keeps_of_enabled there before
      ⟨flags.enabled, flags.yielded, flags.awaiting, flags.terminated⟩ announced living
      (fun _ => rfl) active waiters queued joined
  · intro other differs
    rw [get?_announce_of_other differs, others other differs]

end Announce

theorem get?_modifyRecord_self
    (there : machine.actors.get? id = some actor) (change : Record → Record) :
    (machine.modifyRecord id change).actors.get? id =
      some { actor with record := change actor.record } := by
  rw [get?_modifyRecord, there, Option.map_some, if_pos rfl]

theorem get?_modifyRecord_other (differs : other ≠ id) (change : Record → Record) :
    (machine.modifyRecord id change).actors.get? other = machine.actors.get? other := by
  rw [get?_modifyRecord]
  simp only [if_neg differs]
  exact Option.map_id'

theorem get?_joining
    (machine : Machine σ μ) (id other : ActorId) (strict : Bool) (body : σ) (known : ActorId) :
    (((machine.modifyRecord other fun record =>
      { record with waiters := record.waiters ++ [id] }).modifyRecord id Record.disable).announce id
        (.join other) (.waiting (.join other strict) body)).actors.get? known =
      (machine.actors.get? known).map (Actor.joining id other strict body known) := by
  rw [get?_announce, get?_modifyRecord, get?_modifyRecord, Option.map_map, Option.map_map]
  congr 1
  funext actor
  by_cases self : known = id
  · by_cases same : known = other
    · simp [Actor.joining, Record.announce, Record.disable, Operation.join, self, ← same]
    · simp [Actor.joining, Record.announce, Record.disable, Operation.join, self, self ▸ same]
  · by_cases same : known = other
    · simp [Actor.joining, ← same, self]
    · simp [Actor.joining, self, same]

section Calling

variable {slot : Nat} {box : Mailbox μ} {body : σ}
  (coherent : machine.Coherent id) (there : machine.actors.get? id = some ⟨record, .running⟩)
  (flags : record.Flags true false false false)

include coherent there flags

theorem Coherent.ready
    {head : Envelope μ} {rest : List (Envelope μ)} (found : machine.mailboxes[slot]? = some box)
    (owned : box.owner = id) (queue : box.messages = head :: rest) :
    ((machine.modifyRecord id fun record =>
      { record with sendStep := some head.sendStep }).announce id (.receive id)
        (.waiting (.receive ⟨id, slot⟩) body)).Coherent id := by
  have announced :
      (.waiting (.receive ⟨id, slot⟩) body : Stage σ μ).Announces id (.receive id) := ⟨rfl, rfl⟩
  apply coherent.announce_free there (get?_modifyRecord_self there _)
    (fun other differs => get?_modifyRecord_other differs _) rfl flags.enabled
    ⟨flags.enabled, flags.yielded, flags.awaiting, flags.terminated⟩ announced rfl rfl rfl
  · intro other body same
    cases same
    exact ⟨box, head, rest, found, owned, queue, rfl⟩
  · intro other strict body same
    cases same

theorem Coherent.park
    (found : machine.mailboxes[slot]? = some box) (owned : box.owner = id)
    (queue : box.messages = []) :
    ((machine.park ⟨id, slot⟩).announce id (.receive id)
      (.waiting (.receive ⟨id, slot⟩) body)).Coherent id := by
  have parked := get?_modifyRecord_self there fun record =>
    { record with enabled := false, sendStep := none }
  have here : ((machine.park ⟨id, slot⟩).announce id (.receive id)
      (.waiting (.receive ⟨id, slot⟩) body)).actors.get? id = _ := get?_announce_of_some parked
  have others : ∀ other, other ≠ id → ((machine.park ⟨id, slot⟩).announce id (.receive id)
      (.waiting (.receive ⟨id, slot⟩) body)).actors.get? other = machine.actors.get? other := by
    intro other differs
    rw [get?_announce_of_other differs]
    show (machine.modifyRecord id fun record =>
      { record with enabled := false, sendStep := none }).actors.get? other = _
    exact get?_modifyRecord_other differs _
  have idle : (⟨record, .running⟩ : Actor σ μ).wait? = none := Actor.wait?_of_enabled flags.enabled
  refine ⟨?_, ?_, ?_⟩
  · apply coherent.poised_of_one there here others
    · exact .parked ⟨rfl, flags.yielded, flags.awaiting, flags.terminated⟩ rfl
    · rfl
    · intro impossible
      cases impossible
  · exact coherent.toMail.park found owned there (get?_eq_map_of_one there here others) queue
      (getElem?_modifyMailbox machine slot · _) idle rfl
  · apply coherent.ends_of_one there here others rfl rfl
    · rw [idle]
      intro other waits
      cases waits
    · intro other waits
      cases waits
    · intro other
      exact not_joins_of_wait? (show _ = some (Wait.message slot) from rfl)

theorem Coherent.join
    {target : Actor σ μ} (strict : Bool) (present : machine.actors.get? other = some target)
    (living : target.record.terminated = false) :
    (((machine.modifyRecord other fun record =>
      { record with waiters := record.waiters ++ [id] }).modifyRecord id Record.disable).announce id
        (.join other) (.waiting (.join other strict) body)).Coherent id := by
  have actors := get?_joining machine id other strict body
  have idle : (⟨record, .running⟩ : Actor σ μ).wait? = none := Actor.wait?_of_enabled flags.enabled
  have self : ∀ known, machine.actors.get? id = some known → known = ⟨record, .running⟩ := by
    intro known same
    exact Option.some.inj (same.symm.trans there)
  have before : ∀ known actor, machine.actors.get? known = some actor → known = id →
      actor = ⟨record, .running⟩ := by
    rintro known actor found rfl
    exact Option.some.inj (found.symm.trans there)
  refine ⟨?_, ?_, ?_⟩
  · apply poised_of_change actors coherent.present
    intro known actor found
    rw [Actor.active_joining]
    by_cases same : known = id
    · cases before known actor found same
      rw [Actor.joining, if_pos same, same]
      exact ⟨.joining ⟨rfl, flags.yielded, flags.awaiting, flags.terminated⟩ rfl,
        coherent.active _ _ there, fun impossible => by cases impossible⟩
    · rw [Actor.joining, if_neg same]
      exact ⟨(coherent.proper known actor found).with_record rfl rfl rfl rfl rfl, coherent.active known actor found,
        coherent.running known actor found⟩
  · apply coherent.toMail.of_change actors rfl
    · intro slot known actor found
      by_cases same : known = id
      · cases before known actor found same
        rw [Actor.joining, if_pos same, idle]
        constructor
        · intro impossible
          cases impossible
        · intro impossible
          cases impossible
      · rw [Actor.joining, if_neg same]
        exact Iff.rfl
    · intro known actor slot found receives
      by_cases same : known = id
      · rw [Actor.joining, if_pos same] at receives
        obtain ⟨-, body, impossible⟩ := receives
        cases impossible
      · rw [Actor.joining, if_neg same] at receives ⊢
        exact coherent.queued known actor slot found receives
  · apply coherent.toEnds.join actors there idle ⟨target, present, living⟩
    · intro known actor _
      exact Actor.waiters_joining actor
    · intro known actor _
      exact Actor.terminated_joining actor
    · intro known actor joined found
      by_cases same : known = id
      · rw [Actor.joining, if_pos same, if_pos same]
        constructor
        · intro waits
          cases waits
          rfl
        · rintro rfl
          rfl
      · rw [Actor.joining, if_neg same, if_neg same]
        exact Iff.rfl
    · intro known actor joined found joins
      by_cases same : known = id
      · rw [Actor.joining, if_pos same] at joins
        cases joins.1
      · rw [Actor.joining, if_neg same] at joins
        exact coherent.joined known actor joined found joins

theorem Coherent.pass
    {noted : Record} {prepared : Machine σ μ}
    (here : prepared.actors.get? id = some ⟨noted, .running⟩)
    (others : ∀ other, other ≠ id → prepared.actors.get? other = machine.actors.get? other)
    (mailboxes : prepared.mailboxes = machine.mailboxes)
    (proper : (⟨noted.announce operation, .waiting .pass body⟩ : Actor σ μ).Proper id)
    (active : noted.active = record.active) (waiters : noted.waiters = record.waiters)
    (terminated : noted.terminated = false) :
    (prepared.announce id operation (.waiting .pass body)).Coherent id := by
  apply coherent.revise_one there (get?_announce_of_some here) _ mailboxes
  · have idle : (⟨record, .running⟩ : Actor σ μ).wait? = none :=
      Actor.wait?_of_enabled flags.enabled
    constructor
    case proper => exact proper
    case active =>
      have same := coherent.active id _ there
      rw [← active] at same
      exact same
    case running =>
      intro impossible
      cases impossible
    case waiters => exact waiters
    case terminated => exact terminated.trans flags.terminated.symm
    case message =>
      intro slot
      rw [idle]
      exact ⟨fun waits => absurd waits (Actor.not_message_of_pass slot), fun none => by cases none⟩
    case stop =>
      intro other
      rw [idle]
      exact ⟨fun waits => absurd waits (Actor.not_stop_of_pass other), fun none => by cases none⟩
    case queued =>
      intro slot receives
      obtain ⟨-, body, impossible⟩ := receives
      cases impossible
    case joined =>
      intro other joins
      obtain ⟨-, strict, body, impossible⟩ := joins
      cases impossible
  · intro other differs
    rw [get?_announce_of_other differs, others other differs]

/-- A call announces its operation: the actor is free to go on, or begins to wait for what has to
come first. -/
theorem Prepares.announced
    {call : Call σ μ} {pending : Pending σ μ} {prepared : Machine σ μ}
    (prepares : Prepares machine id call pending operation prepared) (body : σ) :
    (prepared.announce id operation (.waiting pending body)).Coherent id := by
  have unchanged : ∀ other, other ≠ id → machine.actors.get? other = machine.actors.get? other :=
    fun _ _ => rfl
  cases prepares with
  | create name child =>
      have announced :
          (.waiting (.create name child) body : Stage σ μ).Announces id .create := rfl
      apply coherent.announce_free there there unchanged rfl flags.enabled flags announced rfl rfl
        rfl
      · intro slot body impossible
        cases impossible
      · intro other strict body impossible
        cases impossible
  | send address message =>
      have announced :
          (.waiting (.send address message) body : Stage σ μ).Announces id (.send address.owner) := rfl
      apply coherent.announce_free there there unchanged rfl flags.enabled flags announced rfl rfl
        rfl
      · intro slot body impossible
        cases impossible
      · intro other strict body impossible
        cases impossible
  | ready found owned queue => exact coherent.ready there flags found owned queue
  | park found owned queue => exact coherent.park there flags found owned queue
  | @joinOver other strict terminated =>
      have announced :
          (.waiting (.join other strict) body : Stage σ μ).Announces id (.join other) := rfl
      apply coherent.announce_free there there unchanged rfl flags.enabled flags announced rfl rfl
        rfl
      · intro slot body impossible
        cases impossible
      · intro other strict body same
        cases same
        exact terminated
  | join strict present living => exact coherent.join there flags strict present living
  | yield =>
      exact coherent.pass there flags (get?_modifyRecord_self there _)
        (fun other differs => get?_modifyRecord_other differs _) rfl
        (.yielding ⟨rfl, rfl, flags.awaiting, flags.terminated⟩ rfl) rfl rfl flags.terminated
  | awaitDeadlock =>
      exact coherent.pass there flags (get?_modifyRecord_self there _)
        (fun other differs => get?_modifyRecord_other differs _) rfl
        (.awaiting ⟨rfl, flags.yielded, rfl, flags.terminated⟩ rfl) rfl rfl flags.terminated

end Calling

theorem getElem?_wakeReceiver (machine : Machine σ μ) (address : Address) (message : μ)
    (position : Nat) :
    ((machine.post address message).wakeReceiver address).mailboxes[position]? =
      (machine.mailboxes[position]?).map fun box =>
        if position = address.slot then
          { box with
            messages := box.messages ++ [⟨machine.steps, message⟩], receiverParked := false }
        else box := by
  change (((machine.post address message).modifyMailbox address.slot _).mailboxes)[position]? = _
  rw [getElem?_modifyMailbox, post, getElem?_modifyMailbox, Option.map_map]
  congr 1
  funext box
  by_cases here : position = address.slot
  · simp [here]
  · simp [here]

section Proceeding

variable {address : Address} {box : Mailbox μ} {message : μ}
  (coherent : machine.Coherent id)

include coherent

theorem Coherent.resume
    (there : machine.actors.get? id = some actor) (enabled : actor.record.enabled = true) :
    machine.Ready id := by
  have flags := coherent.flags_of_enabled there enabled
  have here : (machine.setStage id .running).actors.get? id = some ⟨actor.record, .running⟩ := by
    rw [get?_setStage, there, Option.map_some, if_pos rfl]
  apply coherent.revise_one there here _ rfl
  · have announced : (.running : Stage σ μ).Announces id actor.record.operation := trivial
    apply coherent.keeps_of_enabled there enabled flags announced rfl (fun _ => rfl) rfl rfl
    · intro slot body impossible
      cases impossible
    · intro other strict body impossible
      cases impossible
  · intro other differs
    rw [get?_setStage]
    simp only [if_neg differs]
    exact Option.map_id'

theorem Coherent.post
    (found : machine.mailboxes[address.slot]? = some box) (free : box.receiverParked = false) :
    (machine.post address message).Coherent id where
  present := coherent.present
  proper := coherent.proper
  active := coherent.active
  running := coherent.running
  toMail := coherent.toMail.deliver_free found free ⟨machine.steps, message⟩ (fun _ => rfl)
    (getElem?_modifyMailbox machine address.slot · _)
  waiters := coherent.waiters
  living := coherent.living
  joined := coherent.joined

theorem Coherent.wake
    (found : machine.mailboxes[address.slot]? = some box) (owned : box.owner = address.owner)
    (parked : box.receiverParked = true) :
    ((machine.post address message).wakeReceiver address).Coherent id := by
  obtain ⟨owner, slot⟩ := address
  subst owned
  obtain ⟨owner, there, waits⟩ := exists_of_wait? ((coherent.parked slot box found).mp parked)
  obtain ⟨record, body, rfl, flags, announced⟩ :=
    (coherent.proper _ _ there).exists_of_message waits
  have here : ((machine.post ⟨box.owner, slot⟩ message).wakeReceiver
      ⟨box.owner, slot⟩).actors.get? box.owner =
        some ⟨{ record with enabled := true, sendStep := some machine.steps },
          .waiting (.receive ⟨box.owner, slot⟩) body⟩ :=
    get?_modifyRecord_self there fun record =>
      { record with enabled := true, sendStep := some machine.steps }
  have others : ∀ other, other ≠ box.owner →
      ((machine.post ⟨box.owner, slot⟩ message).wakeReceiver ⟨box.owner, slot⟩).actors.get? other =
        machine.actors.get? other :=
    fun other differs => get?_modifyRecord_other differs _
  refine ⟨?_, ?_, ?_⟩
  · apply coherent.poised_of_one there here others
    · exact .free ⟨rfl, flags.yielded, flags.awaiting, flags.terminated⟩ ⟨announced, rfl⟩ rfl
    · rfl
    · intro impossible
      cases impossible
  · apply coherent.toMail.deliver_parked found ⟨machine.steps, message⟩ parked there
      (get?_eq_map_of_one there here others)
      (getElem?_wakeReceiver machine ⟨box.owner, slot⟩ message)
    · exact Actor.wait?_of_enabled rfl
    · rfl
    · intro position receives
      obtain ⟨-, body, same⟩ := receives
      cases same
      rfl
  · apply coherent.ends_of_one there here others rfl rfl
    · intro other impossible
      rw [waits] at impossible
      cases impossible
    · intro other impossible
      rw [Actor.wait?_of_enabled rfl] at impossible
      cases impossible
    · intro other joins
      obtain ⟨-, strict, body, impossible⟩ := joins
      cases impossible

end Proceeding

theorem Ready.drop
    {address : Address} {box : Mailbox μ} {head : Envelope μ} {rest : List (Envelope μ)}
    (ready : machine.Ready id) (found : machine.mailboxes[address.slot]? = some box)
    (owned : box.owner = id) (queue : box.messages = head :: rest) :
    (machine.drop address).Ready id := by
  obtain ⟨record, there, flags⟩ := ready.exists_running
  have idle : (⟨record, .running⟩ : Actor σ μ).wait? = none := Actor.wait?_of_enabled flags.enabled
  have actors : ∀ other, ((machine.drop address).setStage id .running).actors.get? other =
      ((machine.setStage id .running).actors.get? other).map fun actor =>
        if other = id then ⟨record, .running⟩ else actor :=
    get?_eq_map_of_one there there fun _ _ => rfl
  refine ⟨⟨ready.present, ready.proper, ready.active, ready.running⟩, ?_,
    ⟨ready.waiters, ready.living, ready.joined⟩⟩
  apply ready.toMail.take found owned there actors queue
    (getElem?_modifyMailbox machine address.slot · _) idle idle
  intro other receives
  obtain ⟨-, body, impossible⟩ := receives
  cases impossible

theorem Completes.ready
    {pending : Pending σ μ} {body : σ} {answer : Reply μ}
    (completes : Completes machine pending answer after) (coherent : machine.Coherent id)
    (there : machine.actors.get? id = some ⟨record, .waiting pending body⟩)
    (enabled : record.enabled = true) : after.Ready id := by
  cases completes with
  | start | join | pass => exact coherent.resume there enabled
  | create name child =>
      have still : (machine.withActor name child).actors.get? id = _ := get?_settled rfl there
      exact (coherent.withActor name child).resume still enabled
  | send message found owned free =>
      have posted : (machine.post _ message).Coherent id := coherent.post found free
      exact posted.resume there enabled
  | @wake address box message found owned parked =>
      have woken : ((machine.post address message).wakeReceiver address).Coherent id :=
        coherent.wake found owned parked
      have waits := (coherent.parked _ _ found).mp parked
      have differs : id ≠ address.owner := by
        rintro rfl
        rw [owned, wait?_of_get? there, Actor.wait?_of_enabled enabled] at waits
        cases waits
      have still : ((machine.post address message).wakeReceiver address).actors.get? id = _ :=
        (get?_modifyRecord_other differs _).trans there
      exact woken.resume still enabled
  | @receive address box head rest found owned queue =>
      have own : address.owner = id := by
        cases coherent.proper id _ there with
        | free flags announced => exact announced.2
        | parked => rfl
        | gone flags announced stopped => cases stopped
      exact (coherent.resume there enabled).drop found (owned.trans own) queue

end Machine

end Interleave
