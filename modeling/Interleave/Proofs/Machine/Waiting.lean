import Interleave.Proofs.Machine.Effects

namespace Interleave

inductive Wait
  | message (slot : Nat)
  | stop (other : ActorId)
  | progress
  | deadlock
deriving DecidableEq

structure Record.Flags (record : Record) (enabled yielded awaiting terminated : Bool) : Prop where
  enabled : record.enabled = enabled
  yielded : record.yielded = yielded
  awaiting : record.awaitingDeadlock = awaiting
  terminated : record.terminated = terminated

variable {σ μ : Type}

namespace Stage

def isOver : Stage σ μ → Bool
  | .ending terminated => terminated
  | .ended => true
  | _ => false

def Announces (id : ActorId) (operation : Operation) : Stage σ μ → Prop
  | .running => True
  | .waiting (.start _) _ => operation = .start id
  | .waiting (.create ..) _ => operation = .create
  | .waiting (.send address _) _ => operation = .send address.owner
  | .waiting (.receive address) _ => operation = .receive id ∧ address.owner = id
  | .waiting (.join other _) _ => operation = .join other
  | .waiting .pass _ => operation = .yield id ∨ operation = .awaitDeadlock id
  | .ending _ | .ended => operation = .stop id

end Stage

namespace Actor

/-- What a disabled actor waits for. -/
def wait? (actor : Actor σ μ) : Option Wait :=
  if actor.record.enabled then none
  else match actor.stage with
    | .waiting (.receive address) _ => some (.message address.slot)
    | .waiting (.join other _) _ => some (.stop other)
    | .waiting .pass _ => some (if actor.record.yielded then .progress else .deadlock)
    | _ => none

def Receives (actor : Actor σ μ) (address : Address) : Prop :=
  actor.record.enabled = true ∧ ∃ body, actor.stage = .waiting (.receive address) body

def Joins (actor : Actor σ μ) (other : ActorId) : Prop :=
  actor.record.enabled = true ∧ ∃ strict body, actor.stage = .waiting (.join other strict) body

/-- The flags of an actor and its operation fit its stage. -/
inductive Proper (id : ActorId) : Actor σ μ → Prop
  | free {record : Record} {stage : Stage σ μ} (flags : record.Flags true false false false)
      (announced : stage.Announces id record.operation) (living : stage.isOver = false) :
      Proper id ⟨record, stage⟩
  | parked {record : Record} {slot : Nat} {body : σ}
      (flags : record.Flags false false false false)
      (announced : record.operation = .receive id) :
      Proper id ⟨record, .waiting (.receive ⟨id, slot⟩) body⟩
  | joining {record : Record} {other : ActorId} {strict : Bool} {body : σ}
      (flags : record.Flags false false false false)
      (announced : record.operation = .join other) :
      Proper id ⟨record, .waiting (.join other strict) body⟩
  | yielding {record : Record} {body : σ} (flags : record.Flags false true false false)
      (announced : record.operation = .yield id) : Proper id ⟨record, .waiting .pass body⟩
  | awaiting {record : Record} {body : σ} (flags : record.Flags false false true false)
      (announced : record.operation = .awaitDeadlock id) :
      Proper id ⟨record, .waiting .pass body⟩
  | gone {record : Record} {stage : Stage σ μ} (flags : record.Flags false false false true)
      (announced : record.operation = .stop id) (gone : stage.isOver = true) :
      Proper id ⟨record, stage⟩

variable {actor : Actor σ μ} {id : ActorId}

theorem wait?_of_enabled (enabled : actor.record.enabled = true) : actor.wait? = none :=
  if_pos enabled

theorem enabled_of_wait? {wait : Wait} (waits : actor.wait? = some wait) :
    actor.record.enabled = false := by
  cases enabled : actor.record.enabled with
  | false => rfl
  | true =>
      rw [wait?_of_enabled enabled] at waits
      cases waits

theorem wait?_of_over (gone : actor.stage.isOver = true) : actor.wait? = none := by
  unfold wait?
  split
  · rfl
  · split
    · rename_i same
      rw [same] at gone
      cases gone
    · rename_i same
      rw [same] at gone
      cases gone
    · rename_i same
      rw [same] at gone
      cases gone
    · rfl

theorem wait?_pass {record : Record} {body : σ} {wait : Wait}
    (waits : (⟨record, .waiting .pass body⟩ : Actor σ μ).wait? = some wait) :
    wait = .progress ∨ wait = .deadlock := by
  simp only [wait?] at waits
  split at waits
  · cases waits
  · split at waits
    · exact .inl (Option.some.inj waits).symm
    · exact .inr (Option.some.inj waits).symm

theorem not_message_of_pass {record : Record} {body : σ} (slot : Nat) :
    (⟨record, .waiting .pass body⟩ : Actor σ μ).wait? ≠ some (.message slot) := by
  intro waits
  rcases wait?_pass waits with impossible | impossible
  · cases impossible
  · cases impossible

theorem not_stop_of_pass {record : Record} {body : σ} (other : ActorId) :
    (⟨record, .waiting .pass body⟩ : Actor σ μ).wait? ≠ some (.stop other) := by
  intro waits
  rcases wait?_pass waits with impossible | impossible
  · cases impossible
  · cases impossible

theorem Proper.exists_of_message
    {slot : Nat} (proper : actor.Proper id) (waits : actor.wait? = some (.message slot)) :
    ∃ record body, actor = ⟨record, .waiting (.receive ⟨id, slot⟩) body⟩ ∧
      record.Flags false false false false ∧ record.operation = .receive id := by
  have disabled := enabled_of_wait? waits
  cases proper with
  | free flags =>
      rw [flags.enabled] at disabled
      cases disabled
  | @parked record known body flags announced =>
      simp only [wait?, flags.enabled, Bool.false_eq_true, if_false, Option.some.injEq,
        Wait.message.injEq] at waits
      subst waits
      exact ⟨record, body, rfl, flags, announced⟩
  | joining flags | yielding flags | awaiting flags =>
      simp [wait?, flags.enabled, flags.yielded] at waits
  | gone flags announced stopped =>
      rw [wait?_of_over stopped] at waits
      cases waits

theorem Proper.exists_of_stop
    {other : ActorId} (proper : actor.Proper id) (waits : actor.wait? = some (.stop other)) :
    ∃ record strict body, actor = ⟨record, .waiting (.join other strict) body⟩ ∧
      record.Flags false false false false ∧ record.operation = .join other := by
  have disabled := enabled_of_wait? waits
  cases proper with
  | free flags =>
      rw [flags.enabled] at disabled
      cases disabled
  | @joining record known strict body flags announced =>
      simp only [wait?, flags.enabled, Bool.false_eq_true, if_false, Option.some.injEq,
        Wait.stop.injEq] at waits
      subst waits
      exact ⟨record, strict, body, rfl, flags, announced⟩
  | parked flags | yielding flags | awaiting flags =>
      simp [wait?, flags.enabled, flags.yielded] at waits
  | gone flags announced stopped =>
      rw [wait?_of_over stopped] at waits
      cases waits

theorem Proper.exists_of_progress
    (proper : actor.Proper id) (waits : actor.wait? = some .progress) :
    ∃ record body, actor = ⟨record, .waiting .pass body⟩ ∧
      record.Flags false true false false ∧ record.operation = .yield id := by
  have disabled := enabled_of_wait? waits
  cases proper with
  | free flags =>
      rw [flags.enabled] at disabled
      cases disabled
  | @yielding record body flags announced => exact ⟨record, body, rfl, flags, announced⟩
  | parked flags | joining flags | awaiting flags =>
      simp [wait?, flags.enabled, flags.yielded] at waits
  | gone flags announced stopped =>
      rw [wait?_of_over stopped] at waits
      cases waits

theorem Proper.exists_of_deadlock
    (proper : actor.Proper id) (waits : actor.wait? = some .deadlock) :
    ∃ record body, actor = ⟨record, .waiting .pass body⟩ ∧
      record.Flags false false true false ∧ record.operation = .awaitDeadlock id := by
  have disabled := enabled_of_wait? waits
  cases proper with
  | free flags =>
      rw [flags.enabled] at disabled
      cases disabled
  | @awaiting record body flags announced => exact ⟨record, body, rfl, flags, announced⟩
  | parked flags | joining flags | yielding flags =>
      simp [wait?, flags.enabled, flags.yielded] at waits
  | gone flags announced stopped =>
      rw [wait?_of_over stopped] at waits
      cases waits

/-- An actor that is blocked and lives waits for something. -/
theorem Proper.exists_wait?
    (proper : actor.Proper id) (living : actor.record.terminated = false)
    (disabled : actor.record.enabled = false) : ∃ wait, actor.wait? = some wait := by
  cases proper with
  | free flags =>
      rw [flags.enabled] at disabled
      cases disabled
  | @parked record slot body flags =>
      exact ⟨.message slot, by simp [wait?, flags.enabled]⟩
  | @joining record other strict body flags =>
      exact ⟨.stop other, by simp [wait?, flags.enabled]⟩
  | yielding flags => exact ⟨.progress, by simp [wait?, flags.enabled, flags.yielded]⟩
  | awaiting flags => exact ⟨.deadlock, by simp [wait?, flags.enabled, flags.yielded]⟩
  | gone flags =>
      rw [flags.terminated] at living
      cases living

theorem Proper.wait?_of_yielded
    (proper : actor.Proper id) (yielded : actor.record.yielded = true) :
    actor.wait? = some .progress := by
  cases proper with
  | yielding flags => simp [wait?, flags.enabled, flags.yielded]
  | free flags | parked flags | joining flags | awaiting flags | gone flags =>
      rw [flags.yielded] at yielded
      cases yielded

theorem Proper.wait?_of_awaiting
    (proper : actor.Proper id) (awaiting : actor.record.awaitingDeadlock = true) :
    actor.wait? = some .deadlock := by
  cases proper with
  | awaiting flags => simp [wait?, flags.enabled, flags.yielded]
  | free flags | parked flags | joining flags | yielding flags | gone flags =>
      rw [flags.awaiting] at awaiting
      cases awaiting

end Actor

namespace Machine

variable {machine after : Machine σ μ} {current id : ActorId} {actor changed : Actor σ μ}

def wait? (machine : Machine σ μ) (id : ActorId) : Option Wait :=
  (machine.actors.get? id).bind Actor.wait?

/-- A message is there for the owner, who has noted the step at which it was sent. -/
def Queued (machine : Machine σ μ) (address : Address) (sendStep : Option Nat) : Prop :=
  ∃ box head rest, machine.mailboxes[address.slot]? = some box ∧ box.owner = address.owner ∧
    box.messages = head :: rest ∧ sendStep = some head.sendStep

def Over (machine : Machine σ μ) (id : ActorId) : Prop :=
  ∃ actor, machine.actors.get? id = some actor ∧ actor.record.terminated = true

structure Poised (machine : Machine σ μ) (current : ActorId) : Prop where
  present : ∃ actor, machine.actors.get? current = some actor
  proper : ∀ id actor, machine.actors.get? id = some actor → actor.Proper id
  active : ∀ id actor, machine.actors.get? id = some actor →
    (actor.record.active = true ↔ id = current)
  running : ∀ id actor, machine.actors.get? id = some actor → actor.stage = .running →
    id = current

/-- A mailbox knows that its owner waits for a message exactly if it does, and then it is empty. An
owner that can receive has a message. -/
structure Mail (machine : Machine σ μ) : Prop where
  parked : ∀ slot box, machine.mailboxes[slot]? = some box →
    (box.receiverParked = true ↔ machine.wait? box.owner = some (.message slot))
  empty : ∀ id slot, machine.wait? id = some (.message slot) →
    ∃ box, machine.mailboxes[slot]? = some box ∧ box.owner = id ∧ box.messages = []
  queued : ∀ id actor slot, machine.actors.get? id = some actor → actor.Receives ⟨id, slot⟩ →
    machine.Queued ⟨id, slot⟩ actor.record.sendStep

/-- An actor knows once each of those that wait for its end, and it has not terminated. Whom a join
that can go on has waited for has. -/
structure Ends (machine : Machine σ μ) : Prop where
  waiters : ∀ other target, machine.actors.get? other = some target → ∀ id,
    target.record.waiters.count id = if machine.wait? id = some (.stop other) then 1 else 0
  living : ∀ id other, machine.wait? id = some (.stop other) →
    ∃ target, machine.actors.get? other = some target ∧ target.record.terminated = false
  joined : ∀ id actor other, machine.actors.get? id = some actor → actor.Joins other →
    machine.Over other

/-- Everything tells the same about who waits for what. -/
structure Coherent (machine : Machine σ μ) (current : ActorId) : Prop extends
  machine.Poised current, machine.Mail, machine.Ends

theorem wait?_of_get? (present : machine.actors.get? id = some actor) :
    machine.wait? id = actor.wait? := by
  rw [wait?, present, Option.bind_some]

theorem Ends.mem_waiters_iff
    {other : ActorId} (ends : machine.Ends) (there : machine.actors.get? other = some actor)
    (id : ActorId) : id ∈ actor.record.waiters ↔ machine.wait? id = some (.stop other) := by
  have count := ends.waiters other actor there id
  constructor
  · intro waits
    split at count
    · assumption
    · exact absurd waits (List.count_eq_zero.mp count)
  · intro waits
    rw [if_pos waits] at count
    exact List.count_pos_iff.mp (by omega)

theorem exists_of_wait? {wait : Wait} (waits : machine.wait? id = some wait) :
    ∃ actor, machine.actors.get? id = some actor ∧ actor.wait? = some wait :=
  Option.bind_eq_some_iff.mp waits

section Revise

variable {change : ActorId → Actor σ μ → Actor σ μ}
  (actors : ∀ id, after.actors.get? id = (machine.actors.get? id).map (change id))

include actors

theorem exists_get?_of_change (found : after.actors.get? id = some changed) :
    ∃ actor, machine.actors.get? id = some actor ∧ change id actor = changed := by
  rw [actors] at found
  exact Option.map_eq_some_iff.mp found

theorem get?_change (present : machine.actors.get? id = some actor) :
    after.actors.get? id = some (change id actor) := by
  rw [actors, present, Option.map_some]

theorem wait?_change_iff
    {wait : Wait} (same : ∀ id actor, machine.actors.get? id = some actor →
      ((change id actor).wait? = some wait ↔ actor.wait? = some wait)) (id : ActorId) :
    after.wait? id = some wait ↔ machine.wait? id = some wait := by
  simp only [wait?, actors]
  cases there : machine.actors.get? id with
  | none => rfl
  | some actor => exact same id actor there

theorem poised_of_change
    (present : ∃ actor, machine.actors.get? current = some actor)
    (kept : ∀ id actor, machine.actors.get? id = some actor → (change id actor).Proper id ∧
      ((change id actor).record.active = true ↔ id = current) ∧
      ((change id actor).stage = .running → id = current)) : after.Poised current where
  present := by
    obtain ⟨actor, there⟩ := present
    exact ⟨change current actor, get?_change actors there⟩
  proper := by
    intro id changed found
    obtain ⟨actor, there, rfl⟩ := exists_get?_of_change actors found
    exact (kept id actor there).1
  active := by
    intro id changed found
    obtain ⟨actor, there, rfl⟩ := exists_get?_of_change actors found
    exact (kept id actor there).2.1
  running := by
    intro id changed found
    obtain ⟨actor, there, rfl⟩ := exists_get?_of_change actors found
    exact (kept id actor there).2.2

theorem Mail.of_change
    (mail : machine.Mail) (mailboxes : after.mailboxes = machine.mailboxes)
    (message : ∀ slot id actor, machine.actors.get? id = some actor →
      ((change id actor).wait? = some (.message slot) ↔ actor.wait? = some (.message slot)))
    (queued : ∀ id actor slot, machine.actors.get? id = some actor →
      (change id actor).Receives ⟨id, slot⟩ →
      machine.Queued ⟨id, slot⟩ (change id actor).record.sendStep) : after.Mail where
  parked := by
    intro slot box found
    rw [mailboxes] at found
    rw [wait?_change_iff actors (message slot), mail.parked slot box found]
  empty := by
    intro id slot waits
    rw [mailboxes]
    exact mail.empty id slot ((wait?_change_iff actors (message slot) id).mp waits)
  queued := by
    intro id changed slot found receives
    obtain ⟨actor, there, rfl⟩ := exists_get?_of_change actors found
    rw [Queued, mailboxes]
    exact queued id actor slot there receives

theorem Ends.of_change
    (ends : machine.Ends)
    (kept : ∀ id actor, machine.actors.get? id = some actor →
      (change id actor).record.waiters = actor.record.waiters ∧
      (change id actor).record.terminated = actor.record.terminated)
    (stop : ∀ other id actor, machine.actors.get? id = some actor →
      ((change id actor).wait? = some (.stop other) ↔ actor.wait? = some (.stop other)))
    (joined : ∀ id actor other, machine.actors.get? id = some actor →
      (change id actor).Joins other → machine.Over other) : after.Ends where
  waiters := by
    intro other changed found id
    obtain ⟨target, there, rfl⟩ := exists_get?_of_change actors found
    rw [(kept other target there).1, ends.waiters other target there]
    simp only [wait?_change_iff actors (stop other)]
  living := by
    intro id other waits
    obtain ⟨target, there, living⟩ :=
      ends.living id other ((wait?_change_iff actors (stop other) id).mp waits)
    exact ⟨_, get?_change actors there, by rw [(kept other target there).2, living]⟩
  joined := by
    intro id changed other found joins
    obtain ⟨actor, there, rfl⟩ := exists_get?_of_change actors found
    obtain ⟨target, present, gone⟩ := joined id actor other there joins
    exact ⟨_, get?_change actors present, by rw [(kept other target present).2, gone]⟩

end Revise

/-- A change of an actor that neither begins nor ends to wait for a message or for an end. -/
structure Keeps (machine : Machine σ μ) (current id : ActorId) (actor changed : Actor σ μ) :
    Prop where
  proper : changed.Proper id
  active : changed.record.active = true ↔ id = current
  running : changed.stage = .running → id = current
  waiters : changed.record.waiters = actor.record.waiters
  terminated : changed.record.terminated = actor.record.terminated
  message : ∀ slot, changed.wait? = some (.message slot) ↔ actor.wait? = some (.message slot)
  stop : ∀ other, changed.wait? = some (.stop other) ↔ actor.wait? = some (.stop other)
  queued : ∀ slot, changed.Receives ⟨id, slot⟩ →
    machine.Queued ⟨id, slot⟩ changed.record.sendStep
  joined : ∀ other, changed.Joins other → machine.Over other

theorem Coherent.revise
    {previous : ActorId} {change : ActorId → Actor σ μ → Actor σ μ}
    (coherent : machine.Coherent previous)
    (present : ∃ actor, machine.actors.get? current = some actor)
    (actors : ∀ id, after.actors.get? id = (machine.actors.get? id).map (change id))
    (mailboxes : after.mailboxes = machine.mailboxes)
    (keeps : ∀ id actor, machine.actors.get? id = some actor →
      machine.Keeps current id actor (change id actor)) :
    after.Coherent current where
  toPoised := poised_of_change actors present fun id actor there =>
    ⟨(keeps id actor there).proper, (keeps id actor there).active, (keeps id actor there).running⟩
  toMail := coherent.toMail.of_change actors mailboxes
    (fun slot id actor there => (keeps id actor there).message slot)
    fun id actor slot there => (keeps id actor there).queued slot
  toEnds := coherent.toEnds.of_change actors
    (fun id actor there => ⟨(keeps id actor there).waiters, (keeps id actor there).terminated⟩)
    (fun other id actor there => (keeps id actor there).stop other)
    fun id actor other there => (keeps id actor there).joined other

end Machine

end Interleave
