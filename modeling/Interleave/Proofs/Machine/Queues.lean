import Interleave.Proofs.Machine.Footprint

namespace Interleave.Machine

variable {σ μ : Type} {program : Program σ μ} {machine between after : Machine σ μ}
  {id : ActorId} {address : Address} {box : Mailbox μ}

/-- The messages of a mailbox, the oldest first. -/
def queue (machine : Machine σ μ) (address : Address) : List (Envelope μ) :=
  match machine.mailboxes[address.slot]? with
  | some box => if box.owner = address.owner then box.messages else []
  | none => []

theorem queue_of_found
    (found : machine.mailboxes[address.slot]? = some box) (owned : box.owner = address.owner) :
    machine.queue address = box.messages := by
  simp only [queue, found, if_pos owned]

theorem queue_modifyMailbox
    {change : Mailbox μ → Mailbox μ} (found : machine.mailboxes[address.slot]? = some box)
    (owned : box.owner = address.owner) (owner : (change box).owner = box.owner) (other : Address) :
    (machine.modifyMailbox address.slot change).queue other =
      if other = address then (change box).messages else machine.queue other := by
  simp only [queue, getElem?_modifyMailbox]
  by_cases here : other.slot = address.slot
  · rw [here, found]
    simp only [Option.map_some, if_true, owner, owned]
    by_cases same : other = address
    · subst same
      simp
    · have differs : address.owner ≠ other.owner := by
        intro whose
        cases other
        cases address
        simp_all
      simp [same, differs]
  · have differs : other ≠ address := by
      rintro rfl
      exact here rfl
    simp [here, differs]

section Still

def Still (machine after : Machine σ μ) : Prop :=
  ∀ address, after.queue address = machine.queue address

theorem still_of_mailboxes (same : after.mailboxes = machine.mailboxes) : Still machine after := by
  intro address
  simp only [queue, same]

theorem Still.trans (first : Still machine between) (second : Still between after) :
    Still machine after :=
  fun address => (second address).trans (first address)

theorem still_withMailbox (machine : Machine σ μ) (owner : ActorId) :
    Still machine (machine.withMailbox owner) := by
  intro address
  simp only [queue, getElem?_withMailbox]
  by_cases last : address.slot = machine.mailboxes.size
  · have absent : machine.mailboxes[address.slot]? = none :=
      Array.getElem?_eq_none (Nat.le_of_eq last.symm)
    simp [last]
  · simp [last]

theorem still_modifyParked (machine : Machine σ μ) (slot : Nat) (parked : Bool) :
    Still machine (machine.modifyMailbox slot fun box => { box with receiverParked := parked }) := by
  intro address
  simp only [queue, getElem?_modifyMailbox]
  cases machine.mailboxes[address.slot]? with
  | none => rfl
  | some box => by_cases here : address.slot = slot <;> simp [here]

theorem coarse_still : Coarse (@Still σ μ) where
  tacit tacit := still_of_mailboxes tacit.mailboxes
  trans first second := first.trans second
  mailbox := still_withMailbox
  parked := still_modifyParked

end Still

theorem still_next
    (program : Program σ μ) (sane : machine.Sane)
    (idle : machine.ended = true ∨ ∀ id, machine.control ≠ .returning id) :
    Still machine (machine.next program) := by
  apply coarse_still.related_next program
  intro id control
  rcases idle with ended | others
  · rw [next_of_ended program control ended (sane.present id (by rw [control]; rfl))]
    exact coarse_still.tacit (tacit_dismissed machine id)
  · exact absurd control (others id)

theorem still_decided
    {decision : Decision} (stops : ∀ next, decision ≠ .run next) :
    Still machine (machine.decided id decision) :=
  coarse_still.tacit (tacit_decided machine id stops)

theorem Coherent.exists_of_receive
    {current : ActorId} {actor : Actor σ μ} (coherent : machine.Coherent current)
    (there : machine.actors.get? id = some actor) (enabled : actor.record.enabled = true)
    (placed : actor.stage ≠ .running) (kind : actor.record.operation.kind = .receive) :
    ∃ record address body, actor = ⟨record, .waiting (.receive address) body⟩ := by
  have announced := coherent.announces_of_enabled there enabled
  obtain ⟨record, stage⟩ := actor
  -- Only a receive announces an operation of this kind.
  have other : ∀ operation : Operation, operation.kind ≠ .receive → record.operation ≠ operation :=
    fun operation differs same => differs (by rw [← same]; exact kind)
  cases stage with
  | running => exact absurd rfl placed
  | waiting pending body =>
      cases pending with
      | receive address => exact ⟨record, address, body, rfl⟩
      | pass =>
          rcases announced with announced | announced
          · exact absurd announced (other (.yield id) nofun)
          · exact absurd announced (other (.awaitDeadlock id) nofun)
      | start => exact absurd announced (other (.start id) nofun)
      | create => exact absurd announced (other .create nofun)
      | send address => exact absurd announced (other (.send address.owner) nofun)
      | join joined => exact absurd announced (other (.join joined) nofun)
  | ending | ended => exact absurd announced (other (.stop id) nofun)

theorem Coherent.exists_head
    {current : ActorId} {record : Record} {body : σ} (coherent : machine.Coherent current)
    (there : machine.actors.get? id = some ⟨record, .waiting (.receive address) body⟩)
    (enabled : record.enabled = true) :
    record.operation = .receive id ∧ address.owner = id ∧
      ∃ head rest, machine.queue address = head :: rest ∧
        record.sendStep = some head.sendStep := by
  obtain ⟨announced, own⟩ := coherent.announces_of_enabled there enabled
  obtain ⟨owner, slot⟩ := address
  subst own
  obtain ⟨box, head, rest, found, owned, queue, noted⟩ :=
    coherent.queued _ _ slot there ⟨enabled, body, rfl⟩
  exact ⟨announced, rfl, head, rest, (queue_of_found found owned).trans queue, noted⟩

theorem queue_post
    {message : μ} (found : machine.mailboxes[address.slot]? = some box)
    (owned : box.owner = address.owner) (other : Address) :
    (machine.post address message).queue other =
      if other = address then machine.queue address ++ [⟨machine.steps, message⟩]
      else machine.queue other := by
  rw [queue_of_found found owned]
  exact queue_modifyMailbox found owned rfl other

theorem queue_drop
    (found : machine.mailboxes[address.slot]? = some box) (owned : box.owner = address.owner)
    (other : Address) :
    (machine.drop address).queue other =
      if other = address then (machine.queue address).tail else machine.queue other := by
  rw [queue_of_found found owned]
  exact queue_modifyMailbox found owned rfl other

theorem still_wakeReceiver (machine : Machine σ μ) (address : Address) :
    Still machine (machine.wakeReceiver address) :=
  still_modifyParked machine address.slot false

end Interleave.Machine
