import Interleave.Proofs.Machine.Plays

namespace Interleave

namespace Attempt

variable {σ α β : Type}

/-- Whatever is in the log, the attempt succeeds with this value and leaves this state. -/
def Gives (attempt : Attempt σ α) (before : σ) (value : α) (after : σ) : Prop :=
  ∀ log, ∃ written, attempt.Returns (before, log) value (after, written)

variable {before between after : σ} {value : α} {result : β}

theorem Gives.bind
    {first : Attempt σ α} {next : α → Attempt σ β} (gives : first.Gives before value between)
    (rest : (next value).Gives between result after) :
    (first >>= next).Gives before result after := by
  intro log
  obtain ⟨written, returned⟩ := gives log
  obtain ⟨last, returnedLast⟩ := rest written
  exact ⟨last, returns_bind_iff.mpr ⟨_, _, returned, returnedLast⟩⟩

theorem gives_pure (value : α) : (pure value : Attempt σ α).Gives before value before :=
  fun log => ⟨log, returns_pure_iff.mpr ⟨rfl, rfl⟩⟩

theorem gives_get_bind
    {next : σ → Attempt σ β} (rest : (next before).Gives before result after) :
    (get >>= next).Gives before result after :=
  .bind (fun log => ⟨log, returns_get_iff.mpr ⟨rfl, rfl⟩⟩) rest

theorem gives_modify (change : σ → σ) :
    (modify change : Attempt σ PUnit).Gives before ⟨⟩ (change before) :=
  fun log => ⟨log, returns_modify_iff.mpr rfl⟩

theorem gives_set (after : σ) : (set after : Attempt σ PUnit).Gives before ⟨⟩ after :=
  fun log => ⟨log, returns_set_iff.mpr rfl⟩

theorem gives_change {step : σ → α × σ} (same : step before = (value, after)) :
    (Attempt.change step).Gives before value after := by
  apply gives_get_bind
  rw [same]
  exact .bind (gives_set after) (gives_pure value)

theorem gives_log (event : Event) : (log event : Attempt σ Unit).Gives before () before :=
  fun log => ⟨log.add event, returns_log_iff.mpr rfl⟩

theorem gives_lift {found : Except Fault α} (ok : found = .ok value) :
    (liftM found : Attempt σ α).Gives before value before :=
  fun log => ⟨log, returns_lift_iff.mpr ⟨ok, rfl⟩⟩

end Attempt

namespace Record

def hold (active : Bool) (record : Record) : Record := { record with active := active }

@[simp] theorem active_releaseYielded (record : Record) :
    record.releaseYielded.active = record.active := by
  unfold releaseYielded
  split <;> rfl

end Record

namespace Machine

open Attempt

variable {σ μ : Type} {machine : Machine σ μ} {id other next : ActorId} {actor target : Actor σ μ}
  {box : Mailbox μ} {address : Address}

def modifyMailbox (machine : Machine σ μ) (slot : Nat) (change : Mailbox μ → Mailbox μ) :
    Machine σ μ :=
  { machine with mailboxes := machine.mailboxes.modify slot change }

theorem get?_modifyRecord (machine : Machine σ μ) (id other : ActorId) (change : Record → Record) :
    (machine.modifyRecord id change).actors.get? other =
      (machine.actors.get? other).map fun actor =>
        if other = id then { actor with record := change actor.record } else actor := by
  rw [modifyRecord, Roster.get?_modify]
  split
  · rfl
  · exact Option.map_id'.symm

theorem get?_modifyRecords
    (machine : Machine σ μ) (other : ActorId) (change : ActorId → Record → Record) :
    (machine.modifyRecords change).actors.get? other =
      (machine.actors.get? other).map fun actor =>
        { actor with record := change other actor.record } :=
  Roster.get?_map _ _ _

theorem get?_setStage (machine : Machine σ μ) (id other : ActorId) (stage : Stage σ μ) :
    (machine.setStage id stage).actors.get? other =
      (machine.actors.get? other).map fun actor =>
        if other = id then { actor with stage := stage } else actor := by
  rw [setStage, Roster.get?_modify]
  split
  · rfl
  · exact Option.map_id'.symm

theorem getElem?_modifyMailbox
    (machine : Machine σ μ) (slot position : Nat) (change : Mailbox μ → Mailbox μ) :
    (machine.modifyMailbox slot change).mailboxes[position]? =
      (machine.mailboxes[position]?).map fun box => if position = slot then change box else box := by
  rw [modifyMailbox, Array.getElem?_modify]
  simp only [eq_comm (a := position)]
  split
  · rfl
  · exact Option.map_id'.symm

theorem gives_get_actor (present : machine.actors.get? id = some actor) :
    (liftM (machine.actors.get id) : Attempt (Machine σ μ) (Actor σ μ)).Gives machine actor
      machine :=
  gives_lift (Checked.get_eq_ok_iff.mpr present)

theorem gives_record (present : machine.actors.get? id = some actor) :
    (record id).Gives machine actor.record machine :=
  gives_get_bind (.bind (gives_get_actor present) (gives_pure _))

theorem gives_record_bind
    {α : Type} {next : Record → Attempt (Machine σ μ) α} {result : α} {after : Machine σ μ}
    (actor : Actor σ μ) (present : machine.actors.get? id = some actor)
    (rest : (next actor.record).Gives machine result after) :
    (record id >>= next).Gives machine result after :=
  .bind (gives_record present) rest

theorem gives_mailbox (found : machine.mailboxes[address.slot]? = some box) :
    (mailbox address).Gives machine box machine :=
  gives_get_bind (gives_lift (Checked.get_eq_ok_iff.mpr found))

theorem gives_changeRecord (id : ActorId) (change : Record → Record) :
    (changeRecord id change).Gives machine () (machine.modifyRecord id change) :=
  gives_modify _

theorem gives_changeMailbox (address : Address) (change : Mailbox μ → Mailbox μ) :
    (changeMailbox address change).Gives machine () (machine.modifyMailbox address.slot change) :=
  gives_modify _

def withMailbox (machine : Machine σ μ) (owner : ActorId) : Machine σ μ :=
  { machine with mailboxes := machine.mailboxes.push ⟨owner, [], false⟩ }

def withActor (machine : Machine σ μ) (name : Option String) (body : σ) : Machine σ μ :=
  let id := machine.actors.nextKey
  { machine.withMailbox id with
    actors := machine.actors.push ⟨.start id name false,
      .waiting (.start (.mailbox ⟨id, machine.mailboxes.size⟩)) body⟩ }

theorem gives_addMailbox (owner : ActorId) :
    (addMailbox owner).Gives machine ⟨owner, machine.mailboxes.size⟩
      (machine.withMailbox owner) :=
  gives_change rfl

theorem gives_addActor (name : Option String) (body : σ) :
    (addActor name body).Gives machine ⟨machine.actors.nextKey, machine.mailboxes.size⟩
      (machine.withActor name body) := by
  apply gives_get_bind
  apply Gives.bind (gives_addMailbox _)
  apply Gives.bind (gives_modify _)
  exact .bind (gives_log _) (gives_pure _)

theorem modifyMailbox_congr
    {slot : Nat} {change change' : Mailbox μ → Mailbox μ} (found : machine.mailboxes[slot]? = some box)
    (same : change box = change' box) :
    machine.modifyMailbox slot change = machine.modifyMailbox slot change' := by
  simp only [modifyMailbox, Machine.mk.injEq, and_true, true_and]
  apply Array.ext_getElem?
  intro position
  rw [Array.getElem?_modify, Array.getElem?_modify]
  split
  · rename_i here
    rw [← here, found, Option.map_some, Option.map_some, same]
  · rfl

def post (machine : Machine σ μ) (address : Address) (message : μ) : Machine σ μ :=
  machine.modifyMailbox address.slot fun mailbox =>
    { mailbox with messages := mailbox.messages ++ [⟨machine.steps, message⟩] }

def wakeReceiver (machine : Machine σ μ) (address : Address) : Machine σ μ :=
  (machine.modifyMailbox address.slot fun mailbox =>
    { mailbox with receiverParked := false }).modifyRecord address.owner fun record =>
      { record with enabled := true, sendStep := some machine.steps }

def park (machine : Machine σ μ) (address : Address) : Machine σ μ :=
  (machine.modifyRecord address.owner fun record =>
    { record with enabled := false, sendStep := none }).modifyMailbox address.slot fun mailbox =>
      { mailbox with receiverParked := true }

def drop (machine : Machine σ μ) (address : Address) : Machine σ μ :=
  machine.modifyMailbox address.slot fun mailbox =>
    { mailbox with messages := mailbox.messages.tail }

theorem post_eq {message : μ} (found : machine.mailboxes[address.slot]? = some box) :
    (machine.modifyMailbox address.slot fun mailbox =>
      { mailbox with messages := box.messages ++ [⟨machine.steps, message⟩] }) =
        machine.post address message :=
  modifyMailbox_congr found rfl

section Mailboxes

variable {message : μ} (found : machine.mailboxes[address.slot]? = some box)

include found

theorem gives_deliver_free (free : box.receiverParked = false) :
    (deliver address message).Gives machine () (machine.post address message) := by
  apply gives_get_bind
  apply Gives.bind (gives_mailbox found)
  rw [← post_eq found]
  apply Gives.bind (gives_changeMailbox address _)
  apply Gives.bind (gives_log _)
  simp only [free]
  exact gives_pure _

theorem gives_deliver_parked
    (parked : box.receiverParked = true) (owner : machine.actors.get? address.owner = some actor)
    (disabled : actor.record.enabled = false) :
    (deliver address message).Gives machine ()
      ((machine.post address message).wakeReceiver address) := by
  apply gives_get_bind
  apply Gives.bind (gives_mailbox found)
  rw [← post_eq found]
  apply Gives.bind (gives_changeMailbox address _)
  apply Gives.bind (gives_log _)
  simp only [parked, if_true]
  apply Gives.bind (gives_changeMailbox address _)
  refine gives_record_bind actor owner ?_
  simp only [disabled]
  exact gives_changeRecord address.owner _

theorem gives_prepareReceive_ready
    {head : Envelope μ} {rest : List (Envelope μ)} (queued : box.messages = head :: rest) :
    (prepareReceive address).Gives machine ()
      (machine.modifyRecord address.owner fun record =>
        { record with sendStep := some head.sendStep }) := by
  apply Gives.bind (gives_mailbox found)
  simp only [queued]
  exact gives_changeRecord address.owner _

theorem gives_prepareReceive_empty
    (empty : box.messages = []) (owner : machine.actors.get? address.owner = some actor)
    (enabled : actor.record.enabled = true) :
    (prepareReceive address).Gives machine () (machine.park address) := by
  apply Gives.bind (gives_mailbox found)
  simp only [empty]
  apply Gives.bind (gives_record owner)
  simp only [enabled]
  exact .bind (gives_changeRecord address.owner _) (gives_changeMailbox address _)

theorem gives_takeMessage
    {head : Envelope μ} {rest : List (Envelope μ)} (queued : box.messages = head :: rest) :
    (takeMessage address).Gives machine head.message (machine.drop address) := by
  have dropped : (machine.modifyMailbox address.slot fun mailbox =>
      { mailbox with messages := rest }) = machine.drop address :=
    modifyMailbox_congr found (by rw [queued, List.tail_cons])
  apply Gives.bind (gives_mailbox found)
  simp only [queued]
  rw [← dropped]
  apply Gives.bind (gives_changeMailbox address _)
  exact .bind (gives_log _) (gives_pure _)

end Mailboxes

section Joins

variable (present : machine.actors.get? other = some target)

include present

theorem gives_prepareJoin_over (terminated : target.record.terminated = true) (id : ActorId) :
    (prepareJoin id other).Gives machine () machine := by
  apply gives_get_bind
  simp only [present, terminated]
  exact gives_pure _

theorem gives_prepareJoin_living (living : target.record.terminated = false) (id : ActorId) :
    (prepareJoin id other).Gives machine ()
      ((machine.modifyRecord other fun record =>
        { record with waiters := record.waiters ++ [id] }).modifyRecord id Record.disable) := by
  apply gives_get_bind
  simp only [present, living]
  exact .bind (gives_changeRecord other _) (gives_changeRecord id _)

theorem gives_joined (terminated : target.record.terminated = true) (strict : Bool) :
    (joined other strict).Gives machine
      (if strict && !target.record.faults.isEmpty then .error (.joined other target.record.faults)
        else .ok .done) machine := by
  apply Gives.bind (gives_record present)
  simp only [terminated]
  exact gives_pure _

end Joins

theorem modifyRecord_congr
    {change change' : Record → Record} (present : machine.actors.get? id = some actor)
    (same : change actor.record = change' actor.record) :
    machine.modifyRecord id change = machine.modifyRecord id change' := by
  simp only [modifyRecord, Machine.mk.injEq, and_true, Roster.modify, Roster.mk.injEq]
  apply Array.ext_getElem?
  intro position
  rw [Array.getElem?_modify, Array.getElem?_modify]
  split
  · rename_i here
    have there : machine.actors.values[position]? = some actor := by
      rw [← here]
      exact present
    rw [there, Option.map_some, Option.map_some, same]
  · rfl

theorem gives_replaceRecord
    {value : Record} (change : Record → Record) (present : machine.actors.get? id = some actor)
    (same : change actor.record = value) :
    (changeRecord id fun _ => value).Gives machine () (machine.modifyRecord id change) := by
  have replaced : machine.modifyRecord id (fun _ => value) = machine.modifyRecord id change :=
    modifyRecord_congr present same.symm
  rw [← replaced]
  exact gives_changeRecord id _

def retire (machine : Machine σ μ) (id : ActorId) : Machine σ μ :=
  match machine.actors.get? id with
  | some ⟨_, .ending true⟩ => machine.setStage id .ended
  | _ => machine

def advance (machine : Machine σ μ) (next : ActorId) (chosen : Record) : Machine σ μ :=
  let noted := { machine with trace := machine.trace.push next }
  if chosen.operation.kind.isProgress then noted.releaseYielded next else noted

def switch (machine : Machine σ μ) (id next : ActorId) : Machine σ μ :=
  if next = id then machine.pass (.returning next)
  else
    (((machine.modifyRecord id (Record.hold false)).modifyRecord next (Record.hold true)).retire
      id).pass (.returning next)

theorem get?_advance (machine : Machine σ μ) (next other : ActorId) (chosen : Record) :
    (machine.advance next chosen).actors.get? other =
      (machine.actors.get? other).map fun actor =>
        if other ≠ next ∧ chosen.operation.kind.isProgress = true then
          { actor with record := actor.record.releaseYielded }
        else actor := by
  simp only [advance]
  cases chosen.operation.kind.isProgress with
  | false => simp
  | true =>
      simp only [if_true, releaseYielded, get?_modifyRecords]
      by_cases same : other = next
      · simp [same]
      · simp [same]

theorem gives_switch
    (holder : machine.actors.get? id = some actor) (active : actor.record.active = true)
    (chosen : machine.actors.get? next = some target) (enabled : target.record.enabled = true)
    (free : next ≠ id → target.record.active = false) :
    (do
      if next ≠ id then
        let released ← (← record id).deactivate id
        changeRecord id fun _ => released
        let activated ← (← record next).activate next
        changeRecord next fun _ => activated
        modify fun machine =>
          match machine.actors.get? id with
          | some ⟨_, .ending true⟩ => machine.setStage id .ended
          | _ => machine
      modify fun machine => machine.pass (.returning next) :
        Attempt (Machine σ μ) Unit).Gives machine () (machine.switch id next) := by
  by_cases same : next = id
  · rw [switch, if_pos same, if_neg (not_not_intro same)]
    exact gives_modify _
  · rw [switch, if_neg same, if_pos same]
    apply Gives.bind (gives_record holder)
    have deactivates : actor.record.deactivate id = .ok (actor.record.hold false) := by
      rw [Record.deactivate, if_pos active]
      rfl
    have activates : target.record.activate next = .ok (target.record.hold true) :=
      Record.activate_eq_ok_iff.mpr ⟨enabled, free same, rfl⟩
    have still : (machine.modifyRecord id (Record.hold false)).actors.get? next = some target := by
      rw [get?_modifyRecord, chosen, Option.map_some, if_neg same]
    apply Gives.bind (gives_lift deactivates)
    apply Gives.bind (gives_replaceRecord (Record.hold false) holder rfl)
    apply Gives.bind (gives_record still)
    apply Gives.bind (gives_lift activates)
    apply Gives.bind (gives_replaceRecord (Record.hold true) still rfl)
    unfold retire
    exact .bind (gives_modify _) (gives_modify _)

theorem gives_handTo
    (holder : machine.actors.get? id = some actor) (active : actor.record.active = true)
    (chosen : machine.actors.get? next = some target) (enabled : target.record.enabled = true)
    (free : next ≠ id → target.record.active = false) :
    (handTo id next).Gives machine () ((machine.advance next target.record).switch id next) := by
  have holder' := get?_advance machine next id target.record
  have chosen' := get?_advance machine next next target.record
  rw [holder, Option.map_some] at holder'
  rw [chosen, Option.map_some, if_neg (fun both => both.1 rfl)] at chosen'
  have rest := gives_switch holder' (by split <;> simp [active]) chosen' enabled free
  apply Gives.bind (gives_modify _)
  refine gives_record_bind target chosen ?_
  unfold advance at rest ⊢
  by_cases progress : target.record.operation.kind.isProgress = true
  · simp only [progress, if_true] at rest ⊢
    exact .bind (gives_modify _) rest
  · simp only [progress] at rest ⊢
    exact rest

end Machine

end Interleave
