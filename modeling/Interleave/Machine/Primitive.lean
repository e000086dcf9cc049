import Interleave.Machine.Basic

namespace Interleave.Machine

variable {σ μ : Type}

def record (id : ActorId) : Attempt (Machine σ μ) Record := do
  return (← (← get).actors.get id).record

def changeRecord (id : ActorId) (change : Record → Record) : Attempt (Machine σ μ) Unit :=
  modify fun machine => machine.modifyRecord id change

def mailbox (address : Address) : Attempt (Machine σ μ) (Mailbox μ) := do
  Checked.get (← get).mailboxes address.slot

def changeMailbox (address : Address) (change : Mailbox μ → Mailbox μ) :
    Attempt (Machine σ μ) Unit :=
  modify fun machine =>
    { machine with mailboxes := machine.mailboxes.modify address.slot change }

def addMailbox (owner : ActorId) : Attempt (Machine σ μ) Address :=
  Attempt.change fun machine =>
    (⟨owner, machine.mailboxes.size⟩,
      { machine with mailboxes := machine.mailboxes.push ⟨owner, [], false⟩ })

/-- A new actor, which waits to be started, and its mailbox. -/
def addActor (name : Option String) (body : σ) : Attempt (Machine σ μ) Address := do
  let id := (← get).actors.nextKey
  let address ← addMailbox id
  modify fun machine => { machine with
    actors := machine.actors.push
      ⟨.start id name false, .waiting (.start (.mailbox address)) body⟩ }
  Attempt.log (.created id)
  return address

def deliver (address : Address) (message : μ) : Attempt (Machine σ μ) Unit := do
  let step := (← get).steps
  let mailbox ← mailbox address
  let messages := mailbox.messages ++ [⟨step, message⟩]
  changeMailbox address fun mailbox => { mailbox with messages := messages }
  Attempt.log (.sent address.owner step messages.length)
  if mailbox.receiverParked then
    changeMailbox address fun mailbox => { mailbox with receiverParked := false }
    if (← record address.owner).enabled then throw (.parkedButEnabled address.owner)
    changeRecord address.owner fun record =>
      { record with enabled := true, sendStep := some step }

/-- The receiver notes which send it will take its message from, or waits for one. -/
def prepareReceive (address : Address) : Attempt (Machine σ μ) Unit := do
  match (← mailbox address).messages with
  | envelope :: _ =>
      changeRecord address.owner fun record =>
        { record with sendStep := some envelope.sendStep }
  | [] =>
      if !(← record address.owner).enabled then throw (.disabledReceiver address.owner)
      changeRecord address.owner fun record => { record with enabled := false, sendStep := none }
      changeMailbox address fun mailbox => { mailbox with receiverParked := true }

def takeMessage (address : Address) : Attempt (Machine σ μ) μ := do
  match (← mailbox address).messages with
  | envelope :: rest =>
      changeMailbox address fun mailbox => { mailbox with messages := rest }
      Attempt.log (.received address.owner envelope.sendStep)
      return envelope.message
  | [] => throw (.emptyQueue address.owner)

/-- Waits for another actor unless it has terminated. -/
def prepareJoin (id other : ActorId) : Attempt (Machine σ μ) Unit := do
  match (← get).actors.get? other with
  | none => throw (.unknownActor other)
  | some actor =>
      if !actor.record.terminated then
        changeRecord other fun record => { record with waiters := record.waiters ++ [id] }
        changeRecord id Record.disable

/-- How the actor that was joined has ended. -/
def joined (other : ActorId) (strict : Bool) : Attempt (Machine σ μ) (Reply μ) := do
  let record ← record other
  if !record.terminated then throw (.unfinishedActor other)
  return if strict && !record.faults.isEmpty then .error (.joined other record.faults)
    else .ok .done

/-- The second half of a call, after its scheduling point. -/
def complete : Pending σ μ → Attempt (Machine σ μ) (Reply μ)
  | .start answer => return .ok answer
  | .create name body => return .ok (.mailbox (← addActor name body))
  | .send address message => do
      deliver address message
      return .ok .done
  | .receive address => return .ok (.message (← takeMessage address))
  | .join other strict => joined other strict
  | .pass => return .ok .done

def await (id : ActorId) (operation : Operation) (pending : Pending σ μ) (body : σ) :
    Attempt (Machine σ μ) Unit :=
  modify fun machine => machine.reach id operation (.waiting pending body)

def reply (id : ActorId) (body : σ) (reply : Reply μ) : Attempt (Machine σ μ) Unit :=
  modify fun machine => machine.pass (.resuming id body reply)

/-- The first half of a call, up to its scheduling point if it has one. -/
def perform (id : ActorId) (body : σ) : Call σ μ → Attempt (Machine σ μ) Unit
  | .create name child => await id .create (.create name child) body
  | .mailbox => do reply id body (.ok (.mailbox (← addMailbox id)))
  | .send address message => await id (.send address.owner) (.send address message) body
  | .receive address => do
      if id ≠ address.owner then
        reply id body (.error (.notOwner address.owner id))
      else
        prepareReceive address
        await id (.receive address.owner) (.receive address) body
  | .join other strict => do
      if (← get).ended then reply id body (.error .terminated)
      else
        prepareJoin id other
        await id (.join other) (.join other strict) body
  | .yield => do
      changeRecord id fun record => { record with enabled := false, yielded := true }
      await id (.yield id) .pass body
  | .awaitDeadlock => do
      changeRecord id fun record => { record with enabled := false, awaitingDeadlock := true }
      await id (.awaitDeadlock id) .pass body
  | .rename name => do
      changeRecord id fun record => { record with name := some name }
      reply id body (.ok .done)
  | .cancel => do
      Attempt.log (.cancelled id)
      reply id body (.ok .done)
  | .stray => do
      Attempt.log (.fault .noActor)
      reply id body (.ok .done)
  | .note value => do
      modify fun machine => machine.takeNote (.value value)
      reply id body (.ok .done)
  | .noteStatuses => do
      modify fun machine => machine.takeNote (.statuses machine.statuses)
      reply id body (.ok .done)
  | .pause => reply id body (.ok .done)

end Interleave.Machine
