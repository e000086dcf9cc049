import Interleave.Log
import Interleave.Machine.Body
import Interleave.Roster

/-!
One execution of a program, one actor at a time. Control passes between actors at scheduling
points only. When the execution has ended, every actor unwinds, one after the other.
-/

namespace Interleave

structure Envelope (μ : Type) where
  sendStep : Nat
  message : μ

/-- A queue of messages from which only its owner receives. -/
structure Mailbox (μ : Type) where
  owner : ActorId
  messages : List (Envelope μ)
  /-- The owner waits for a message. -/
  receiverParked : Bool

/-- What an actor is about to do at a scheduling point, once it has control again. -/
inductive Pending (σ μ : Type)
  | start (answer : Answer μ)
  | create (name : Option String) (body : σ)
  | send (mailbox : Address) (message : μ)
  | receive (mailbox : Address)
  | join (actor : ActorId) (strict : Bool)
  /-- The call only gives up control. -/
  | pass

inductive Stage (σ μ : Type)
  | running
  | waiting (pending : Pending σ μ) (body : σ)
  /-- The body has ended; the actor announces that before and after it terminates. -/
  | ending (terminated : Bool)
  | ended

namespace Stage

def isEnded : Stage σ μ → Bool
  | .ended => true
  | _ => false

/-- A failure of a primitive is a failure of the body that called it. -/
def inBody : Stage σ μ → Bool
  | .running | .waiting .. => true
  | .ending _ | .ended => false

end Stage

structure Actor (σ μ : Type) where
  record : Record
  stage : Stage σ μ

inductive Control (σ μ : Type)
  /-- A body gets the reply to its call. -/
  | resuming (actor : ActorId) (body : σ) (reply : Reply μ)
  /-- The actor has reached a scheduling point, where a decision is due. -/
  | choosing (actor : ActorId)
  | returning (actor : ActorId)
  | closing (actor : ActorId) (result : Except ActorError Unit)
  | finished

structure Machine (σ μ : Type) where
  actors : Roster (Actor σ μ)
  mailboxes : Array (Mailbox μ)
  steps : Nat
  trace : Array ActorId
  maxEnabled : Nat
  ended : Bool
  sleepSetBlocked : Bool
  hitStepLimit : Bool
  /-- The live actors when no actor could run. -/
  deadlocked : List ActorId
  /-- The first bug. -/
  bug : Option ActorError
  notes : Array (Note μ)
  /-- The actors that were stopped by a fault of the engine. -/
  crashes : List (ActorId × Fault)
  control : Control σ μ

namespace Machine

def start (body : σ) : Machine σ μ where
  actors := Roster.empty.push ⟨.start .root (some "main") true, .running⟩
  mailboxes := #[]
  steps := 0
  trace := #[]
  maxEnabled := 0
  ended := false
  sleepSetBlocked := false
  hitStepLimit := false
  deadlocked := []
  bug := none
  notes := #[]
  crashes := []
  control := .resuming .root body (.ok .done)

def snapshots (machine : Machine σ μ) : List Snapshot :=
  machine.actors.entries.map fun (id, actor) => actor.record.snapshot id

def statuses (machine : Machine σ μ) : List Status :=
  machine.actors.entries.map fun (id, actor) => actor.record.status id

def live (machine : Machine σ μ) : List ActorId :=
  (machine.actors.entries.filter fun (_, actor) => !actor.record.terminated).map Prod.fst

def view (machine : Machine σ μ) (self : ActorId) : View μ where
  self := self
  step := machine.steps
  ended := machine.ended
  mailboxLength address :=
    (machine.mailboxes[address.slot]?.map fun mailbox => mailbox.messages.length).getD 0

def takeNote (machine : Machine σ μ) (note : Note μ) : Machine σ μ :=
  { machine with notes := machine.notes.push note }

def modifyRecord (machine : Machine σ μ) (id : ActorId) (change : Record → Record) :
    Machine σ μ :=
  { machine with
    actors := machine.actors.modify id fun actor => { actor with record := change actor.record } }

def modifyRecords (machine : Machine σ μ) (change : ActorId → Record → Record) : Machine σ μ :=
  { machine with
    actors := machine.actors.map fun id actor =>
      { actor with record := change id actor.record } }

def setStage (machine : Machine σ μ) (id : ActorId) (stage : Stage σ μ) : Machine σ μ :=
  { machine with actors := machine.actors.modify id fun actor => { actor with stage := stage } }

def pass (machine : Machine σ μ) (control : Control σ μ) : Machine σ μ :=
  { machine with control := control }

/-- Every yielded actor but the one that makes progress can run again. -/
def releaseYielded (machine : Machine σ μ) (progressing : ActorId) : Machine σ μ :=
  machine.modifyRecords fun id record =>
    if id = progressing then record else record.releaseYielded

/-- Where no actor is enabled, those that have yielded are, or if there are none, those that wait
for a deadlock. -/
def releaseBlocked (machine : Machine σ μ) : Machine σ μ :=
  let records := machine.actors.toList.map Actor.record
  if records.any Record.enabled then machine
  else if records.any Record.yielded then
    machine.modifyRecords fun _ record => record.releaseYielded
  else machine.modifyRecords fun _ record => record.releaseAwaiting

/-- The execution is over and all actors wake up to unwind. -/
def terminate (machine : Machine σ μ) : Machine σ μ :=
  { machine with ended := true }.modifyRecords fun _ record => record.wake

/-- The first bug is the one that is reported. -/
def reportBug (error : ActorError) (machine : Machine σ μ) : StateM Log (Machine σ μ) := do
  if machine.bug.isSome then return machine
  modifyThe Log (Log.add (.bugFound error))
  return { machine with bug := some error }

/-- An actor announces an operation and waits for a decision. After the end of the execution it
waits for nothing. -/
def reach (machine : Machine σ μ) (id : ActorId) (operation : Operation) (stage : Stage σ μ) :
    Machine σ μ :=
  let placed := machine.setStage id stage
  if machine.ended then placed.pass (.returning id)
  else
    let announced := (placed.modifyRecord id (Record.announce operation)).releaseBlocked
    let enabled := announced.actors.toList.countP fun actor => actor.record.enabled
    { announced with
      steps := machine.steps + 1
      maxEnabled := max machine.maxEnabled enabled
      control := .choosing id }

/-- After the end, control goes to the first actor that has not ended. -/
def handOn (machine : Machine σ μ) : Machine σ μ :=
  if machine.ended then
    match machine.actors.entries.find? fun (_, actor) => !actor.stage.isEnded with
    | some (id, _) => machine.pass (.returning id)
    | none => machine.pass .finished
  else machine.pass .finished

def leave (machine : Machine σ μ) (id : ActorId) : Machine σ μ :=
  ((machine.setStage id .ended).modifyRecord id fun record =>
    { record with waiters := [] }).handOn

/-- A fault stops the actor that ran into it. Where it is a failure of the body, the body panics;
otherwise the actor crashes and the execution is over. -/
def crash (machine : Machine σ μ) (id : ActorId) (fault : Fault) : StateM Log (Machine σ μ) := do
  let inBody := (machine.actors.get? id).any fun actor => actor.stage.inBody
  if inBody && !fault.isEngine then
    return machine.pass (.closing id (.error (.panicked fault.text)))
  if fault.isEngine then
    modifyThe Log (Log.add (.fault fault))
  let crashed := { machine with crashes := (id, fault) :: machine.crashes }
  return (crashed.setStage id .ended).terminate.handOn

end Machine

end Interleave
