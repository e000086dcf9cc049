import Interleave.Fault
import Interleave.Machine.Body

/-!
Depositors add to the balance of an account, which takes one message to read and another to store.
While a depositor holds the lock that a server grants, no other one reads the balance. Without the
lock, two depositors can read the same balance, and one deposit is lost.
-/

namespace Interleave.Deposits

inductive Message
  | acquire (grant : Address)
  | release
  | granted
  | inquire (reply : Address)
  | balance (amount : Nat)
  | store (amount : Nat)
  /-- Ends a server. -/
  | close

/-- The front of the queue holds the lock, and the others wait in the order of their arrival. -/
inductive LockServer
  | start
  | receiving (own : Address) (queue : List Address)
  | granting (own : Address) (queue : List Address)

inductive AccountServer
  | start
  | receiving (own : Address) (balance : Nat)
  | answering (own : Address) (balance : Nat)

structure Depositor where
  lock : Address
  account : Address
  amount : Nat
  locked : Bool

/-- Where a depositor waits for the reply to its latest call. -/
inductive Phase
  | start
  | acquiring (grant : Address)
  | waiting
  | opening
  | inquiring (reply : Address)
  | reading
  | storing
  | releasing

inductive Auditor
  | start
  | creatingLock
  | creatingAccount (lock : Address)
  /-- The owners of these mailboxes are the depositors so far. -/
  | creatingDepositor (lock account : Address) (depositors : List Address)
  | joining (lock account : Address) (rest : List Address)
  | opening (lock account : Address)
  | inquiring (lock account reply : Address)
  | reading (lock account : Address)
  | closingAccount (lock : Address) (balance : Nat)
  | closingLock (balance : Nat)

inductive Body
  | lock (server : LockServer)
  | account (server : AccountServer)
  | depositor (depositor : Depositor) (phase : Phase)
  | auditor (depositors : Nat) (locked : Bool) (stage : Auditor)

abbrev Step := Action Body Message

/-- No body comes here: every mailbox gets messages of one kind only. -/
def stray : Step := .panic none

namespace LockServer

def receive (own : Address) (queue : List Address) : Step :=
  .call (.receive own) (.lock (.receiving own queue))

def grant (own : Address) : List Address → Step
  | [] => receive own []
  | next :: rest => .call (.send next .granted) (.lock (.granting own (next :: rest)))

def advance : LockServer → Answer Message → Step
  | .start, .mailbox own => receive own []
  | .receiving own [], .message (.acquire client) => grant own [client]
  | .receiving own (holder :: queue), .message (.acquire client) =>
      receive own (holder :: queue ++ [client])
  | .receiving own queue, .message .release => grant own queue.tail
  | .receiving _ _, .message .close => .return (.ok ())
  | .granting own queue, .done => receive own queue
  | _, _ => stray

end LockServer

namespace AccountServer

def receive (own : Address) (balance : Nat) : Step :=
  .call (.receive own) (.account (.receiving own balance))

def advance : AccountServer → Answer Message → Step
  | .start, .mailbox own => receive own 0
  | .receiving own balance, .message (.inquire reply) =>
      .call (.send reply (.balance balance)) (.account (.answering own balance))
  | .receiving own _, .message (.store amount) => receive own amount
  | .receiving _ _, .message .close => .return (.ok ())
  | .answering own balance, .done => receive own balance
  | _, _ => stray

end AccountServer

namespace Depositor

def call (depositor : Depositor) (call : Call Body Message) (phase : Phase) : Step :=
  .call call (.depositor depositor phase)

/-- Stores the new balance, if it is one. -/
def store (depositor : Depositor) (balance : Nat) : Step :=
  if balance + depositor.amount < wordSize then
    depositor.call (.send depositor.account (.store (balance + depositor.amount))) .storing
  else .panic (some Fault.additionOverflow.text)

def advance (depositor : Depositor) : Phase → Answer Message → Step
  | .start, .mailbox grant =>
      if depositor.locked then
        depositor.call (.send depositor.lock (.acquire grant)) (.acquiring grant)
      else depositor.call .mailbox .opening
  | .acquiring grant, .done => depositor.call (.receive grant) .waiting
  | .waiting, .message .granted => depositor.call .mailbox .opening
  | .opening, .mailbox reply =>
      depositor.call (.send depositor.account (.inquire reply)) (.inquiring reply)
  | .inquiring reply, .done => depositor.call (.receive reply) .reading
  | .reading, .message (.balance balance) => depositor.store balance
  | .storing, .done =>
      if depositor.locked then depositor.call (.send depositor.lock .release) .releasing
      else .return (.ok ())
  | .releasing, .done => .return (.ok ())
  | _, _ => stray

end Depositor

/-- The sum of all deposits: the first depositor deposits one, and each other one more than the one
before. -/
def total (depositors : Nat) : Nat := depositors * (depositors + 1) / 2

def verdict (depositors balance : Nat) : Step :=
  if depositors * (depositors + 1) < wordSize then
    if balance = total depositors then .return (.ok ())
    else .return (.error (.fault
      s!"Lost deposit. expected={total depositors}, actual={balance}"))
  else .panic (some "attempt to multiply with overflow")

namespace Auditor

def call (depositors : Nat) (locked : Bool) (call : Call Body Message) (stage : Auditor) : Step :=
  .call call (.auditor depositors locked stage)

/-- Waits for the depositors that are left. -/
def join (depositors : Nat) (locked : Bool) (lock account : Address) : List Address → Step
  | next :: rest =>
      call depositors locked (.join next.owner true) (.joining lock account rest)
  | [] => call depositors locked .mailbox (.opening lock account)

def create (depositors : Nat) (locked : Bool) (lock account : Address) (made : List Address) :
    Step :=
  if made.length < depositors then
    call depositors locked
      (.create (some s!"depositor-{made.length}")
        (.depositor ⟨lock, account, made.length + 1, locked⟩ .start))
      (.creatingDepositor lock account made)
  else join depositors locked lock account made

def advance (depositors : Nat) (locked : Bool) : Auditor → Answer Message → Step
  | .start, .done => call depositors locked (.create (some "lock") (.lock .start)) .creatingLock
  | .creatingLock, .mailbox lock =>
      call depositors locked (.create (some "account") (.account .start)) (.creatingAccount lock)
  | .creatingAccount lock, .mailbox account => create depositors locked lock account []
  | .creatingDepositor lock account made, .mailbox depositor =>
      create depositors locked lock account (made ++ [depositor])
  | .joining lock account rest, .done => join depositors locked lock account rest
  | .opening lock account, .mailbox reply =>
      call depositors locked (.send account (.inquire reply)) (.inquiring lock account reply)
  | .inquiring lock account reply, .done =>
      call depositors locked (.receive reply) (.reading lock account)
  | .reading lock account, .message (.balance balance) =>
      call depositors locked (.send account .close) (.closingAccount lock balance)
  | .closingAccount lock balance, .done =>
      call depositors locked (.send lock .close) (.closingLock balance)
  | .closingLock balance, .done => verdict depositors balance
  | _, _ => stray

end Auditor

def advance : Body → Answer Message → Step
  | .lock server => server.advance
  | .account server => server.advance
  | .depositor depositor phase => depositor.advance phase
  | .auditor depositors locked stage => stage.advance depositors locked

def resume (_ : View Message) (body : Body) : Reply Message → Step
  | .ok answer => advance body answer
  | .error error => .return (.error error)

def program (depositors : Nat) (locked : Bool) : Program Body Message where
  root _ := .auditor depositors locked .start
  resume := resume

theorem program_steady (depositors : Nat) (locked : Bool) : (program depositors locked).Steady :=
  fun _ _ => rfl

theorem program_unwinds (depositors : Nat) (locked : Bool) :
    (program depositors locked).Unwinds := fun _ _ => rfl

end Interleave.Deposits
