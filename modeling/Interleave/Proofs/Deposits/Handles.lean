import Interleave.Demo.Deposits
import Interleave.Proofs.Machine.Handles

namespace Interleave.Deposits

@[grind =]
def LockServer.addresses : LockServer → List Address
  | start => []
  | receiving own queue | granting own queue => own :: queue

@[grind =]
def AccountServer.addresses : AccountServer → List Address
  | start => []
  | receiving own _ | answering own _ => [own]

@[grind =]
def Phase.addresses : Phase → List Address
  | acquiring reply | inquiring reply => [reply]
  | start | waiting | opening | reading | storing | releasing => []

@[grind =]
def Auditor.addresses : Auditor → List Address
  | start | creatingLock | closingLock _ => []
  | creatingAccount lock | closingAccount lock _ => [lock]
  | creatingDepositor lock account others | joining lock account others => lock :: account :: others
  | opening lock account | reading lock account => [lock, account]
  | inquiring lock account reply => [lock, account, reply]

@[grind =]
def Body.addresses : Body → List Address
  | lock server => server.addresses
  | account server => server.addresses
  | depositor known phase => known.lock :: known.account :: phase.addresses
  | auditor _ _ stage => stage.addresses

@[grind =]
def Message.addresses : Message → List Address
  | acquire reply | inquire reply => [reply]
  | release | granted | balance _ | store _ | close => []

def handles : Handles Body Message where
  held body address := address ∈ body.addresses
  carried message address := address ∈ message.addresses

def Keeps (known : List Address) (action : Step) : Prop :=
  ∀ address, handles.inAction action address → address ∈ known

variable {known : List Address} {body : Body} {address : Address}

theorem keeps_call {call : Call Body Message}
    (uses : ∀ address, handles.inCall call address → address ∈ known)
    (held : ∀ address ∈ body.addresses, address ∈ known) : Keeps known (.call call body) :=
  fun address used => used.elim (uses address) (held address)

theorem keeps_stray (known : List Address) : Keeps known stray := nofun

@[grind =]
def told : Answer Message → List Address
  | .mailbox address => [address]
  | .message message => message.addresses
  | .done => []

theorem Keeps.mono {other : List Address} {action : Step} (keeps : Keeps known action)
    (more : known ⊆ other) : Keeps other action :=
  fun address used => more (keeps address used)

theorem LockServer.keeps_grant (own : Address) (queue : List Address) :
    Keeps (own :: queue) (grant own queue) := by
  cases queue with
  | nil | cons => apply keeps_call <;> grind [Handles.inCall, handles]

theorem LockServer.keeps (server : LockServer) (answer : Answer Message) :
    Keeps (server.addresses ++ told answer) (server.advance answer) := by
  fun_cases LockServer.advance server answer
  case case2 own reply => exact (keeps_grant own [reply]).mono (by grind)
  case case4 own queue => exact (keeps_grant own queue.tail).mono (by grind [List.mem_of_mem_tail])
  all_goals first
    | exact keeps_stray _
    | apply keeps_call <;> grind [Handles.inCall]

theorem AccountServer.keeps (server : AccountServer) (answer : Answer Message) :
    Keeps (server.addresses ++ told answer) (server.advance answer) := by
  fun_cases AccountServer.advance server answer
  all_goals first
    | exact keeps_stray _
    | apply keeps_call <;> grind [Handles.inCall, handles]

theorem Depositor.keeps (depositor : Depositor) (phase : Phase) (answer : Answer Message) :
    Keeps ((Body.depositor depositor phase).addresses ++ told answer)
      (depositor.advance phase answer) := by
  fun_cases Depositor.advance depositor phase answer
  case case7 balance =>
    unfold store
    split
    · apply keeps_call <;> grind [Handles.inCall, handles]
    · nofun
  all_goals first
    | exact keeps_stray _
    | apply keeps_call <;> grind [Handles.inCall, handles]

namespace Auditor

variable (depositors : Nat) (locked : Bool)

theorem keeps_join (lock account : Address) (rest : List Address) :
    Keeps (lock :: account :: rest) (join depositors locked lock account rest) := by
  cases rest with
  | nil | cons => apply keeps_call <;> grind [Handles.inCall, handles]

theorem keeps_create (lock account : Address) (made : List Address) :
    Keeps (lock :: account :: made) (create depositors locked lock account made) := by
  unfold create
  split
  · apply keeps_call <;> grind [Handles.inCall, handles]
  · exact keeps_join depositors locked lock account made

theorem keeps (stage : Auditor) (answer : Answer Message) :
    Keeps (stage.addresses ++ told answer) (stage.advance depositors locked answer) := by
  fun_cases Auditor.advance depositors locked stage answer
  case case3 => exact (keeps_create depositors locked _ _ _).mono (by grind)
  case case4 => exact (keeps_create depositors locked _ _ _).mono (by grind)
  case case5 => exact (keeps_join depositors locked _ _ _).mono (by grind)
  case case10 balance =>
    unfold verdict
    split
    · split <;> nofun
    · nofun
  all_goals first
    | exact keeps_stray _
    | apply keeps_call <;> grind [Handles.inCall, handles]

end Auditor

theorem keeps_advance (body : Body) (answer : Answer Message) :
    Keeps (body.addresses ++ told answer) (advance body answer) := by
  cases body with
  | lock server => exact server.keeps answer
  | account server => exact server.keeps answer
  | depositor depositor phase => exact depositor.keeps phase answer
  | auditor depositors locked stage => exact stage.keeps depositors locked answer

theorem discreet_program (depositors : Nat) (locked : Bool) :
    (program depositors locked).Discreet handles where
  root number address held := nomatch held
  resume view body reply address used := by
    cases reply with
    | error => cases used
    | ok answer =>
        rcases List.mem_append.mp (keeps_advance body answer address used) with known | known
        · exact .inl known
        · right
          cases answer with
          | mailbox => exact (List.mem_singleton.mp known).symm
          | message => exact known
          | done => cases known

end Interleave.Deposits
