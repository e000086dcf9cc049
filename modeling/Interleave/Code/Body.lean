import Interleave.Code.Instruction

namespace Interleave.Code

/-- What comes after the current instructions. -/
inductive Scope
  | block (rest : List Instruction)
  /-- A loop with the rounds that are left, if they are counted. -/
  | loop (body : List Instruction) (rounds : Option Nat) (rest : List Instruction)
  | handler (result : String) (all : Bool) (rest : List Instruction)

/-- What becomes of the reply to the latest call. -/
inductive Use
  | drop
  | keep (result : String)
  | fail (error : ActorError)

structure Body where
  store : Store
  current : List Instruction
  scopes : List Scope
  use : Use

namespace Body

def start (store : Store) (instructions : List Instruction) (use : Use) : Body :=
  ⟨store, instructions, [], use⟩

def Handles (all : Bool) (error : ActorError) : Prop := all ∨ error ≠ .terminated

instance (all : Bool) (error : ActorError) : Decidable (Handles all error) := by
  unfold Handles
  infer_instance

/-- The innermost handler of the error takes over; without one the body ends. -/
def raise (store : Store) (error : ActorError) : List Scope → Except ActorError Body
  | [] => .error error
  | .handler result all rest :: scopes =>
      if Handles all error then
        .ok ⟨store.set result (.text error.text), rest, scopes, .drop⟩
      else raise store error scopes
  | .block _ :: scopes | .loop .. :: scopes => raise store error scopes

/-- Leaves the innermost loop; outside of any loop the body ends. -/
def leaveLoop (store : Store) : List Scope → Option Body
  | [] => none
  | .loop _ _ rest :: scopes => some ⟨store, rest, scopes, .drop⟩
  | .block _ :: scopes | .handler .. :: scopes => leaveLoop store scopes

def leaveScope (store : Store) : List Scope → Option Body
  | [] => none
  | .block rest :: scopes => some ⟨store, rest, scopes, .drop⟩
  | .loop body none rest :: scopes =>
      some ⟨store, body, .loop body none rest :: scopes, .drop⟩
  | .loop _ (some 0) rest :: scopes => some ⟨store, rest, scopes, .drop⟩
  | .loop body (some (rounds + 1)) rest :: scopes =>
      some ⟨store, body, .loop body (some rounds) rest :: scopes, .drop⟩
  | .handler result _ rest :: scopes =>
      some ⟨store.set result .null, rest, scopes, .drop⟩

def nameOf : Value → Option String
  | .null => none
  | value => some value.display

def roundsOf : Value → Except Misstep (Option Nat)
  | .null => .ok none
  | .number count => .ok (some count.toNat)
  | _ => .error (.mismatch .count)

def addressOf : Value → Except Misstep Address
  | .mailbox address => .ok address
  | _ => .error (.mismatch .owner)

def actorOf : Value → Except Misstep ActorId
  | .number number => .ok ⟨Value.index number⟩
  | _ => .error (.mismatch .self)

def truthOf : Value → Except Misstep Bool
  | .truth value => .ok value
  | _ => .error (.mismatch .not)

abbrev Step := Action Body Value

def goOn : Option Body → Step
  | some next => .call .pause next
  | none => .return (.ok ())

def failWith (error : ActorError) (body : Body) : Step :=
  match raise body.store error body.scopes with
  | .ok next => .call .pause next
  | .error error => .return (.error error)

def bodyOf (source : Source) (name : String) : List Instruction := (source.lookup name).getD []

def perform (source : Source) (view : View Value) (body : Body) :
    Instruction → Except Misstep Step
  | .create result name label copied => do
      let label ← label.evaluate view body.store
      let child := start (body.store.select copied) (bodyOf source name) (.keep "self")
      return .call (.create (nameOf label) child) { body with use := .keep result }
  | .mailbox result => return .call .mailbox { body with use := .keep result }
  | .send mailbox message => do
      let address ← addressOf (← mailbox.evaluate view body.store)
      return .call (.send address (← message.evaluate view body.store)) body
  | .receive result mailbox => do
      let address ← addressOf (← mailbox.evaluate view body.store)
      return .call (.receive address) { body with use := .keep result }
  | .await mailbox => do
      let address ← addressOf (← mailbox.evaluate view body.store)
      return .call (.join address.owner true) body
  | .join actor strict => do
      return .call (.join (← actorOf (← actor.evaluate view body.store)) strict) body
  | .yield => return .call .yield body
  | .awaitDeadlock => return .call .awaitDeadlock body
  | .rename name => do
      return .call (.rename (← name.evaluate view body.store).display) body
  | .cancel => return .call .cancel { body with use := .fail .cancelled }
  | .fail error => return failWith error body
  | .fault message => do
      return failWith (.fault (← message.evaluate view body.store).display) body
  | .panic none => return .panic none
  | .panic (some payload) => do
      return .panic (some (← payload.evaluate view body.store).display)
  | .note value => do
      return .call (.note (← value.evaluate view body.store)) body
  | .noteStatuses => return .call .noteStatuses body
  | .stray =>
      let noting := Instruction.note (.literal (.text Fault.noActor.text))
      return .call .stray { body with current := noting :: body.current }
  | .assign name value => do
      let value ← value.evaluate view body.store
      return .call .pause { body with store := body.store.set name value }
  | .branch condition yes no => do
      let taken := if ← truthOf (← condition.evaluate view body.store) then yes else no
      return .call .pause
        { body with current := taken, scopes := .block body.current :: body.scopes }
  | .loop count instructions => do
      let rounds ← roundsOf (← count.evaluate view body.store)
      return .call .pause
        { body with
          current := []
          scopes := .loop instructions rounds body.current :: body.scopes }
  | .break => return goOn (leaveLoop body.store body.scopes)
  | .return => return .return (.ok ())
  | .handle result all instructions =>
      return .call .pause
        { body with
          current := instructions
          scopes := .handler result all body.current :: body.scopes }

def advance (source : Source) (view : View Value) (body : Body) : Step :=
  match body.current with
  | [] => goOn (leaveScope body.store body.scopes)
  | instruction :: rest =>
      match perform source view { body with current := rest } instruction with
      | .ok step => step
      | .error misstep => .panic (some misstep.text)

def valueOf : Answer Value → Value
  | .done => .null
  | .mailbox address => .mailbox address
  | .message message => message

def resume (source : Source) (view : View Value) (body : Body) : Reply Value → Step
  | .error error => failWith error body
  | .ok answer =>
      match body.use with
      | .drop => advance source view body
      | .keep result =>
          advance source view
            { body with
              store := body.store.set result (valueOf answer), use := .drop }
      | .fail error => failWith error { body with use := .drop }

theorem raise_terminated (store : Store) (scopes : List Scope)
    (plain : ∀ scope ∈ scopes, ∀ result rest, scope ≠ .handler result true rest) :
    raise store .terminated scopes = .error .terminated := by
  induction scopes with
  | nil => rfl
  | cons scope scopes induction =>
      have rest_raised := induction fun scope member => plain scope (List.mem_cons_of_mem _ member)
      cases scope with
      | block rest => exact rest_raised
      | loop body rounds rest => exact rest_raised
      | handler result all rest =>
          cases all with
          | false => simpa [raise, Handles] using rest_raised
          | true => exact absurd rfl (plain _ List.mem_cons_self result rest)

end Body

/-- The root runs the body `main`, and finds the number of executions before in the variable
`iter`. -/
def program (source : Source) : Program Body Value where
  root number := .start [("iter", .number number)] (Body.bodyOf source "main") .drop
  resume := Body.resume source

end Interleave.Code
