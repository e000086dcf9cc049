import Interleave.Actor.Record

/-!
Actor bodies, as seen by the machine that runs them: a body is a state, and resuming it with the
reply to its latest call gives its next call or its end. A message type `μ` and a type `σ` of body
states are shared by all actors of a program.
-/

namespace Interleave

/-- A handle of a mailbox: who may receive from it, and its place among all mailboxes. -/
structure Address where
  owner : ActorId
  slot : Nat
deriving DecidableEq

inductive Note (μ : Type)
  | value (value : μ)
  | statuses (statuses : List Status)

inductive Call (σ μ : Type)
  | create (name : Option String) (body : σ)
  | mailbox
  | send (mailbox : Address) (message : μ)
  | receive (mailbox : Address)
  /-- Waits until the actor terminates; if `strict`, its faults are an error. -/
  | join (actor : ActorId) (strict : Bool)
  | yield
  | awaitDeadlock
  | rename (name : String)
  | cancel
  | stray
  | note (value : μ)
  | noteStatuses
  /-- Nothing: divides a long computation into short ones. -/
  | pause

inductive Answer (μ : Type)
  | done
  | mailbox (address : Address)
  | message (message : μ)

abbrev Reply (μ : Type) := Except ActorError (Answer μ)

inductive Action (σ μ : Type)
  | call (call : Call σ μ) (next : σ)
  | return (result : Except ActorError Unit)
  | panic (payload : Option String)

/-- What a body can see of the execution between its calls. -/
structure View (μ : Type) where
  self : ActorId
  step : Nat
  ended : Bool
  mailboxLength : Address → Nat

/-- The root body may depend on the number of executions before. A created body gets its mailbox
as its first reply. -/
structure Program (σ μ : Type) where
  root : Nat → σ
  resume : View μ → σ → Reply μ → Action σ μ

namespace Program

def Steady (program : Program σ μ) : Prop :=
  ∀ first second, program.root first = program.root second

/-- A body that learns that the execution has ended ends in the same way. -/
def Unwinds (program : Program σ μ) : Prop :=
  ∀ view body, program.resume view body (.error .terminated) = .return (.error .terminated)

end Program

end Interleave
