import Interleave.Actor.Id

namespace Interleave

inductive ActorError
  /-- The execution has ended, so that every body unwinds. -/
  | terminated
  | cancelled
  | notOwner (owner caller : ActorId)
  /-- The root actor was blocked when no actor could run. -/
  | deadlock
  | fault (message : String)
  | panicked (message : String)
  | joined (actor : ActorId) (faults : List ActorError)

namespace ActorError

mutual
private def decideEq : (left right : ActorError) → Decidable (left = right)
  | .terminated, .terminated => .isTrue rfl
  | .cancelled, .cancelled => .isTrue rfl
  | .deadlock, .deadlock => .isTrue rfl
  | .notOwner owner caller, .notOwner owner' caller' =>
      decidable_of_iff (owner = owner' ∧ caller = caller') (by simp)
  | .fault message, .fault message' => decidable_of_iff (message = message') (by simp)
  | .panicked message, .panicked message' => decidable_of_iff (message = message') (by simp)
  | .joined actor faults, .joined actor' faults' =>
      match decEq actor actor', decideEqList faults faults' with
      | .isTrue actors, .isTrue errors => .isTrue (by rw [actors, errors])
      | .isFalse actors, _ => .isFalse fun same => actors (by injection same)
      | _, .isFalse errors => .isFalse fun same => errors (by injection same)
  | .terminated, .cancelled | .terminated, .notOwner .. | .terminated, .deadlock
  | .terminated, .fault _ | .terminated, .panicked _ | .terminated, .joined ..
  | .cancelled, .terminated | .cancelled, .notOwner .. | .cancelled, .deadlock
  | .cancelled, .fault _ | .cancelled, .panicked _ | .cancelled, .joined ..
  | .notOwner .., .terminated | .notOwner .., .cancelled | .notOwner .., .deadlock
  | .notOwner .., .fault _ | .notOwner .., .panicked _ | .notOwner .., .joined ..
  | .deadlock, .terminated | .deadlock, .cancelled | .deadlock, .notOwner ..
  | .deadlock, .fault _ | .deadlock, .panicked _ | .deadlock, .joined ..
  | .fault _, .terminated | .fault _, .cancelled | .fault _, .notOwner ..
  | .fault _, .deadlock | .fault _, .panicked _ | .fault _, .joined ..
  | .panicked _, .terminated | .panicked _, .cancelled | .panicked _, .notOwner ..
  | .panicked _, .deadlock | .panicked _, .fault _ | .panicked _, .joined ..
  | .joined .., .terminated | .joined .., .cancelled | .joined .., .notOwner ..
  | .joined .., .deadlock | .joined .., .fault _ | .joined .., .panicked _ =>
      .isFalse (by simp)

private def decideEqList : (left right : List ActorError) → Decidable (left = right)
  | [], [] => .isTrue rfl
  | [], _ :: _ | _ :: _, [] => .isFalse (by simp)
  | head :: tail, head' :: tail' =>
      match decideEq head head', decideEqList tail tail' with
      | .isTrue heads, .isTrue tails => .isTrue (by rw [heads, tails])
      | .isFalse heads, _ => .isFalse fun same => heads (by injection same)
      | _, .isFalse tails => .isFalse fun same => tails (by injection same)
end

instance : DecidableEq ActorError := decideEq

mutual
def text : ActorError → String
  | .terminated => "Actor terminated because the execution ended."
  | .cancelled => "Actor was cancelled."
  | .notOwner owner caller =>
      "Only the owner can receive from a mailbox. owner=" ++ owner.text ++
        ", caller=" ++ caller.text
  | .deadlock => "Main actor did not terminate."
  | .fault message => message
  | .panicked message => "Actor panicked: " ++ message
  | .joined actor faults => "Joined actor " ++ actor.text ++ " failed:" ++ textAll faults

private def textAll : List ActorError → String
  | [] => ""
  | error :: rest => " [" ++ error.text ++ "]" ++ textAll rest
end

mutual
def literal : ActorError → String
  | .terminated => "Terminated"
  | .cancelled => "Cancelled"
  | .notOwner owner caller =>
      "NotOwner \x7b owner: " ++ owner.tagged ++ ", caller: " ++ caller.tagged ++ " \x7d"
  | .deadlock => "Deadlock"
  | .fault message => "Fault(" ++ Text.quoted message ++ ")"
  | .panicked message => "Panicked(" ++ Text.quoted message ++ ")"
  | .joined actor faults =>
      "Joined \x7b actor: " ++ actor.tagged ++ ", faults: " ++
        Text.bracketed (literalAll faults) ++ " \x7d"

def literalAll : List ActorError → List String
  | [] => []
  | error :: rest => error.literal :: literalAll rest
end

def ofPanic (payload : Option String) : ActorError :=
  .panicked (payload.getD "non-string panic payload")

def isPanic : ActorError → Bool
  | .panicked _ => true
  | _ => false

end ActorError

end Interleave
