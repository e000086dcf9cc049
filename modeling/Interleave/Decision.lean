import Interleave.Actor.Error

namespace Interleave

inductive Decision
  | run (actor : ActorId)
  | deadlock
  /-- All enabled actors are asleep, so that the rest of the execution is redundant. -/
  | sleepSetBlocked
  | hitStepLimit
deriving DecidableEq

namespace Decision

def literal : Decision → String
  | .run actor => "Run(" ++ actor.tagged ++ ")"
  | .deadlock => "Deadlock"
  | .sleepSetBlocked => "SleepSetBlocked"
  | .hitStepLimit => "HitStepLimit"

def actor? : Decision → Option ActorId
  | .run actor => some actor
  | _ => none

end Decision

inductive Outcome
  | completed
  | bug (error : ActorError)
  | sleepSetBlocked
  | hitStepLimit
deriving DecidableEq

namespace Outcome

def literal : Outcome → String
  | .completed => "Completed"
  | .bug error => "Bug(" ++ error.literal ++ ")"
  | .sleepSetBlocked => "SleepSetBlocked"
  | .hitStepLimit => "HitStepLimit"

def isBug : Outcome → Bool
  | .bug _ => true
  | _ => false

end Outcome

end Interleave
