import Interleave.Actor.Id

namespace Interleave

structure Trace where
  steps : List ActorId
deriving DecidableEq

namespace Trace

def length (trace : Trace) : Nat := trace.steps.length

def isEmpty (trace : Trace) : Bool := trace.steps.isEmpty

def text (trace : Trace) : String := Text.bracketed (trace.steps.map ActorId.text)

end Trace

end Interleave
