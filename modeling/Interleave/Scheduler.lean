import Interleave.Log

namespace Interleave

/-- The actors are numbered by their positions; `current` has reached the scheduling point. -/
class Scheduler (π : Type) where
  choose (actors : List Snapshot) (current : ActorId) : Attempt π Decision
  /-- Answers whether anything is left to explore. -/
  advance : Attempt π Bool
  steps : π → Nat

structure Settings where
  seed : Nat := 0
  stepLimit : Option Nat := some 10000
  reduction : Bool := true
  sleepSets : Bool := true
  randomized : Bool := false
  changePoints : Nat := 2
  badActor : Option ActorId := none
deriving DecidableEq

end Interleave
