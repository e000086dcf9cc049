namespace Interleave

inductive StopRule
  | anyBug
  | bugCount (count : Nat)
  | exhausted
deriving DecidableEq

namespace StopRule

def default : StopRule := .anyBug

def stops : StopRule → Nat → Bool
  | .anyBug, bugs => 0 < bugs
  | .bugCount count, bugs => count ≤ bugs
  | .exhausted, _ => false

def text : StopRule → String
  | .anyBug => "AnyBug"
  | .bugCount count => "BugCount(" ++ toString count ++ ")"
  | .exhausted => "Exhausted"

end StopRule

end Interleave
