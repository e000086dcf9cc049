import Interleave.Policy.Priority
import Interleave.Policy.Replay
import Interleave.Policy.Scripted
import Interleave.Policy.Search
import Interleave.Policy.Uniform

namespace Interleave

inductive Policy
  | uniform (policy : Policy.Uniform)
  | priority (policy : Policy.Priority)
  | search (policy : Policy.Search)
  | replay (policy : Policy.Replay)
  | scripted (policy : Policy.Scripted)

namespace Policy

def choose (actors : List Snapshot) (current : ActorId) : Attempt Policy Decision := do
  match ← get with
  | uniform policy => Attempt.within policy uniform (Scheduler.choose actors current)
  | priority policy => Attempt.within policy priority (Scheduler.choose actors current)
  | search policy => Attempt.within policy search (Scheduler.choose actors current)
  | replay policy => Attempt.within policy replay (Scheduler.choose actors current)
  | scripted policy => Attempt.within policy scripted (Scheduler.choose actors current)

def advance : Attempt Policy Bool := do
  match ← get with
  | uniform policy => Attempt.within policy uniform Scheduler.advance
  | priority policy => Attempt.within policy priority Scheduler.advance
  | search policy => Attempt.within policy search Scheduler.advance
  | replay policy => Attempt.within policy replay Scheduler.advance
  | scripted policy => Attempt.within policy scripted Scheduler.advance

def steps : Policy → Nat
  | uniform policy => Scheduler.steps policy
  | priority policy => Scheduler.steps policy
  | search policy => Scheduler.steps policy
  | replay policy => Scheduler.steps policy
  | scripted policy => Scheduler.steps policy

instance : Scheduler Policy where
  choose := choose
  advance := advance
  steps := steps

end Policy

end Interleave
