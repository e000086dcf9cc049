import Interleave.Clock
import Interleave.Decision
import Interleave.Fault

namespace Interleave

inductive Level
  | trace
  | debug
  | info
  | warn
  | error
deriving DecidableEq

namespace Level

def text : Level → String
  | trace => "TRACE"
  | debug => "DEBUG"
  | info => "INFO"
  | warn => "WARN"
  | error => "ERROR"

def weight : Level → Nat
  | trace => 0
  | debug => 1
  | info => 2
  | warn => 3
  | error => 4

end Level

inductive Event
  | step (number : Nat) (current : ActorId) (decision : Decision) (actors : List Snapshot)
  | complete (step : Nat)
  | deadlock (step : Nat) (live : List ActorId)
  | sleepSetBlocked (step : Nat)
  | hitStepLimit (step : Nat)
  | created (actor : ActorId)
  | sent (queue : ActorId) (step length : Nat)
  | received (queue : ActorId) (step : Nat)
  | cancelled (actor : ActorId)
  | failed (actor : ActorId) (error : ActorError)
  | bugFound (error : ActorError)
  | fault (cause : Fault)
  | race (first second : Nat) (clock : Clock)
  | backtrackPoint (step index : Nat)
  | randomPick (index : Nat) (current : ActorId)
  | reversalDiverged (actor : ActorId)
  | reversing (first second : Nat) (suffix : List ActorId)
  | boosted (actor : ActorId)
  | demoted (actor : ActorId)
  | executionFinished (number : Nat) (outcome : Outcome) (steps : Nat)
  | explorationDone (schedules bugs : Nat) (exhausted : Bool)

namespace Event

def level : Event → Level
  | step .. | complete _ | sleepSetBlocked _ | created _ | sent .. | received .. | race ..
  | backtrackPoint .. | randomPick .. | boosted _ | demoted _ => .trace
  | deadlock .. | hitStepLimit _ | cancelled _ | failed .. | reversalDiverged _ | reversing ..
  | executionFinished .. => .debug
  | explorationDone .. => .info
  | bugFound _ => .warn
  | fault _ => .error

def taggedList (actors : List ActorId) : String := Text.bracketed (actors.map ActorId.tagged)

def message : Event → String
  | step number current decision actors =>
      s!"Step {number}. current={current.text}, decision={decision.literal}\n" ++
        Snapshot.listing actors decision.actor?
  | complete number => s!"Execution complete. step={number}"
  | deadlock number live => s!"Deadlock. step={number}, live={taggedList live}"
  | sleepSetBlocked number => s!"Sleep set blocked. step={number}"
  | hitStepLimit number => s!"Hit step limit. step={number}"
  | created actor => s!"Created actor. id={actor.text}"
  | sent queue number length =>
      s!"Sent. queue={queue.text}, step={number}, len={length}"
  | received queue number => s!"Received. queue={queue.text}, step={number}"
  | cancelled actor => s!"Actor cancelled itself. id={actor.text}"
  | failed actor error => s!"Actor failed. id={actor.text}, error={error.text}"
  | bugFound error => s!"Bug found. error={error.text}"
  | fault cause => cause.text
  | race first second clock => s!"Race. a={first}, b={second}, clock={clock.text}"
  | backtrackPoint number index => s!"Backtrack point. step={number}, actor={index}"
  | randomPick index current => s!"Random pick. actor={index}, current={current.text}"
  | reversalDiverged actor => s!"Race reversal diverged. actor={actor.text}"
  | reversing first second suffix =>
      s!"Reversing race. a={first}, b={second}, suffix={taggedList suffix}"
  | boosted actor => s!"Change point. boosted={actor.text}"
  | demoted actor => s!"Change point. demoted={actor.text}"
  | executionFinished number outcome steps =>
      s!"Execution {number} finished. outcome={outcome.literal}, steps={steps}"
  | explorationDone schedules bugs exhausted =>
      s!"Exploration done. schedules={schedules}, bugs={bugs}, exhausted={exhausted}"

def line (event : Event) : String := event.level.text ++ " " ++ event.message

end Event

/-- The events that were told, without those below a level. -/
structure Log where
  least : Level
  events : Array Event

namespace Log

def empty (least : Level) : Log := ⟨least, #[]⟩

def add (event : Event) (log : Log) : Log :=
  if event.level.weight < log.least.weight then log
  else { log with events := log.events.push event }

end Log

/-- Works on a state, writes to the log, and may stop at a fault. What it has done to the state
and the log before the fault stays done. -/
abbrev Attempt (σ α : Type) := ExceptT Fault (StateT σ (StateM Log)) α

namespace Attempt

def log (event : Event) : Attempt σ Unit := modifyThe Log (Log.add event)

def ofExcept : Except Fault α → Attempt σ α
  | .ok value => pure value
  | .error fault => throw fault

instance : MonadLift (Except Fault) (ExceptT Fault (StateT σ (StateM Log))) where
  monadLift := ofExcept

/-- Applies a pure change that answers something. -/
def change (step : σ → α × σ) : Attempt σ α := do
  let changed := step (← get)
  set changed.2
  return changed.1

/-- Applies a change that may fault; if it does, the state stays as it was. -/
def tryChange (step : σ → Except Fault (α × σ)) : Attempt σ α := do
  let changed ← ofExcept (step (← get))
  set changed.2
  return changed.1

def runOn (attempt : Attempt σ α) (state : σ) : StateM Log (Except Fault α × σ) :=
  attempt.run.run state

/-- Works on `part` instead, and leaves behind what `whole` makes of it. -/
def within (part : τ) (whole : τ → σ) (attempt : Attempt τ α) : Attempt σ α := do
  let (result, changed) ← (attempt.runOn part : StateM Log _)
  set (whole changed)
  ofExcept result

end Attempt

end Interleave
