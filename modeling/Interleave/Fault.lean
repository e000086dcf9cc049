import Interleave.Snapshot

namespace Interleave

inductive Fault
  /-- A key beyond the next free one. -/
  | outOfOrder (index length : Nat)
  | misplaced (position length : Nat)
  | diverged (step : Nat) (recorded observed : List Snapshot)
  | unaligned (position length : Nat)
  | severalSelected
  | noneSelected
  | invalidStep (step : Nat) (actor : ActorId)
  | noCandidates (first second : Nat)
  | noBacktrack (first second : Nat)
  | notReplayable (actor : ActorId) (step : Nat) (actors : List Snapshot)
  | notReady (actor : ActorId) (enabled active : Bool)
  | notHolding (actor : ActorId)
  | parkedButEnabled (queue : ActorId)
  | disabledReceiver (queue : ActorId)
  | emptyQueue (queue : ActorId)
  | unknownActor (actor : ActorId)
  | unfinishedActor (actor : ActorId)
  | noActor
  | outOfRange (index length : Nat)
  | additionOverflow
  | subtractionOverflow
  /-- A sequence longer than can be stored. -/
  | overCapacity (length : Nat)
  | tooLong
deriving DecidableEq

namespace Fault

/-- What was recorded, what was observed, and where to look for the cause. -/
def divergence (step : Nat) (recorded observed : List Snapshot) : String :=
  "\nUnable to replay a recorded schedule prefix. The actors at step " ++ toString step ++
  " differ from the actors that\n" ++
  "were recorded at the same step of an earlier schedule.\n\n" ++
  "The most obvious cause would be a program that operates directly upon untracked external " ++
  "state\n" ++
  "such as the file system, the wall clock, a source of randomness, or memory that is shared " ++
  "between\n" ++
  "actors without going through a mailbox. Iterating over a \x60HashMap\x60 is a common " ++
  "inadvertent source\n" ++
  "of nondeterminism.\n\n" ++
  "Recorded:\n" ++ Snapshot.listing recorded none ++
  "\nObserved:\n" ++ Snapshot.listing observed none

def text : Fault → String
  | outOfOrder index length => s!"Out of bounds. index={index}, len={length}"
  | misplaced position length => s!"Unexpected stack state. next_pos={position}, len={length}"
  | diverged step recorded observed => divergence step recorded observed
  | unaligned position length =>
      s!"Top of stack is not aligned. next_pos={position}, len={length}"
  | severalSelected => "More than one selected entry in a frame."
  | noneSelected => "No selected entry in a frame."
  | invalidStep step actor =>
      s!"Invalid operation in a completed schedule. step={step}, actor={actor.text}"
  | noCandidates first second =>
      s!"There were no candidate backtrack points. a={first}, b={second}"
  | noBacktrack first second =>
      s!"Did not manage to add a backtrack point. a={first}, b={second}"
  | notReplayable actor step actors =>
      s!"Unable to replay schedule trace. Actor {actor.text} is not enabled at step {step}.\n" ++
        Snapshot.listing actors none
  | notReady actor enabled active =>
      s!"Scheduled actor is not ready to run. id={actor.text}, enabled={enabled}, " ++
        s!"active={active}"
  | notHolding actor => s!"Actor gave up control without holding it. id={actor.text}"
  | parkedButEnabled queue => s!"Receiver was parked but enabled. queue={queue.text}"
  | disabledReceiver queue => s!"Receiver was disabled before receiving. queue={queue.text}"
  | emptyQueue queue => s!"Receiver was scheduled with an empty queue. queue={queue.text}"
  | unknownActor actor => s!"Joined an unknown actor. id={actor.text}"
  | unfinishedActor actor => s!"Joined actor did not terminate. id={actor.text}"
  | noActor => "An actor primitive was called outside of an actor. thread=None"
  | outOfRange index length =>
      s!"index out of bounds: the len is {length} but the index is {index}"
  | additionOverflow => "attempt to add with overflow"
  | subtractionOverflow => "attempt to subtract with overflow"
  | overCapacity _ => "capacity overflow"
  | tooLong => "allowance exhausted"

/-- The engine has found itself inconsistent, so the exploration as a whole is over. -/
def isEngine : Fault → Bool
  | outOfOrder .. | outOfRange .. | additionOverflow | subtractionOverflow | overCapacity .. |
    tooLong => false
  | _ => true

/-- The text that a report of the fault carries; a value out of range is reported without one. -/
def message? : Fault → Option String
  | outOfRange .. | additionOverflow | subtractionOverflow | overCapacity .. | tooLong => none
  | fault => some fault.text

end Fault

/-- The number of values of a machine word. -/
def wordSize : Nat := Nat.pow 2 64

namespace Checked

def add (left right : Nat) : Except Fault Nat :=
  if left + right < wordSize then .ok (left + right) else .error .additionOverflow

def sub (left right : Nat) : Except Fault Nat :=
  if right ≤ left then .ok (left - right) else .error .subtractionOverflow

/-- A sequence is stored in less than half of the bytes that a word can address. -/
def room (length elementBytes : Nat) : Except Fault Unit :=
  if 2 * (length * elementBytes) < wordSize then .ok () else .error (.overCapacity length)

def get (values : Array α) (index : Nat) : Except Fault α :=
  match values[index]? with
  | some value => .ok value
  | none => .error (.outOfRange index values.size)

theorem room_eq_ok_iff {length elementBytes : Nat} :
    room length elementBytes = .ok () ↔ 2 * (length * elementBytes) < wordSize := by
  simp only [room]
  split <;> simp_all

theorem get_eq_ok_iff {values : Array α} {index : Nat} {value : α} :
    get values index = .ok value ↔ values[index]? = some value := by
  simp only [get]
  split <;> simp_all

end Checked

end Interleave
