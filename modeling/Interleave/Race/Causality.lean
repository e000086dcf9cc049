import Interleave.Clock
import Interleave.Schedule

/-!
Which steps of a recorded schedule happen before which: each step has a clock, made from the clocks
of the steps it has to come after. These are the previous step of its actor and, by what it
touches, the previous step of a life (start, end, create or join of one actor), the previous send
to a queue, the send whose message is received, or the latest step of every other actor.
-/

namespace Interleave

/-- The latest step for each number, and zero where there is none. -/
structure Latest where
  steps : List (Nat × Nat)

namespace Latest

def empty : Latest := ⟨[]⟩

def get (latest : Latest) (key : Nat) : Nat := (latest.steps.lookup key).getD 0

def set (latest : Latest) (key step : Nat) : Latest :=
  ⟨(key, step) :: latest.steps.filter fun (other, _) => other != key⟩

def assign (latest : Latest) (key step : Nat) : Except Fault Latest := do
  Checked.room (key + 1) 8
  return latest.set key step

private theorem lookup_filter {key other : Nat} (different : other ≠ key) (steps : List (Nat × Nat)) :
    (steps.filter fun (number, _) => number != key).lookup other = steps.lookup other := by
  have key_ne : (other == key) = false := by simpa using different
  induction steps with
  | nil => rfl
  | cons head rest induction =>
      obtain ⟨number, value⟩ := head
      by_cases same : number = key <;> simp [List.lookup_cons, same, key_ne, induction]

theorem get_set (latest : Latest) (key step other : Nat) :
    (latest.set key step).get other = if other = key then step else latest.get other := by
  by_cases same : other = key
  · simp [get, set, same]
  · have key_ne : (other == key) = false := by simpa using same
    simp [get, set, same, key_ne, List.lookup_cons, lookup_filter same]

end Latest

/-- Two sends to one queue that are not ordered by what happens between them. -/
structure Race where
  first : Nat
  second : Nat
deriving DecidableEq

/-- Step `i` owns clock `i - 1`. -/
structure Causality where
  actors : Nat
  clocks : Array Clock
  lastStep : Latest
  lastOfLife : Latest
  lastSend : Latest
  races : Array Race

namespace Causality

def start (actors steps : Nat) : Causality :=
  ⟨actors, Array.replicate steps (.zero actors), .empty, .empty, .empty, #[]⟩

def empty : Causality := start 0 0

def clock (causality : Causality) (step : Nat) : Except Fault Clock := do
  Checked.get causality.clocks (← Schedule.index step)

def modifyClock (causality : Causality) (step : Nat) (change : Clock → Clock) : Causality :=
  { causality with clocks := causality.clocks.modify (step - 1) change }

def joinStep (causality : Causality) (later earlier : Nat) : Except Fault Causality := do
  let known ← causality.clock earlier
  return causality.modifyClock later fun clock => clock.join known

/-- The step comes after the previous step of its actor. -/
def follow (causality : Causality) (actor step : Nat) : Except Fault Causality := do
  if causality.actors ≤ actor then throw (.outOfRange actor causality.actors)
  let last := causality.lastStep.get actor
  let inherited ← if 0 < last then causality.clock last else causality.clock step
  let followed := causality.modifyClock step fun _ => inherited.set actor (.ofNat step)
  return { followed with lastStep := followed.lastStep.set actor step }

/-- The step comes after the latest step of every other actor. -/
def joinOthers (causality : Causality) (actor step : Nat) : Except Fault Causality :=
  (List.range causality.actors).foldlM (fun causality other =>
    let last := causality.lastStep.get other
    if other ≠ actor ∧ 0 < last then causality.joinStep step last else pure causality) causality

/-- What a selected operation touches. A create touches its child, whose number is that of the
first actor missing from the frame; a create without a following frame has no child. -/
def target (steps step : Nat) (frame : Frame) (entry : Frame.Entry) : Option Nat :=
  match entry.kind with
  | .create => if step < steps then some frame.size else none
  | _ => entry.operation.target.map ActorId.index

/-- The earlier step that the operation of a step has to come after, or zero. -/
def touch (causality : Causality) (steps step : Nat) (frame : Frame) (entry : Frame.Entry) :
    Except Fault (Nat × Causality) :=
  match entry.kind, target steps step frame entry with
  | .start, some target | .stop, some target | .create, some target | .join, some target => do
      let life ← causality.lastOfLife.assign target step
      return (causality.lastOfLife.get target, { causality with lastOfLife := life })
  | .send, some target => do
      let sends ← causality.lastSend.assign target step
      return (causality.lastSend.get target, { causality with lastSend := sends })
  | .receive, _ => .ok (entry.snapshot.sendStep.getD 0, causality)
  | .awaitDeadlock, _ => do return (0, ← causality.joinOthers entry.id.index step)
  | .invalid, _ => .error (.invalidStep step entry.id)
  | _, _ => .ok (0, causality)

/-- The earlier step is known to the clock of the later one. -/
def happensBefore (causality : Causality) (schedule : Schedule) (earlier later : Nat) :
    Except Fault Bool := do
  let actor := (← (← schedule.frame earlier).selected).id.index
  return UInt32.ofNat earlier ≤ (← causality.clock later).get actor

/-- Only sends can take place in another order. -/
def reversible (schedule : Schedule) (earlier later : Nat) : Except Fault Bool := do
  if (← (← schedule.frame earlier).selected).kind ≠ .send then return false
  return (← (← schedule.frame later).selected).kind = .send

def isRace (causality : Causality) (schedule : Schedule) (earlier later : Nat) :
    Except Fault Bool := do
  if ← causality.happensBefore schedule earlier later then return false
  reversible schedule earlier later

end Causality

end Interleave
