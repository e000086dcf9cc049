import Interleave.Frame

/-!
A recorded schedule: one frame for each scheduling point of the latest executions. The frames up to
the position belong to the execution that is running; those above it are a prefix that the
execution must repeat exactly. Steps are counted from one.
-/

namespace Interleave

structure Schedule where
  frames : Array Frame
  position : Nat
deriving DecidableEq

namespace Schedule

def empty : Schedule := ⟨#[], 0⟩

def length (schedule : Schedule) : Nat := schedule.frames.size

/-- The running execution has reached the last recorded frame. -/
def atFrontier (schedule : Schedule) : Bool := schedule.position = schedule.length

def index (step : Nat) : Except Fault Nat := Checked.sub step 1

def frame (schedule : Schedule) (step : Nat) : Except Fault Frame := do
  Checked.get schedule.frames (← index step)

def modifyFrame (schedule : Schedule) (step : Nat) (change : Frame → Frame) : Schedule :=
  { schedule with frames := schedule.frames.modify (step - 1) change }

def updateFrame (schedule : Schedule) (step : Nat) (change : Frame → Except Fault Frame) :
    Except Fault Schedule := do
  let changed ← change (← schedule.frame step)
  return schedule.modifyFrame step fun _ => changed

def top (schedule : Schedule) : Except Fault Frame := schedule.frame schedule.position

def secondFromTop (schedule : Schedule) : Except Fault Frame := do
  Checked.get schedule.frames (← Checked.sub schedule.position 2)

/-- Records the actors at the next scheduling point, or compares them with those recorded there.
Answers whether the frame is new. -/
def push (schedule : Schedule) (actors : List Snapshot) : Except Fault (Bool × Schedule) :=
  let advanced := { schedule with position := schedule.position + 1 }
  if schedule.length < schedule.position then
    .error (.misplaced schedule.position schedule.length)
  else match schedule.frames[schedule.position]? with
    | none => .ok (true, { advanced with frames := schedule.frames.push (.ofActors actors) })
    | some recorded =>
        if recorded.agrees actors then .ok (false, advanced)
        else .error (.diverged (schedule.position + 1) recorded.actors actors)

/-- The top frame, which must also be the last one. -/
def realTop (schedule : Schedule) : Except Fault Frame :=
  if schedule.atFrontier then schedule.top
  else .error (.unaligned schedule.position schedule.length)

/-- Chooses the entry to run: the recorded selection in a prefix that is repeated, else the first
pending entry around from `start`, which is then selected. -/
def select (schedule : Schedule) (start : ActorId) : Except Fault (Choice × Schedule) := do
  let top ← schedule.top
  if !schedule.atFrontier then
    return (.entry (← top.selectedIndex), schedule)
  match ← top.selectedIndex? with
  | some index => return (.entry index, schedule)
  | none =>
      match top.find (start.index % max top.size 1) Frame.Entry.pending with
      | some index =>
          return (.entry index, schedule.modifyFrame schedule.position fun frame =>
            frame.modify index Frame.Entry.select)
      | none => return (top.blocked, schedule)

def pop (schedule : Schedule) : Except Fault Schedule :=
  if schedule.atFrontier then
    return ⟨schedule.frames.pop, ← Checked.sub schedule.position 1⟩
  else .error (.unaligned schedule.position schedule.length)

/-- Puts the selection of the last frame to sleep; goes back while a frame is done. -/
def retreat : Nat → Schedule → Except Fault Schedule
  | 0, schedule => .ok schedule
  | frames + 1, schedule => do
      if schedule.length = 0 then return schedule
      let top ← schedule.realTop
      let slept ← (← top.sleepSelected).clearSelected
      let next := schedule.modifyFrame schedule.position fun _ => slept
      if slept.isDone then retreat frames (← next.pop) else return next

/-- Moves on to the next branch after a complete execution. Answers whether there is one. -/
def advance (schedule : Schedule) : Except Fault (Bool × Schedule) := do
  if schedule.length = 0 then return (false, { schedule with position := 0 })
  let trimmed ←
    if (← (← schedule.realTop).selection?).isNone then schedule.pop else pure schedule
  let next ← trimmed.retreat trimmed.length
  return (next.length != 0, { next with position := 0 })

/-- Keeps the first frames, with their selections, as a prefix to repeat. -/
def truncate (schedule : Schedule) (length : Nat) : Schedule := ⟨schedule.frames.take length, 0⟩

/-- Who stays asleep at a frame after `selected` has run: whoever was asleep before it and whose
operation does not depend on its. -/
def sleepers (previous : Frame) (selected : Frame.Entry) : List Nat :=
  previous.entries.zipIdx.filterMap fun (entry, index) =>
    if index ≠ selected.id.index ∧ entry.asleep ∧ !entry.operation.dependent selected.operation
    then some index
    else none

def putToSleep (frame : Frame) (indices : List Nat) : Frame :=
  indices.foldl (fun frame index => frame.modify index Frame.Entry.sleep) frame

/-- Carries the sleep set of the frame below into the top frame. -/
def carrySleepSet (schedule : Schedule) : Except Fault Schedule := do
  if schedule.position ≤ 1 then return schedule
  let previous ← schedule.secondFromTop
  let asleep := sleepers previous (← previous.selected)
  schedule.updateFrame schedule.position fun top => .ok (putToSleep top asleep)

theorem frame_eq_ok_iff {schedule : Schedule} {step : Nat} {frame : Frame} :
    schedule.frame step = .ok frame ↔
      0 < step ∧ schedule.frames[step - 1]? = some frame := by
  by_cases counted : 1 ≤ step
  · have positive : 0 < step := counted
    simp only [Schedule.frame, index, Checked.sub, counted, if_true, positive, true_and]
    exact Checked.get_eq_ok_iff
  · have positive : ¬ 0 < step := counted
    simp only [Schedule.frame, index, Checked.sub, counted, if_false, positive, false_and, iff_false]
    intro answered
    cases answered

end Schedule

end Interleave
