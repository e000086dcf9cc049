import Interleave.Race.Analysis
import Interleave.Race.Reversal
import Interleave.Scheduler

/-!
Systematic search over a recorded schedule. In the plain mode it goes depth first until no branch
is left: with reduction each frame starts with one branch and races add the others, without it
every enabled actor is a branch; sleep sets leave out branches that only reorder independent
operations. In the randomized mode each execution is a random walk, and with reduction it starts
by reversing a race of the previous one.
-/

namespace Interleave.Policy

structure Search where
  schedule : Schedule
  reduction : Bool
  sleepSets : Bool
  randomized : Bool
  source : Random.Source
  stepLimit : Option Nat
  /-- The actors that are still to run so that a race is reversed. -/
  suffix : List ActorId

namespace Search

def ofSettings (settings : Settings) : Search where
  schedule := .empty
  reduction := settings.reduction
  sleepSets := settings.sleepSets
  randomized := settings.randomized
  source := .ofSeed settings.seed
  stepLimit := settings.stepLimit
  suffix := []

def reset (policy : Search) : Search := { policy with schedule := .empty, suffix := [] }

def modifySchedule (change : Schedule → Schedule) : Attempt Search Unit :=
  modify fun policy => { policy with schedule := change policy.schedule }

def onSchedule (step : Schedule → Except Fault (α × Schedule)) : Attempt Search α :=
  Attempt.tryChange fun policy => do
    let (answer, schedule) ← step policy.schedule
    return (answer, { policy with schedule := schedule })

def changeTop (change : Frame → Except Fault Frame) : Attempt Search Unit :=
  onSchedule fun schedule =>
    return ((), ← schedule.updateFrame schedule.position change)

def markTop (index : Nat) : Attempt Search Unit :=
  changeTop fun top => .ok (top.modify index Frame.Entry.mark)

/-- The indices of a new frame among which a random walk draws. -/
def walkChoices (frame : Frame) : List Nat :=
  let enabled := frame.entries.zipIdx.filter fun (entry, _) => entry.enabled
  let eager := enabled.filter fun (entry, _) => entry.kind ≠ .yield
  (if eager.isEmpty then enabled else eager).map Prod.snd

def drawBranch (current : ActorId) (frame : Frame) : Attempt Search Unit := do
  let choices := walkChoices frame
  if choices.isEmpty then return
  let drawn := (← get).source.below .wide choices.length
  modify fun policy => { policy with source := drawn.2 }
  let index := choices.getD drawn.1 0
  Attempt.log (.randomPick index current)
  markTop index

/-- Marks the branch of a new frame: the next actor of a race that is being reversed, or a random
one. -/
def markRandomly (current : ActorId) : Attempt Search Unit := do
  let policy ← get
  let top ← policy.schedule.top
  match policy.suffix with
  | [] => drawBranch current top
  | next :: rest =>
      if (top.get? next.index).any Frame.Entry.enabled then
        set { policy with suffix := rest }
        markTop next.index
      else
        set { policy with suffix := [] }
        Attempt.log (.reversalDiverged next)
        drawBranch current top

/-- Marks the branches of a new frame. -/
def markBranches (current : ActorId) : Attempt Search Unit := do
  let policy ← get
  if policy.sleepSets then
    onSchedule fun schedule => return ((), ← schedule.carrySleepSet)
  changeTop fun top =>
    if policy.reduction then top.markFirstEnabled current.index else .ok top.markEnabled

def choose (actors : List Snapshot) (current : ActorId) : Attempt Search Decision := do
  let policy ← get
  if policy.stepLimit.any fun limit => limit ≤ policy.schedule.position then
    return .hitStepLimit
  if ← onSchedule fun schedule => schedule.push actors then
    if policy.randomized then markRandomly current else markBranches current
  match ← onSchedule fun schedule => schedule.select current with
  | .entry index => return .run (← (← (← get).schedule.top).get index).id
  | .sleepSetBlocked => return .sleepSetBlocked
  | .deadlock => return .deadlock

/-- Analyzes the latest execution. -/
def analyze (recording : Bool) : Attempt Search Causality := do
  let policy ← get
  let analysis : Analysis := ⟨policy.schedule, .empty⟩
  let (result, analyzed) ← ((Analysis.run recording).runOn analysis : StateM Log _)
  modifySchedule fun _ => analyzed.schedule
  Attempt.ofExcept result
  return analyzed.causality

/-- Prepares the reversal of a race of the latest execution, if it has one. -/
def reverseRace : Attempt Search Unit := do
  let causality ← analyze true
  let policy ← get
  let (race, rest) := Race.choose causality.races policy.source
  set { policy with source := rest }
  match race with
  | none => modifySchedule fun _ => .empty
  | some race =>
      let suffix ← Race.suffix causality policy.schedule race
      Attempt.log (.reversing race.first race.second suffix)
      modify fun policy => { policy with
        schedule := policy.schedule.truncate (race.first - 1)
        suffix := suffix }

def advance : Attempt Search Bool := do
  let policy ← get
  if policy.randomized then
    set { policy with suffix := [] }
    if policy.reduction then reverseRace else modifySchedule fun _ => .empty
    return true
  if policy.reduction then
    let _ ← analyze false
  onSchedule Schedule.advance

instance : Scheduler Search where
  choose := choose
  advance := advance
  steps policy := policy.schedule.position

end Search

end Interleave.Policy
