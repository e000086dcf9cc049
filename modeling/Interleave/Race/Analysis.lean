import Interleave.Log
import Interleave.Race.Causality

namespace Interleave

structure Analysis where
  schedule : Schedule
  causality : Causality

namespace Analysis

/-- The first steps of the awaited actors, in order. An actor whose first step comes after none
of the steps seen so far could have run in place of the first. -/
def independentFirsts (causality : Causality) (schedule : Schedule) :
    (steps awaited : List Nat) → (seen : Clock) → Except Fault (List Nat)
  | [], _, _ => .ok []
  | step :: rest, awaited, seen => do
      if awaited.isEmpty then return []
      let actor := (← (← schedule.frame step).selected).id.index
      if !awaited.contains actor then
        independentFirsts causality schedule rest awaited seen
      else
        let clock ← causality.clock step
        let others ← independentFirsts causality schedule rest (awaited.erase actor)
          (seen.set actor (.ofNat step))
        return if seen.anyBefore clock then others else actor :: others

/-- The actors that could run in place of the first step of a race. -/
def candidates (causality : Causality) (schedule : Schedule) (race : Race) (second : Frame.Entry) :
    Except Fault (List Nat) := do
  let before ← schedule.frame race.first
  let firstActor := (← before.selected).id.index
  let secondActor := second.id.index
  let enabled := (before.entries.zipIdx.filter fun (entry, _) => entry.enabled).map Prod.snd
  let awaited := enabled.filter fun actor => actor ≠ firstActor ∧ actor ≠ secondActor
  let between := List.range' (race.first + 1) (race.second - (race.first + 1))
  let seen := (Clock.zero causality.actors).set firstActor (.ofNat race.first)
  let others ← independentFirsts causality schedule between awaited seen
  return if enabled.contains secondActor then secondActor :: others else others

/-- A candidate that sleeps, else an enabled one that does not yield, else any; always the first
around from `start`. -/
def preferred (frame : Frame) (candidates : List Nat) (start : Nat) : Option Nat :=
  let first (property : Frame.Entry → Bool) : Option Nat :=
    ((frame.around start).find? fun (entry, index) =>
      candidates.contains index && property entry).map Prod.snd
  first Frame.Entry.asleep
    <|> first (fun entry => entry.enabled && entry.kind ≠ .yield)
    <|> first (fun _ => true)

def setSchedule (schedule : Schedule) (analysis : Analysis) : Analysis :=
  { analysis with schedule := schedule }

def setCausality (causality : Causality) (analysis : Analysis) : Analysis :=
  { analysis with causality := causality }

/-- Sees to it that some candidate is explored at the frame of the first step. -/
def addBacktrack (race : Race) (second : Frame.Entry) : Attempt Analysis Unit := do
  let analysis ← get
  let found ← candidates analysis.causality analysis.schedule race second
  if found.isEmpty then throw (.noCandidates race.first race.second)
  let frame ← analysis.schedule.frame race.first
  if found.any fun index => (frame.get? index).any Frame.Entry.backtrack then return
  match preferred frame found second.id.index with
  | some index =>
      Attempt.log (.backtrackPoint race.first index)
      modify (setSchedule (analysis.schedule.modifyFrame race.first fun frame =>
        frame.modify index Frame.Entry.mark))
  | none => throw (.noBacktrack race.first race.second)

def record (race : Race) : Attempt Analysis Unit :=
  modify fun analysis =>
    setCausality { analysis.causality with races := analysis.causality.races.push race } analysis

def visit (recording : Bool) (step : Nat) : Attempt Analysis Unit := do
  let schedule := (← get).schedule
  let frame ← schedule.frame step
  match ← frame.selection? with
  | none => return
  | some (entry, _) =>
      let followed ← (← get).causality.follow entry.id.index step
      let (partner, touched) ← followed.touch schedule.position step frame entry
      modify (setCausality touched)
      if partner = 0 then return
      if ← touched.isRace schedule partner step then
        Attempt.log (.race partner step (← touched.clock step))
        if recording then record ⟨partner, step⟩ else addBacktrack ⟨partner, step⟩ entry
      modify (setCausality (← (← get).causality.joinStep step partner))

/-- The most actors of a frame of the running execution. -/
def actorCount (schedule : Schedule) : Except Fault Nat :=
  (List.range' 1 schedule.position).foldlM (fun most step => do
    return max most (← schedule.frame step).size) 0

/-- Visits every step of the latest execution. With `recording`, races are recorded and the
schedule stays as it is; otherwise each race is answered by a backtrack point. -/
def run (recording : Bool) : Attempt Analysis Unit := do
  let schedule := (← get).schedule
  let actors ← actorCount schedule
  modify (setCausality (.start actors schedule.position))
  for step in List.range' 1 schedule.position do
    visit recording step

end Analysis

end Interleave
