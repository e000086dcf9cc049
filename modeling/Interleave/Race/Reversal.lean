import Interleave.Race.Causality
import Interleave.Random.Source

namespace Interleave

namespace Race

def choose (races : Array Race) (source : Random.Source) : Option Race × Random.Source :=
  if races.isEmpty then (none, source)
  else
    let drawn := source.below .narrow races.size
    (races[drawn.1]?, drawn.2)

/-- So many steps from `step` on: those that are kept, as actors, and the numbers of the actors
whose create is left out. -/
def split (causality : Causality) (schedule : Schedule) (first : Nat) :
    (step count : Nat) → Except Fault (List Nat × List Nat)
  | _, 0 => .ok ([], [])
  | step, count + 1 => do
      let frame ← schedule.frame step
      let entry ← frame.selected
      if ← causality.happensBefore schedule first step then
        let (kept, missing) ← split causality schedule first (step + 1) count
        return (kept, if entry.kind = .create then frame.size :: missing else missing)
      else
        let (kept, missing) ← split causality schedule first (step + 1) count
        return (entry.id.index :: kept, missing)

def renumber (missing : List Nat) (actor : Nat) : Except Fault ActorId := do
  return ⟨← Checked.sub actor (missing.countP fun other => other < actor)⟩

/-- The actors to run right after the steps before the race, so that its second step comes before
its first. -/
def suffix (causality : Causality) (schedule : Schedule) (race : Race) :
    Except Fault (List ActorId) := do
  let next ← Checked.add race.first 1
  let (kept, missing) ← split causality schedule race.first next (race.second - next)
  let last := (← (← schedule.frame race.second).selected).id.index
  (kept ++ [last]).mapM (renumber missing)

end Race

end Interleave
