import Interleave.Random.Source
import Interleave.Scheduler

namespace Interleave.Policy

structure Uniform where
  source : Random.Source
  stepLimit : Option Nat
  steps : Nat

namespace Uniform

def ofSettings (settings : Settings) : Uniform :=
  ⟨.ofSeed settings.seed, settings.stepLimit, 0⟩

def preferred (actor : Snapshot) : Bool := actor.kind ≠ .send && actor.kind ≠ .yield

def pick (choices : List Snapshot) (policy : Uniform) : Decision × Uniform :=
  if nonempty : 0 < choices.length then
    let drawn := policy.source.below .wide choices.length
    have inside : drawn.1 < choices.length := policy.source.below_lt .wide nonempty
    (.run choices[drawn.1].id, { policy with source := drawn.2 })
  else (.deadlock, policy)

def choose (actors : List Snapshot) (policy : Uniform) : Decision × Uniform :=
  let counted := { policy with steps := policy.steps + 1 }
  if policy.stepLimit.any fun limit => limit < counted.steps then (.hitStepLimit, counted)
  else counted.pick (Snapshot.enabledPreferring preferred actors)

def advance (policy : Uniform) : Bool × Uniform := (true, { policy with steps := 0 })

instance : Scheduler Uniform where
  choose actors _ := Attempt.change (choose actors)
  advance := Attempt.change advance
  steps := steps

theorem mem_of_pick {choices : List Snapshot} {policy : Uniform} {id : ActorId}
    (picked : (policy.pick choices).1 = .run id) : ∃ actor ∈ choices, actor.id = id := by
  simp only [pick] at picked
  split at picked
  · exact ⟨_, List.getElem_mem _, by simpa using picked⟩
  · simp at picked

theorem enabled_of_choose {actors : List Snapshot} {policy : Uniform} {id : ActorId}
    (chosen : (policy.choose actors).1 = .run id) :
    ∃ actor ∈ actors, actor.id = id ∧ actor.enabled := by
  simp only [choose] at chosen
  split at chosen
  · simp at chosen
  · obtain ⟨actor, member, id_eq⟩ := mem_of_pick chosen
    have present := Snapshot.mem_of_mem_enabledPreferring member
    exact ⟨actor, present.1, id_eq, present.2⟩

end Uniform

end Interleave.Policy
