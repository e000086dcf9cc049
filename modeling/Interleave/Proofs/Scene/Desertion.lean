import Interleave.Proofs.Machine.Departures
import Interleave.Proofs.Run.Orderly
import Interleave.Proofs.Scene.Unfolding

namespace Interleave

variable {σ μ : Type}

namespace Machine

variable {program : Program σ μ} {machine : Machine σ μ} {id other : ActorId} {actor : Actor σ μ}

theorem mem_outlooks_iff {prospect : Prospect σ μ} :
    prospect ∈ machine.outlooks ↔
      ∃ id actor, machine.actors.get? id = some actor ∧ actor.stage.prospect = prospect := by
  rw [List.mem_iff_getElem?]
  constructor
  · rintro ⟨index, found⟩
    rw [getElem?_outlooks, Option.map_eq_some_iff] at found
    obtain ⟨actor, there, same⟩ := found
    exact ⟨⟨index⟩, actor, there, same⟩
  · rintro ⟨id, actor, there, rfl⟩
    exact ⟨id.index, getElem?_outlooks_of_get? there⟩

theorem prospect_ne_gone
    (proper : actor.Proper id) (living : actor.record.terminated = false)
    (placed : actor.stage ≠ .running) : actor.stage.prospect ≠ .gone := by
  cases proper with
  | @free record stage flags announced going =>
      cases stage with
      | running => exact absurd rfl placed
      | waiting => nofun
      | ending terminated =>
          cases going
          nofun
      | ended => cases going
  | parked | joining | yielding | awaiting => nofun
  | gone flags =>
      rw [flags.terminated] at living
      cases living

/-- Where nobody is enabled at a scheduling point, nobody can go on in the scene. -/
theorem still_of_disabled
    (control : machine.control = .choosing id) (coherent : machine.Coherent id)
    (released : machine.Released) (placed : machine.Placed id)
    (disabled : ∀ id actor, machine.actors.get? id = some actor → actor.record.enabled = false) :
    (machine.scene program).Still := by
  rw [scene_of_choosing program control]
  intro prospect member
  obtain ⟨known, actor, there, rfl⟩ := mem_outlooks_iff.mp member
  have off := disabled known actor there
  have waiting : ∀ wait, actor.wait? = some wait → machine.wait? known = some wait :=
    fun wait waits => (wait?_of_get? there).trans waits
  have neither := released disabled known
  cases coherent.proper known actor there with
  | free flags =>
      rw [flags.enabled] at off
      cases off
  | @parked record slot body flags =>
      obtain ⟨box, found, -, empty⟩ := coherent.empty known slot
        (waiting _ (by simp [Actor.wait?, flags.enabled]))
      apply Scene.Stalls.receive
      change machine.boxes[slot]? = some ⟨box.owner, []⟩
      rw [getElem?_boxes, found, Option.map_some, empty]
      rfl
  | @joining record other strict body flags =>
      obtain ⟨target, present, living⟩ := coherent.living known other
        (waiting _ (by simp [Actor.wait?, flags.enabled]))
      apply Scene.Stalls.join
      change machine.outlooks[other.index]? ≠ _
      rw [getElem?_outlooks_of_get? present]
      intro gone
      refine prospect_ne_gone (coherent.proper other target present) living ?_ (Option.some.inj gone)
      intro running
      cases coherent.running other target present running
      exact placed target present running
  | yielding flags =>
      exact absurd (waiting .progress (by simp [Actor.wait?, flags.enabled, flags.yielded])) neither.1
  | awaiting flags =>
      exact absurd (waiting .deadlock (by simp [Actor.wait?, flags.enabled, flags.yielded])) neither.2
  | @gone record stage flags announced stopped =>
      have terminated := prospect_of_terminated coherent there flags.terminated
      dsimp only at terminated
      rw [terminated]
      exact .gone

/-- How many transitions are left where all leave: one for each that has not left, and one more if
control is with one that has. -/
def left (machine : Machine σ μ) : Nat :=
  machine.remaining + match machine.control with
    | .returning id => ((machine.actors.get? id).any fun actor => actor.stage.isEnded).toNat
    | _ => 0

theorem left_of_returning
    (control : machine.control = .returning id) (there : machine.actors.get? id = some actor) :
    machine.left = machine.remaining + actor.stage.isEnded.toNat := by
  unfold left
  rw [control]
  simp only [there, Option.any_some]

theorem left_le (machine : Machine σ μ) : machine.left ≤ machine.actors.size + 1 := by
  have most := machine.remaining_le
  unfold left
  split
  · exact Nat.add_le_add most (Bool.toNat_le _)
  · omega

structure Flawless (machine : Machine σ μ) : Prop where
  bug : machine.bug = none
  crashes : machine.crashes = []
  sleepSetBlocked : machine.sleepSetBlocked = false
  hitStepLimit : machine.hitStepLimit = false
  deadlocked : machine.deadlocked = []

structure Deserted (machine : Machine σ μ) : Prop where
  ended : machine.ended = true
  flawless : machine.Flawless
  stopped : ∀ id actor, machine.actors.get? id = some actor →
    actor.stage.isOver = true ∧ actor.record.terminated = true
  control : machine.control = .finished ∧ machine.remaining = 0 ∨ ∃ id actor,
    machine.control = .returning id ∧ machine.actors.get? id = some actor

/-- Control goes to somebody who has not left yet. -/
theorem control_heir (control : machine.control = heir machine.actors) :
    machine.control = .finished ∧ machine.remaining = 0 ∨ ∃ id actor,
      machine.control = .returning id ∧ machine.actors.get? id = some actor ∧
        actor.stage.isEnded = false := by
  rcases heir_cases machine.actors with ⟨id, actor, same, there, living⟩ | ⟨same, gone⟩
  · exact .inr ⟨id, actor, control.trans same, there, living⟩
  · refine .inl ⟨control.trans same, ?_⟩
    rw [remaining, List.countP_eq_zero]
    intro stage member
    obtain ⟨index, found⟩ := List.mem_iff_getElem?.mp member
    rw [getElem?_stages] at found
    obtain ⟨actor, there, rfl⟩ := Option.map_eq_some_iff.mp found
    simp [gone _ actor there]

theorem Deserted.next
    (deserted : machine.Deserted) (program : Program σ μ)
    (unfinished : machine.control ≠ .finished) :
    (machine.next program).Deserted ∧ (machine.next program).left < machine.left ∧
      (machine.next program).actors.size = machine.actors.size := by
  rcases deserted.control with ⟨finished, -⟩ | ⟨id, actor, control, there⟩
  · exact absurd finished unfinished
  have leaves : machine.next program = machine.leave id := by
    rw [next_of_ended program control deserted.ended (index_lt there), dismissed, there]
    have stopped := (deserted.stopped id actor there).1
    cases stage : actor.stage with
    | waiting =>
        rw [stage] at stopped
        cases stopped
    | running | ending | ended => simp only [Option.map_some, stage]
  have heir : (machine.leave id).control = heir (machine.leave id).actors := by
    rw [leave, handOn_eq]
    exact if_pos deserted.ended
  have heir := control_heir heir
  rw [leaves]
  obtain ⟨actors, passed, same, -⟩ := exists_leave_eq machine id
  refine ⟨⟨?_, ?_, ?_, ?_⟩, ?_, ?_⟩
  · rw [same]
    exact deserted.ended
  · obtain ⟨bug, crashes, sleepSetBlocked, hitStepLimit, deadlocked⟩ := deserted.flawless
    rw [same]
    exact ⟨bug, crashes, sleepSetBlocked, hitStepLimit, deadlocked⟩
  · intro other changed here
    obtain ⟨actor, known, rfl⟩ := exists_get?_of_change (get?_leave machine id) here
    split
    · exact ⟨rfl, (deserted.stopped other actor known).2⟩
    · exact deserted.stopped other actor known
  · rcases heir with finished | ⟨next, known, returning, found, -⟩
    · exact .inl finished
    · exact .inr ⟨next, known, returning, found⟩
  · have fewer := remaining_leave there
    have now : (machine.leave id).left = (machine.leave id).remaining := by
      rcases heir with ⟨finished, -⟩ | ⟨next, known, returning, found, living⟩
      · unfold left
        rw [finished]
        rfl
      · rw [left_of_returning returning found, living]
        rfl
    rw [left_of_returning control there, now, ← fewer]
    cases actor.stage.isEnded <;> simp
  · rw [← length_stages, stages_leave, List.length_set, length_stages]

theorem over_of_gone
    (coherent : machine.Coherent id) (placed : machine.Placed id)
    (there : machine.actors.get? other = some actor) (gone : actor.stage.prospect = .gone) :
    actor.stage.isOver = true ∧ actor.record.terminated = true := by
  have proper := coherent.proper other actor there
  cases terminated : actor.record.terminated with
  | false =>
      refine absurd gone (prospect_ne_gone proper terminated ?_)
      intro running
      cases coherent.running other actor there running
      exact placed actor there running
  | true =>
      cases proper with
      | gone flags announced stopped => exact ⟨stopped, rfl⟩
      | free flags | parked flags | joining flags | yielding flags | awaiting flags =>
          rw [flags.terminated] at terminated
          cases terminated

theorem deserted_of_gone
    (clean : machine.Clean) (coherent : machine.Coherent id) (placed : machine.Placed id)
    (gone : ∀ prospect ∈ machine.outlooks, prospect = .gone) :
    (machine.decided id .deadlock).Deserted ∧
      (machine.decided id .deadlock).actors.size = machine.actors.size := by
  have stopped : ∀ other actor, machine.actors.get? other = some actor →
      actor.stage.isOver = true ∧ actor.record.terminated = true := by
    intro other actor there
    exact over_of_gone coherent placed there (gone _ (mem_outlooks_iff.mpr ⟨other, actor, there, rfl⟩))
  have nobody : machine.live = [] := by
    rw [live, List.map_eq_nil_iff, List.filter_eq_nil_iff]
    rintro ⟨other, actor⟩ member
    simp [(stopped other actor (Roster.mem_entries_iff.mp member)).2]
  have same : machine.decided id .deadlock = machine.terminate.pass (.returning id) := by
    rw [decided_deadlock, nobody]
    rfl
  rw [same]
  have woken : ∀ other, (machine.terminate.pass (.returning id)).actors.get? other =
      (machine.actors.get? other).map fun actor => { actor with record := actor.record.wake } :=
    fun other => get?_modifyRecords { machine with ended := true } other fun _ => Record.wake
  obtain ⟨holder, present⟩ := coherent.present
  have flawless : (machine.terminate.pass (.returning id)).Flawless :=
    ⟨congrArg Fate.bug clean.fate, congrArg Fate.crashes clean.fate,
      congrArg Fate.sleepSetBlocked clean.fate, congrArg Fate.hitStepLimit clean.fate,
      congrArg Fate.deadlocked clean.fate⟩
  refine ⟨⟨rfl, flawless, ?_, .inr ⟨id, _, rfl, (woken id).trans (by rw [present, Option.map_some])⟩⟩,
    Roster.size_map _ _⟩
  intro other changed here
  obtain ⟨actor, known, rfl⟩ := exists_get?_of_change woken here
  exact stopped other actor known

end Machine

end Interleave
