import Interleave.Machine.Step

namespace Interleave

def Control.actor? {σ μ : Type} : Control σ μ → Option ActorId
  | .resuming actor _ _ | .choosing actor | .returning actor | .closing actor _ => some actor
  | .finished => none

namespace Machine

variable {σ μ : Type} {machine before after : Machine σ μ} {id : ActorId}

/-- Control is with an actor that exists, and after the end nobody waits for a decision. -/
structure Sane (machine : Machine σ μ) : Prop where
  present : ∀ id, machine.control.actor? = some id → id.index < machine.actors.size
  decided : machine.ended = true → ∀ id, machine.control ≠ .choosing id

/-- What stays as it is from one machine to a later one. -/
structure Onward (before after : Machine σ μ) : Prop where
  ended : before.ended = true → after.ended = true
  bug : ∀ error, before.bug = some error → after.bug = some error
  cut : before.sleepSetBlocked = true → after.sleepSetBlocked = true
  crashes : before.crashes ≠ [] → after.crashes ≠ []
  size : before.actors.size ≤ after.actors.size
  sane : before.Sane → after.Sane

theorem Onward.refl (machine : Machine σ μ) : Onward machine machine :=
  ⟨id, fun _ => id, id, id, Nat.le_refl _, id⟩

theorem Onward.trans
    {last : Machine σ μ} (first : Onward before after) (second : Onward after last) :
    Onward before last where
  ended ended := second.ended (first.ended ended)
  bug error found := second.bug error (first.bug error found)
  cut cut := second.cut (first.cut cut)
  crashes crashed := second.crashes (first.crashes crashed)
  size := Nat.le_trans first.size second.size
  sane sane := second.sane (first.sane sane)

theorem Onward.going (onward : Onward before after) (going : after.ended = false) :
    before.ended = false := by
  cases ended : before.ended with
  | false => rfl
  | true =>
      rw [onward.ended ended] at going
      cases going

theorem Onward.of_kept
    (ended : after.ended = before.ended) (bug : after.bug = before.bug)
    (cut : before.sleepSetBlocked = true → after.sleepSetBlocked = true)
    (crashes : after.crashes = before.crashes)
    (size : before.actors.size ≤ after.actors.size) (control : after.control = before.control) :
    Onward before after where
  ended := by
    rw [ended]
    exact id
  bug := by
    intro error found
    rw [bug, found]
  cut := cut
  crashes := by
    rw [crashes]
    exact id
  size := size
  sane := by
    intro sane
    constructor
    · intro actor placed
      rw [control] at placed
      exact Nat.lt_of_lt_of_le (sane.present actor placed) size
    · rw [ended, control]
      exact sane.decided

theorem onward_modifyRecord (machine : Machine σ μ) (id : ActorId) (change : Record → Record) :
    Onward machine (machine.modifyRecord id change) := by
  refine .of_kept rfl rfl (fun cut => cut) rfl ?_ rfl
  simp [modifyRecord]

theorem onward_modifyRecords (machine : Machine σ μ) (change : ActorId → Record → Record) :
    Onward machine (machine.modifyRecords change) := by
  refine .of_kept rfl rfl (fun cut => cut) rfl ?_ rfl
  simp [modifyRecords]

theorem onward_setStage (machine : Machine σ μ) (id : ActorId) (stage : Stage σ μ) :
    Onward machine (machine.setStage id stage) := by
  refine .of_kept rfl rfl (fun cut => cut) rfl ?_ rfl
  simp [setStage]

theorem onward_releaseYielded (machine : Machine σ μ) (progressing : ActorId) :
    Onward machine (machine.releaseYielded progressing) :=
  onward_modifyRecords machine _

theorem onward_releaseBlocked (machine : Machine σ μ) : Onward machine machine.releaseBlocked := by
  simp only [releaseBlocked]
  split
  · exact .refl machine
  · split
    · exact onward_modifyRecords machine _
    · exact onward_modifyRecords machine _

@[simp] theorem ended_releaseBlocked (machine : Machine σ μ) :
    machine.releaseBlocked.ended = machine.ended := by
  simp only [releaseBlocked]
  split
  · rfl
  · split <;> rfl

def Passable (machine : Machine σ μ) (control : Control σ μ) : Prop :=
  (∀ actor, control.actor? = some actor → actor.index < machine.actors.size) ∧
    ∀ actor, control ≠ .choosing actor

theorem passable_finished (machine : Machine σ μ) : machine.Passable .finished := by
  constructor
  · intro actor impossible
    cases impossible
  · intro actor impossible
    cases impossible

section Present

variable (present : id.index < machine.actors.size)

include present

theorem passable_returning : machine.Passable (.returning id) := by
  constructor
  · intro actor same
    cases same
    exact present
  · intro actor impossible
    cases impossible

theorem passable_closing (result : Except ActorError Unit) :
    machine.Passable (.closing id result) := by
  constructor
  · intro actor same
    cases same
    exact present
  · intro actor impossible
    cases impossible

theorem passable_resuming (body : σ) (reply : Reply μ) :
    machine.Passable (.resuming id body reply) := by
  constructor
  · intro actor same
    cases same
    exact present
  · intro actor impossible
    cases impossible

end Present

theorem onward_pass {control : Control σ μ} (passable : machine.Passable control) :
    Onward machine (machine.pass control) where
  ended ended := ended
  bug _ found := found
  cut cut := cut
  crashes crashed := crashed
  size := Nat.le_refl _
  sane _ := ⟨passable.1, fun _ => passable.2⟩

theorem onward_terminate {control : Control σ μ} (passable : machine.Passable control) :
    Onward machine (machine.terminate.pass control) where
  ended _ := rfl
  bug _ found := found
  cut cut := cut
  crashes crashed := crashed
  size := by simp [terminate, modifyRecords, pass]
  sane _ := by
    refine ⟨?_, fun _ => passable.2⟩
    simpa [terminate, modifyRecords, pass] using passable.1

theorem onward_reach
    (present : id.index < machine.actors.size) (operation : Operation) (stage : Stage σ μ) :
    Onward machine (machine.reach id operation stage) := by
  have placed := onward_setStage machine id stage
  simp only [reach]
  split
  · exact placed.trans (onward_pass (passable_returning (Nat.lt_of_lt_of_le present placed.size)))
  · rename_i going
    have announced := (onward_modifyRecord (machine.setStage id stage) id
      (Record.announce operation)).trans (onward_releaseBlocked _)
    have whole := placed.trans announced
    refine ⟨whole.ended, whole.bug, whole.cut, whole.crashes, whole.size, ?_⟩
    intro sane
    constructor
    · intro actor same
      cases same
      exact Nat.lt_of_lt_of_le present whole.size
    · intro ended
      rw [ended_releaseBlocked] at ended
      exact absurd ended going

theorem exists_handOn_eq (machine : Machine σ μ) :
    ∃ control, machine.handOn = machine.pass control ∧ machine.Passable control := by
  unfold handOn
  split
  · split
    · rename_i actor _ first
      obtain ⟨inside, -⟩ := Array.getElem?_eq_some_iff.mp
        (Roster.mem_entries_iff.mp (List.mem_of_find?_eq_some first))
      exact ⟨_, rfl, passable_returning inside⟩
    · exact ⟨_, rfl, passable_finished machine⟩
  · exact ⟨_, rfl, passable_finished machine⟩

theorem onward_handOn (machine : Machine σ μ) : Onward machine machine.handOn := by
  obtain ⟨control, same, passable⟩ := exists_handOn_eq machine
  rw [same]
  exact onward_pass passable

theorem onward_leave (machine : Machine σ μ) (id : ActorId) : Onward machine (machine.leave id) :=
  ((onward_setStage machine id .ended).trans (onward_modifyRecord _ id _)).trans (onward_handOn _)

theorem onward_finish (id : ActorId) (machine : Machine σ μ) : Onward machine (machine.finish id) := by
  have woken : ∀ (waiters : List ActorId) (machine : Machine σ μ), Onward machine
      (waiters.foldl (fun machine waiter => machine.modifyRecord waiter Record.enable)
        machine) := by
    intro waiters
    induction waiters with
    | nil => exact Onward.refl
    | cons waiter rest induction =>
        intro machine
        exact (onward_modifyRecord machine waiter Record.enable).trans (induction _)
  exact (onward_modifyRecord machine id Record.finish).trans (woken _ _)

end Machine

end Interleave
