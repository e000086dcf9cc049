import Interleave.Execution
import Interleave.Proofs.Machine.Consistency
import Interleave.Proofs.Machine.Stages
import Interleave.Proofs.Machine.Unwinding

namespace Interleave

variable {σ μ : Type}

/-- Whether an execution is over, and why. -/
structure Fate where
  ended : Bool
  bug : Option ActorError
  crashes : List (ActorId × Fault)
  sleepSetBlocked : Bool
  hitStepLimit : Bool
  deadlocked : List ActorId

namespace Fate

def going (bug : Option ActorError) : Fate := ⟨false, bug, [], false, false, []⟩

/-- What the end of a body means for the execution. -/
def close (fate : Fate) (id : ActorId) : Except ActorError Unit → Fate
  | .ok () | .error .cancelled => fate
  | .error .terminated =>
      if id = .root ∧ !fate.sleepSetBlocked ∧ !fate.hitStepLimit then
        { fate with bug := fate.bug.or (some .deadlock) }
      else fate
  | .error error =>
      if id = .root ∨ error.isPanic then
        { fate with ended := true, bug := fate.bug.or (some error) }
      else fate

/-- What a decision other than to run an actor means for the execution. -/
def stop (fate : Fate) (live : List ActorId) : Decision → Fate
  | .run _ => fate
  | .deadlock =>
      { fate with ended := true, deadlocked := if live.isEmpty then fate.deadlocked else live }
  | .sleepSetBlocked => { fate with ended := true, sleepSetBlocked := true }
  | .hitStepLimit => { fate with ended := true, hitStepLimit := true }

def outcome (fate : Fate) : Outcome :=
  match fate.bug with
  | some error => .bug error
  | none =>
      if fate.sleepSetBlocked then .sleepSetBlocked
      else if fate.hitStepLimit then .hitStepLimit
      else .completed

theorem bug_stop (fate : Fate) (live : List ActorId) (decision : Decision) :
    (fate.stop live decision).bug = fate.bug := by
  cases decision <;> rfl

theorem crashes_stop (fate : Fate) (live : List ActorId) (decision : Decision) :
    (fate.stop live decision).crashes = fate.crashes := by
  cases decision <;> rfl

theorem exists_close_eq_going
    (bug : Option ActorError) (id : ActorId) (result : Except ActorError Unit)
    (still : ((going bug).close id result).ended = false) :
    ∃ later, (going bug).close id result = going later := by
  unfold close at still ⊢
  split
  · exact ⟨bug, rfl⟩
  · exact ⟨bug, rfl⟩
  · split
    · exact ⟨_, rfl⟩
    · exact ⟨bug, rfl⟩
  · rename_i error _ _
    by_cases counts : id = .root ∨ error.isPanic = true
    · simp [counts] at still
    · exact ⟨bug, if_neg counts⟩

end Fate

namespace Machine

variable {program : Program σ μ} {machine after : Machine σ μ} {id : ActorId} {actor : Actor σ μ}
  {call : Call σ μ} {pending : Pending σ μ} {operation : Operation} {answer : Reply μ}

def fate (machine : Machine σ μ) : Fate where
  ended := machine.ended
  bug := machine.bug
  crashes := machine.crashes
  sleepSetBlocked := machine.sleepSetBlocked
  hitStepLimit := machine.hitStepLimit
  deadlocked := machine.deadlocked

section Fate

theorem outcome_eq (machine : Machine σ μ) : machine.outcome = machine.fate.outcome := rfl

@[simp] theorem fate_advance (machine : Machine σ μ) (next : ActorId) (chosen : Record) :
    (machine.advance next chosen).fate = machine.fate := by
  unfold advance
  split <;> rfl

@[simp] theorem fate_switch (machine : Machine σ μ) (id next : ActorId) :
    (machine.switch id next).fate = machine.fate := by
  unfold switch retire
  split
  · rfl
  · split <;> rfl

@[simp] theorem fate_setStage (machine : Machine σ μ) (id : ActorId) (stage : Stage σ μ) :
    (machine.setStage id stage).fate = machine.fate := rfl

@[simp] theorem fate_pass (machine : Machine σ μ) (control : Control σ μ) :
    (machine.pass control).fate = machine.fate := rfl

theorem fate_releaseBlocked (machine : Machine σ μ) :
    machine.releaseBlocked.fate = machine.fate := by
  simp only [releaseBlocked]
  split
  · rfl
  · split <;> rfl

@[simp] theorem fate_reach
    (machine : Machine σ μ) (id : ActorId) (operation : Operation) (stage : Stage σ μ) :
    (machine.reach id operation stage).fate = machine.fate := by
  unfold reach
  split
  · rfl
  · exact fate_releaseBlocked ((machine.setStage id stage).modifyRecord id
      (Record.announce operation))

theorem fate_enableAll (machine : Machine σ μ) (waiters : List ActorId) :
    (machine.enableAll waiters).fate = machine.fate := by
  obtain ⟨actors, same⟩ := exists_enableAll_eq machine waiters
  rw [same]
  rfl

@[simp] theorem fate_finish (there : machine.actors.get? id = some actor) :
    (machine.finish id).fate = machine.fate := by
  rw [finish_eq there]
  exact fate_enableAll _ _

theorem fate_reportBug (machine : Machine σ μ) (error : ActorError) (log : Log) :
    ((machine.reportBug error).run log).1.fate =
      { machine.fate with bug := machine.bug.or (some error) } := by
  unfold reportBug
  cases known : machine.bug with
  | none => rfl
  | some first =>
      change machine.fate = _
      rw [Option.some_or, ← known]
      rfl

theorem fate_settle
    (machine : Machine σ μ) (id : ActorId) (result : Except ActorError Unit) (log : Log) :
    ((settle id result machine).run log).1.fate = machine.fate.close id result := by
  cases result with
  | ok => rfl
  | error error =>
      unfold settle
      split
      · rename_i impossible
        cases impossible
      · rename_i same
        cases same
        by_cases counts : id = .root ∧ !machine.sleepSetBlocked ∧ !machine.hitStepLimit
        · rw [if_pos counts, fate_reportBug]
          exact (if_pos counts).symm
        · rw [if_neg counts]
          exact (if_neg counts).symm
      · rename_i same
        cases same
        rfl
      · rename_i found loud calm same
        cases same
        have closes : machine.fate.close id (.error error) =
            if id = .root ∨ error.isPanic then
              { machine.fate with ended := true, bug := machine.bug.or (some error) }
            else machine.fate := by
          cases error with
          | terminated => exact absurd rfl loud
          | cancelled => exact absurd rfl calm
          | _ => rfl
        rw [closes]
        split
        · have told := fate_reportBug (machine.modifyRecord id (Record.addFault error)) error log
          change (((machine.modifyRecord id _).reportBug error).run log).1.terminate.fate = _
          exact congrArg (fun fate : Fate => { fate with ended := true }) told
        · rfl

theorem fate_of_closing
    {result : Except ActorError Unit} (program : Program σ μ)
    (control : machine.control = .closing id result) :
    (machine.next program).fate = machine.fate.close id result := by
  have settled := fate_settle machine id result (.empty .trace)
  unfold next tick
  rw [control]
  change (((settle id result machine).run _).1.reach id (.stop id) (.ending false)).fate = _
  rw [fate_reach, settled]

theorem Prepares.fate (prepares : Prepares machine id call pending operation after) :
    after.fate = machine.fate := by
  cases prepares <;> rfl

theorem Replies.fate (replies : Replies machine id call answer after) :
    after.fate = machine.fate := by
  cases replies <;> rfl

theorem Completes.fate (completes : Completes machine pending answer after) :
    after.fate = machine.fate := by
  cases completes <;> rfl

/-- No transition but the end of a body tells anything about an execution that goes on after it. -/
theorem Moves.fate
    (moves : Moves program machine after) (still : after.ended = false)
    (unclosed : ∀ id result, machine.control ≠ .closing id result) : after.fate = machine.fate := by
  cases moves with
  | ends ended =>
      rw [still] at ended
      cases ended
  | call control acts performs =>
      cases performs with
      | announce prepares => rw [fate_reach, prepares.fate, fate_setStage]
      | reply replies =>
          rw [fate_pass, replies.fate, fate_setStage]
  | close control result => rfl
  | complete control there completes => rw [fate_pass, completes.fate]
  | finish control there => rw [fate_reach, fate_finish there]
  | settle control => exact absurd control (unclosed _ _)

theorem fate_decided
    {decision : Decision} (machine : Machine σ μ) (id : ActorId)
    (stops : ∀ next, decision ≠ .run next) :
    (machine.decided id decision).fate = machine.fate.stop machine.live decision := by
  cases decision with
  | run next => exact absurd rfl (stops next)
  | deadlock =>
      rw [decided_deadlock]
      rfl
  | sleepSetBlocked =>
      rw [decided_sleepSetBlocked]
      rfl
  | hitStepLimit =>
      rw [decided_hitStepLimit]
      rfl

end Fate

/-- The execution goes on, and nothing is known about it but, it may be, a bug. -/
def Afoot (machine : Machine σ μ) : Prop := machine.fate = .going machine.bug

namespace Afoot

variable (afoot : machine.Afoot)

include afoot

theorem congr (fate : after.fate = machine.fate) : after.Afoot := by
  have bug : after.bug = machine.bug := congrArg Fate.bug fate
  unfold Afoot
  rw [fate, bug]
  exact afoot

theorem going : machine.ended = false := congrArg Fate.ended afoot

theorem uncrashed : machine.crashes = [] := congrArg Fate.crashes afoot

theorem close
    {result : Except ActorError Unit} (fate : after.fate = machine.fate.close id result)
    (still : after.ended = false) : after.Afoot := by
  have closed : after.fate = (Fate.going machine.bug).close id result := fate.trans (by rw [afoot])
  have ended : after.fate.ended = false := still
  rw [closed] at ended
  obtain ⟨later, same⟩ := Fate.exists_close_eq_going machine.bug id result ended
  have going : after.fate = .going later := closed.trans same
  have bug : after.bug = later := congrArg Fate.bug going
  rw [← bug] at going
  exact going

theorem next
    (moves : Moves program machine (machine.next program))
    (still : (machine.next program).ended = false) : (machine.next program).Afoot := by
  by_cases closes : ∃ id result, machine.control = .closing id result
  · obtain ⟨id, result, control⟩ := closes
    exact afoot.close (fate_of_closing program control) still
  · exact afoot.congr (moves.fate still fun id result control => closes ⟨id, result, control⟩)

end Afoot

end Machine

end Interleave
