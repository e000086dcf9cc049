import Mathlib.Logic.Function.Iterate
import Interleave.Proofs.Machine.Plays

namespace Interleave

namespace Machine

variable {σ μ : Type} {program : Program σ μ} {machine last : Machine σ μ} {id : ActorId}

theorem decided_of_returns
    {decision : Decision} {after : Machine σ μ}
    (returned : ∃ written, (follow id decision).Returns (machine, .empty .trace) ()
      (after, written)) :
    machine.decided id decision = after := by
  obtain ⟨written, returned⟩ := returned
  unfold decided decide
  rw [run_workFor, show (follow id decision).outcome _ = _ from returned]

theorem conclude_returns
    (id : ActorId) (change : Machine σ μ → Machine σ μ) (event : Event) (log : Log) :
    (conclude id change event).Returns (machine, log) ()
      ((change machine).terminate.pass (.returning id), log.add event) := by
  simp only [conclude, Attempt.returns_bind_iff, Attempt.returns_log_iff,
    Attempt.returns_modify_iff]
  exact ⟨(), _, rfl, rfl⟩

def recast (machine : Machine σ μ) (blocked limited : Bool) (deadlocked : List ActorId) :
    Machine σ μ :=
  { machine with
    sleepSetBlocked := blocked
    hitStepLimit := limited
    deadlocked := deadlocked }

theorem decided_sleepSetBlocked (machine : Machine σ μ) (id : ActorId) :
    machine.decided id .sleepSetBlocked =
      { machine with sleepSetBlocked := true }.terminate.pass (.returning id) := by
  apply decided_of_returns
  simp only [follow, Attempt.returns_bind_iff, Attempt.returns_get_iff, Attempt.returns_log_iff]
  exact ⟨_, _, _, ⟨rfl, rfl⟩, (), _, rfl, conclude_returns id _ _ _⟩

theorem decided_hitStepLimit (machine : Machine σ μ) (id : ActorId) :
    machine.decided id .hitStepLimit =
      { machine with hitStepLimit := true }.terminate.pass (.returning id) := by
  apply decided_of_returns
  simp only [follow, Attempt.returns_bind_iff, Attempt.returns_get_iff, Attempt.returns_log_iff]
  exact ⟨_, _, _, ⟨rfl, rfl⟩, (), _, rfl, conclude_returns id _ _ _⟩

theorem decided_deadlock (machine : Machine σ μ) (id : ActorId) :
    machine.decided id .deadlock =
      { machine with
        deadlocked := if machine.live.isEmpty then machine.deadlocked else machine.live
      }.terminate.pass (.returning id) := by
  by_cases alone : machine.live.isEmpty = true
  · rw [if_pos alone]
    apply decided_of_returns
    simp only [follow, Attempt.returns_bind_iff, Attempt.returns_get_iff, Attempt.returns_log_iff]
    apply Exists.intro
    refine ⟨_, _, ⟨rfl, rfl⟩, (), _, rfl, ?_⟩
    rw [if_pos alone]
    exact conclude_returns id _ _ _
  · rw [if_neg alone]
    apply decided_of_returns
    simp only [follow, Attempt.returns_bind_iff, Attempt.returns_get_iff, Attempt.returns_log_iff]
    apply Exists.intro
    refine ⟨_, _, ⟨rfl, rfl⟩, (), _, rfl, ?_⟩
    rw [if_neg alone]
    exact conclude_returns id (fun machine => { machine with deadlocked := machine.live }) _ _

theorem exists_decided_deadlock (machine : Machine σ μ) (id : ActorId) :
    ∃ deadlocked, machine.decided id .deadlock =
      { machine with deadlocked := deadlocked }.terminate.pass (.returning id) :=
  ⟨_, decided_deadlock machine id⟩

/-- A decision other than to run an actor ends the execution, and notes why. -/
theorem exists_decided_eq
    {decision : Decision} (machine : Machine σ μ) (id : ActorId)
    (stops : ∀ next, decision ≠ .run next) :
    ∃ blocked limited deadlocked, machine.decided id decision =
        (machine.terminate.pass (.returning id)).recast blocked limited deadlocked ∧
      (decision = .sleepSetBlocked → blocked = true) ∧
      (decision = .hitStepLimit → limited = true) := by
  cases decision with
  | run next => exact absurd rfl (stops next)
  | deadlock =>
      obtain ⟨deadlocked, same⟩ := exists_decided_deadlock machine id
      exact ⟨_, _, deadlocked, same, nofun, nofun⟩
  | sleepSetBlocked =>
      exact ⟨true, _, _, decided_sleepSetBlocked machine id, fun _ => rfl, nofun⟩
  | hitStepLimit =>
      exact ⟨_, true, _, decided_hitStepLimit machine id, nofun, fun _ => rfl⟩

/-- Control of an execution that unwinds: a call fails, or a body ends for that reason. -/
inductive Unwinding : Control σ μ → Prop
  | resuming (id : ActorId) (body : σ) : Unwinding (.resuming id body (.error .terminated))
  | returning (id : ActorId) : Unwinding (.returning id)
  | closing (id : ActorId) : Unwinding (.closing id (.error .terminated))
  | finished : Unwinding .finished

def heir (actors : Roster (Actor σ μ)) : Control σ μ :=
  match actors.entries.find? fun (_, actor) => !actor.stage.isEnded with
  | some (id, _) => .returning id
  | none => .finished

theorem handOn_eq (machine : Machine σ μ) :
    machine.handOn = machine.pass (if machine.ended then heir machine.actors else .finished) := by
  unfold handOn heir
  split
  · cases machine.actors.entries.find? fun (_, actor) => !actor.stage.isEnded with
    | none | some => rfl
  · rfl

theorem heir_cases (actors : Roster (Actor σ μ)) :
    (∃ id actor, heir actors = .returning id ∧ actors.get? id = some actor ∧
      actor.stage.isEnded = false) ∨
      heir actors = .finished ∧ ∀ id actor, actors.get? id = some actor →
        actor.stage.isEnded = true := by
  unfold heir
  split
  · rename_i next actor found
    have living := List.find?_some found
    exact .inl ⟨next, actor, rfl, Roster.mem_entries_iff.mp (List.mem_of_find?_eq_some found),
      by simpa using living⟩
  · rename_i none
    refine .inr ⟨rfl, fun id actor there => ?_⟩
    simpa using List.find?_eq_none.mp none _ (Roster.mem_entries_iff.mpr there)

theorem unwinding_heir (actors : Roster (Actor σ μ)) : Unwinding (heir actors) := by
  unfold heir
  split
  · exact .returning _
  · exact .finished

/-- What becomes of an actor that has control once the execution has ended: its body does not start,
its call fails, or it is gone. -/
def dismissed (machine : Machine σ μ) (id : ActorId) : Machine σ μ :=
  match (machine.actors.get? id).map Actor.stage with
  | some (.waiting (.start _) _) => machine.pass (.closing id (.error .terminated))
  | some (.waiting _ body) => machine.pass (.resuming id body (.error .terminated))
  | _ => machine.leave id

theorem proceed_returns
    (ended : machine.ended = true) (present : id.index < machine.actors.size) (log : Log) :
    (proceed id).Returns (machine, log) () (machine.dismissed id, log) := by
  have there : machine.actors.get? id = some machine.actors.values[id.index] :=
    Array.getElem?_eq_getElem present
  have found : machine.actors.get id = .ok machine.actors.values[id.index] :=
    Checked.get_eq_ok_iff.mpr there
  simp only [proceed, Attempt.returns_bind_iff, Attempt.returns_get_iff, Attempt.returns_lift_iff]
  refine ⟨_, _, ⟨rfl, rfl⟩, _, _, ⟨found, rfl⟩, ?_⟩
  unfold dismissed
  rw [there, Option.map_some]
  cases (machine.actors.values[id.index]).stage with
  | running | ended => exact Attempt.returns_set_iff.mpr rfl
  | waiting pending body =>
      rw [ended]
      cases pending with
      | start answer => exact Attempt.returns_set_iff.mpr rfl
      | _ => exact Attempt.returns_modify_iff.mpr rfl
  | ending terminated =>
      rw [ended]
      cases terminated with
      | false | true => exact Attempt.returns_set_iff.mpr rfl

theorem next_of_ended
    (program : Program σ μ) (control : machine.control = .returning id)
    (ended : machine.ended = true) (present : id.index < machine.actors.size) :
    machine.next program = machine.dismissed id := by
  unfold next tick
  rw [control]
  simp only [run_workFor,
    show (proceed id).outcome _ = _ from proceed_returns ended present (.empty .trace)]

theorem exists_leave_eq (machine : Machine σ μ) (id : ActorId) :
    ∃ actors control, machine.leave id = { machine with actors := actors, control := control } ∧
      (machine.ended = true → Unwinding control) := by
  refine ⟨_, _, handOn_eq _, ?_⟩
  intro ended
  exact (if_pos ended).symm ▸ unwinding_heir _

theorem exists_dismissed_eq (machine : Machine σ μ) (id : ActorId) :
    ∃ actors control, machine.dismissed id = { machine with actors := actors, control := control } ∧
      (machine.ended = true → Unwinding control) := by
  unfold dismissed
  split
  · exact ⟨_, _, rfl, fun _ => .closing id⟩
  · exact ⟨_, _, rfl, fun _ => .resuming id _⟩
  · exact exists_leave_eq machine id

theorem unwinding_dismissed (ended : machine.ended = true) (id : ActorId) :
    Unwinding (machine.dismissed id).control := by
  obtain ⟨actors, control, same, unwinding⟩ := exists_dismissed_eq machine id
  rw [same]
  exact unwinding ended

def unwound (machine : Machine σ μ) : Machine σ μ :=
  match machine.control with
  | .resuming id _ _ => (machine.setStage id .running).pass (.closing id (.error .terminated))
  | .returning id => machine.dismissed id
  | .closing id _ => (machine.setStage id (.ending false)).pass (.returning id)
  | .choosing _ | .finished => machine

structure Concluded (machine : Machine σ μ) : Prop where
  ended : machine.ended = true
  settled : machine.bug.isSome = true ∨ machine.sleepSetBlocked = true ∨ machine.hitStepLimit = true
  unwinding : Unwinding machine.control

theorem concluded_recast
    (machine : Machine σ μ) (id : ActorId) (blocked limited : Bool) (deadlocked : List ActorId)
    (settled : machine.bug.isSome = true ∨ blocked = true ∨ limited = true) :
    ((machine.terminate.pass (.returning id)).recast blocked limited deadlocked).Concluded :=
  ⟨rfl, settled, .returning id⟩

theorem exists_unwound_eq (machine : Machine σ μ) :
    ∃ actors control, machine.unwound = { machine with actors := actors, control := control } ∧
      (machine.ended = true → Unwinding machine.control → Unwinding control) := by
  unfold unwound
  split
  · exact ⟨_, _, rfl, fun _ _ => .closing _⟩
  · obtain ⟨actors, control, same, unwinding⟩ := exists_dismissed_eq machine _
    exact ⟨actors, control, same, fun ended _ => unwinding ended⟩
  · exact ⟨_, _, rfl, fun _ _ => .returning _⟩
  · exact ⟨_, _, rfl, fun _ unwinding => unwinding⟩
  · exact ⟨_, _, rfl, fun _ unwinding => unwinding⟩

theorem bug_iterate_unwound (machine : Machine σ μ) (count : Nat) :
    (unwound^[count] machine).bug = machine.bug := by
  induction count with
  | zero => rfl
  | succ count induction =>
      obtain ⟨actors, control, same, -⟩ := exists_unwound_eq (unwound^[count] machine)
      rw [Function.iterate_succ_apply', same]
      exact induction

theorem Concluded.unwound (concluded : machine.Concluded) : machine.unwound.Concluded := by
  obtain ⟨actors, control, same, unwinding⟩ := exists_unwound_eq machine
  rw [same]
  exact ⟨concluded.ended, concluded.settled, unwinding concluded.ended concluded.unwinding⟩

/-- The bug that is known after the next transition of an execution that unwinds. -/
def blamed (machine : Machine σ μ) : Option ActorError :=
  match machine.control with
  | .closing id _ =>
      if id = .root ∧ !machine.sleepSetBlocked ∧ !machine.hitStepLimit then
        machine.bug.or (some .deadlock)
      else machine.bug
  | _ => machine.bug

/-- The next machine of an execution that unwinds: the only bug that may still be found is a deadlock
of the root. -/
theorem next_of_unwinding
    (unwinds : program.Unwinds) (sane : machine.Sane) (ended : machine.ended = true)
    (unwinding : Unwinding machine.control) :
    machine.next program = { machine.unwound with bug := machine.blamed } := by
  unfold unwound blamed
  generalize placed : machine.control = control at unwinding
  cases unwinding with
  | resuming id body =>
      have ends := unwinds ((machine.setStage id .running).view id) body
      unfold next tick
      rw [placed]
      simp only [ends]
      rfl
  | returning id =>
      rw [next_of_ended program placed ended (sane.present id (by rw [placed]; rfl))]
      obtain ⟨actors, control, same, -⟩ := exists_dismissed_eq machine id
      simp only [same]
  | closing id =>
      unfold next tick
      rw [placed]
      change ((settle id (.error .terminated) machine).run _).1.reach id (.stop id) (.ending false) = _
      simp only [settle]
      split
      · simp only [reportBug]
        split
        · rename_i error found
          obtain ⟨known, same⟩ := Option.isSome_iff_exists.mp found
          change machine.reach id (.stop id) (.ending false) = _
          simp only [reach, if_pos ended, same, Option.some_or]
          rw [← same]
          rfl
        · rename_i unknown
          have fresh : machine.bug = none := by simpa using unknown
          change reach { machine with bug := some .deadlock } id (.stop id) (.ending false) = _
          simp only [reach, if_pos ended, fresh, Option.none_or]
          rfl
      · change machine.reach id (.stop id) (.ending false) = _
        simp only [reach, if_pos ended]
        rfl
  | finished =>
      unfold next tick
      rw [placed]
      rfl

theorem Concluded.next_eq
    (concluded : machine.Concluded) (unwinds : program.Unwinds) (sane : machine.Sane) :
    machine.next program = machine.unwound := by
  have kept : machine.blamed = machine.bug := by
    unfold blamed
    split
    · split
      · rename_i fresh
        rcases concluded.settled with found | blocked | limited
        · obtain ⟨error, same⟩ := Option.isSome_iff_exists.mp found
          rw [same, Option.some_or]
        · simp [blocked] at fresh
        · simp [limited] at fresh
      · rfl
    · rfl
  obtain ⟨actors, control, same, -⟩ := exists_unwound_eq machine
  rw [next_of_unwinding unwinds sane concluded.ended concluded.unwinding, kept, same]

theorem Concluded.iterate_eq
    (concluded : machine.Concluded) (unwinds : program.Unwinds) (sane : machine.Sane)
    (count : Nat) : (next program)^[count] machine = Machine.unwound^[count] machine := by
  induction count generalizing machine with
  | zero => rfl
  | succ count induction =>
      have same := concluded.next_eq unwinds sane
      have later := (onward_next program sane).sane sane
      rw [Function.iterate_succ_apply, Function.iterate_succ_apply, same]
      rw [same] at later
      exact induction concluded.unwound later

theorem unwound_recast
    (machine : Machine σ μ) (blocked limited : Bool) (deadlocked : List ActorId) :
    (machine.recast blocked limited deadlocked).unwound =
      machine.unwound.recast blocked limited deadlocked := by
  have left : ∀ id, (machine.recast blocked limited deadlocked).leave id =
      (machine.leave id).recast blocked limited deadlocked := by
    intro id
    simp only [leave, handOn_eq]
    rfl
  have dismissed : ∀ id, (machine.recast blocked limited deadlocked).dismissed id =
      (machine.dismissed id).recast blocked limited deadlocked := by
    intro id
    simp only [Machine.dismissed, recast]
    split
    · rfl
    · rfl
    · exact left id
  simp only [unwound, recast]
  split
  · rfl
  · exact dismissed _
  · rfl
  · rfl
  · rfl

theorem iterate_unwound_recast
    (machine : Machine σ μ) (blocked limited : Bool) (deadlocked : List ActorId) (count : Nat) :
    unwound^[count] (machine.recast blocked limited deadlocked) =
      (unwound^[count] machine).recast blocked limited deadlocked := by
  have commutes : Function.Semiconj
      (fun machine : Machine σ μ => machine.recast blocked limited deadlocked) unwound unwound :=
    fun machine => (unwound_recast machine blocked limited deadlocked).symm
  exact (commutes.iterate_right count machine).symm

end Machine

end Interleave
