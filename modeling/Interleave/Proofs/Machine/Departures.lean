import Interleave.Proofs.Machine.Ageing
import Interleave.Proofs.Machine.Stages

namespace Interleave

variable {σ μ : Type}

/-- How many transitions an actor takes that has control after the end, until it is about to leave. -/
def Stage.delay : Stage σ μ → Nat
  | .waiting .. => 3
  | .ended => 4
  | .running | .ending _ => 0

namespace Machine

variable {program : Program σ μ} {machine : Machine σ μ} {id : ActorId}
  {actor : Actor σ μ} {stage : Stage σ μ}

section Stages

def stages (machine : Machine σ μ) : List (Stage σ μ) := machine.actors.toList.map Actor.stage

def remaining (machine : Machine σ μ) : Nat := machine.stages.countP fun stage => !stage.isEnded

theorem getElem?_stages (machine : Machine σ μ) (index : Nat) :
    machine.stages[index]? = (machine.actors.get? ⟨index⟩).map Actor.stage := by
  simp [stages, Roster.toList, Roster.get?]

@[simp] theorem length_stages (machine : Machine σ μ) :
    machine.stages.length = machine.actors.size := by
  simp [stages, Roster.toList, Roster.size]

theorem remaining_le (machine : Machine σ μ) : machine.remaining ≤ machine.actors.size := by
  rw [← length_stages]
  exact List.countP_le_length

theorem remaining_pos
    (there : machine.actors.get? id = some actor) (living : actor.stage.isEnded = false) :
    0 < machine.remaining := by
  have here : machine.stages[id.index]? = some actor.stage := by
    rw [getElem?_stages, ActorId.eta, there, Option.map_some]
  exact List.countP_pos_iff.mpr ⟨actor.stage, List.mem_of_getElem? here, by rw [living]; rfl⟩

theorem stages_setStage (machine : Machine σ μ) (id : ActorId) (stage : Stage σ μ) :
    (machine.setStage id stage).stages = machine.stages.set id.index stage := by
  apply List.ext_getElem?
  intro index
  rw [getElem?_stages, get?_setStage, List.getElem?_set, length_stages, getElem?_stages,
    Option.map_map]
  by_cases same : id.index = index
  · subst same
    rw [if_pos rfl, ActorId.eta]
    cases there : machine.actors.get? id with
    | none =>
        have outside : ¬ id.index < machine.actors.size := by
          intro inside
          obtain ⟨actor, here⟩ := exists_get? inside
          cases there.symm.trans here
        rw [if_neg outside]
        rfl
    | some actor =>
        rw [if_pos (index_lt there)]
        simp
  · have differs : (⟨index⟩ : ActorId) ≠ id := by
      rintro rfl
      exact same rfl
    rw [if_neg same]
    simp only [if_neg differs, Function.comp_def]

theorem stages_leave (machine : Machine σ μ) (id : ActorId) :
    (machine.leave id).stages = machine.stages.set id.index .ended := by
  rw [← stages_setStage]
  apply List.ext_getElem?
  intro index
  rw [getElem?_stages, getElem?_stages, get?_leave, get?_setStage, Option.map_map, Option.map_map]
  congr 1
  funext actor
  simp only [Function.comp_def]
  split <;> rfl

theorem countP_set_stage
    (there : machine.actors.get? id = some actor) (stage : Stage σ μ) :
    (machine.stages.set id.index stage).countP (fun stage => !stage.isEnded) +
        (!actor.stage.isEnded).toNat =
      machine.remaining + (!stage.isEnded).toNat := by
  have here : machine.stages[id.index]? = some actor.stage := by
    rw [getElem?_stages, ActorId.eta, there, Option.map_some]
  obtain ⟨inside, placed⟩ := List.getElem?_eq_some_iff.mp here
  rw [List.countP_set inside, placed]
  cases living : actor.stage.isEnded with
  | false =>
      have before := remaining_pos there living
      unfold remaining at before ⊢
      cases stage.isEnded with
      | false | true => simp; omega
  | true =>
      unfold remaining
      cases stage.isEnded with
      | false | true => simp

theorem remaining_leave (there : machine.actors.get? id = some actor) :
    (machine.leave id).remaining + (!actor.stage.isEnded).toNat = machine.remaining := by
  have counted := countP_set_stage there (.ended : Stage σ μ)
  rw [← stages_leave] at counted
  exact counted

theorem remaining_setStage
    (there : machine.actors.get? id = some actor) (same : stage.isEnded = actor.stage.isEnded) :
    (machine.setStage id stage).remaining = machine.remaining := by
  have counted := countP_set_stage there stage
  rw [← stages_setStage, same] at counted
  exact Nat.add_right_cancel counted

end Stages

/-- The execution has ended, and its actors leave one after the other. -/
structure Departing (machine : Machine σ μ) : Prop where
  sane : machine.Sane
  ended : machine.ended = true
  unwinding : Unwinding machine.control
  staying : ∀ id, machine.control.body? = some id →
    ∃ actor, machine.actors.get? id = some actor ∧ actor.stage.isEnded = false

def delay (machine : Machine σ μ) : Nat :=
  match machine.control with
  | .resuming .. => 2
  | .closing .. => 1
  | .returning id => ((machine.actors.get? id).map fun actor => actor.stage.delay).getD 4
  | .choosing _ | .finished => 0

/-- A bound on the transitions before the execution is over. -/
def toil (machine : Machine σ μ) : Nat := 5 * machine.remaining + machine.delay

theorem delay_heir_le (machine : Machine σ μ) :
    (machine.pass (heir machine.actors)).delay ≤ 3 := by
  rcases heir_cases machine.actors with ⟨id, actor, control, there, living⟩ | ⟨control, -⟩
  · rw [control]
    change ((machine.actors.get? id).map fun actor => actor.stage.delay).getD 4 ≤ 3
    rw [there]
    change actor.stage.delay ≤ 3
    cases stage : actor.stage with
    | waiting => exact Nat.le_refl 3
    | running | ending => exact Nat.zero_le 3
    | ended =>
        rw [stage] at living
        cases living
  · rw [control]
    exact Nat.zero_le 3

section Departing

theorem unwound_of_resuming
    {body : σ} {reply : Reply μ} (control : machine.control = .resuming id body reply) :
    machine.unwound = (machine.setStage id .running).pass (.closing id (.error .terminated)) := by
  unfold unwound
  rw [control]

theorem unwound_of_returning (control : machine.control = .returning id) :
    machine.unwound = machine.dismissed id := by
  unfold unwound
  rw [control]

theorem unwound_of_closing
    {result : Except ActorError Unit} (control : machine.control = .closing id result) :
    machine.unwound = (machine.setStage id (.ending false)).pass (.returning id) := by
  unfold unwound
  rw [control]

theorem leave_eq (machine : Machine σ μ) (ended : machine.ended = true) (id : ActorId) :
    machine.leave id = (machine.leave id).pass (heir (machine.leave id).actors) := by
  unfold leave
  rw [handOn_eq]
  rw [if_pos (show ((machine.setStage id .ended).modifyRecord id _).ended = true from ended)]
  rfl

theorem dismissed_of_waiting
    {record : Record} {pending : Pending σ μ} {body : σ}
    (there : machine.actors.get? id = some ⟨record, .waiting pending body⟩) :
    ∃ control, machine.dismissed id = machine.pass control ∧ control.body? = some id ∧
      (machine.pass control).delay ≤ 2 := by
  unfold dismissed
  rw [there]
  cases pending with
  | start answer => exact ⟨_, rfl, rfl, Nat.le_succ 1⟩
  | _ => exact ⟨_, rfl, rfl, Nat.le_refl 2⟩

theorem dismissed_of_left
    (gone : ∀ record pending body,
      machine.actors.get? id ≠ some ⟨record, .waiting pending body⟩) :
    machine.dismissed id = machine.leave id := by
  unfold dismissed
  cases there : machine.actors.get? id with
  | none => rfl
  | some actor =>
      obtain ⟨record, stage⟩ := actor
      cases stage with
      | running | ending | ended => rfl
      | waiting pending body => exact absurd there (gone record pending body)

/-- An actor that has control goes on with its body, or it leaves. -/
theorem waiting_or_leaves (machine : Machine σ μ) (id : ActorId) :
    (∃ record pending body, machine.actors.get? id = some ⟨record, .waiting pending body⟩) ∨
      machine.dismissed id = machine.leave id := by
  by_cases waits : ∃ record pending body,
      machine.actors.get? id = some ⟨record, .waiting pending body⟩
  · exact .inl waits
  · exact .inr (dismissed_of_left fun record pending body there =>
      waits ⟨record, pending, body, there⟩)

theorem body?_leave (machine : Machine σ μ) (ended : machine.ended = true) (id : ActorId) :
    (machine.leave id).control.body? = none := by
  rw [leave_eq machine ended id]
  rcases heir_cases (machine.leave id).actors with ⟨_, _, control, -⟩ | ⟨control, -⟩
  · rw [control]
    rfl
  · rw [control]
    rfl

theorem body?_unwound
    (sane : machine.Sane) (ended : machine.ended = true)
    (busy : machine.unwound.control.body? = some id) :
    machine.control.body? = some id ∧
        machine.unwound.actors.get? id =
          (machine.actors.get? id).map (fun actor => { actor with stage := .running }) ∨
      machine.control = .returning id ∧ ∃ record pending body,
        machine.actors.get? id = some ⟨record, .waiting pending body⟩ ∧
          machine.unwound.actors = machine.actors := by
  generalize placed : machine.control = control
  cases control with
  | resuming other body reply =>
      rw [unwound_of_resuming placed] at busy ⊢
      cases busy
      refine .inl ⟨rfl, ?_⟩
      change (machine.setStage id .running).actors.get? id = _
      rw [get?_setStage]
      simp only [if_true]
  | closing other result =>
      rw [unwound_of_closing placed] at busy
      cases busy
  | returning other =>
      rw [unwound_of_returning placed] at busy ⊢
      rcases waiting_or_leaves machine other with ⟨record, pending, body, there⟩ | left
      · obtain ⟨control, same, goes, -⟩ := dismissed_of_waiting there
        rw [same] at busy ⊢
        cases goes.symm.trans busy
        exact .inr ⟨rfl, record, pending, body, there, rfl⟩
      · rw [left, body?_leave machine ended other] at busy
        cases busy
  | choosing other => exact absurd placed (sane.decided ended other)
  | finished =>
      unfold unwound at busy
      rw [placed] at busy
      rw [placed] at busy
      cases busy

namespace Departing

variable (departing : machine.Departing)

include departing

theorem next_eq (unwinds : program.Unwinds) :
    machine.next program = { machine.unwound with bug := machine.blamed } :=
  next_of_unwinding unwinds departing.sane departing.ended departing.unwinding

theorem staying_unwound
    (busy : machine.unwound.control.body? = some id) :
    ∃ actor, machine.unwound.actors.get? id = some actor ∧ actor.stage.isEnded = false := by
  rcases body?_unwound departing.sane departing.ended busy with
    ⟨goes, same⟩ | ⟨-, record, pending, body, there, same⟩
  · obtain ⟨actor, there, -⟩ := departing.staying id goes
    exact ⟨⟨actor.record, .running⟩, by rw [same, there, Option.map_some], rfl⟩
  · exact ⟨_, by rw [same, there], rfl⟩

theorem next (unwinds : program.Unwinds) : (machine.next program).Departing := by
  have onward := onward_next program departing.sane
  obtain ⟨actors, control, same, unwinding⟩ := exists_unwound_eq machine
  refine ⟨onward.sane departing.sane, onward.ended departing.ended, ?_, ?_⟩
  · rw [departing.next_eq unwinds, same]
    exact unwinding departing.ended departing.unwinding
  · rw [departing.next_eq unwinds]
    exact fun id => departing.staying_unwound

/-- Each transition leaves less to do. -/
theorem toil_unwound_lt (unfinished : machine.control ≠ .finished) :
    machine.unwound.toil < machine.toil := by
  generalize placed : machine.control = control
  cases control with
  | resuming id body reply =>
      obtain ⟨actor, there, living⟩ := departing.staying id (by rw [placed]; rfl)
      have same : (machine.setStage id .running).remaining = machine.remaining :=
        remaining_setStage there living.symm
      rw [unwound_of_resuming placed]
      change 5 * (machine.setStage id .running).remaining + 1 < 5 * machine.remaining + machine.delay
      rw [same, delay, placed]
      exact Nat.lt_succ_self _
  | closing id result =>
      obtain ⟨actor, there, living⟩ := departing.staying id (by rw [placed]; rfl)
      have same : (machine.setStage id (.ending false)).remaining = machine.remaining :=
        remaining_setStage there living.symm
      have returned : ((machine.setStage id (.ending false)).pass (.returning id)).delay = 0 := by
        change ((_ : Option (Actor σ μ)).map fun actor => actor.stage.delay).getD 4 = 0
        rw [show ((machine.setStage id (.ending false)).pass (.returning id)).actors.get? id = _
          from get?_setStage machine id id _, there, Option.map_some, if_pos rfl]
        rfl
      rw [unwound_of_closing placed]
      change 5 * (machine.setStage id (.ending false)).remaining + delay _ < _
      rw [returned, same, toil, delay, placed]
      exact Nat.lt_succ_self _
  | returning id =>
      have now : machine.delay =
          ((machine.actors.get? id).map fun actor => actor.stage.delay).getD 4 := by
        rw [delay, placed]
      rw [unwound_of_returning placed]
      rcases waiting_or_leaves machine id with ⟨record, pending, body, there⟩ | left
      · obtain ⟨control, same, -, less⟩ := dismissed_of_waiting there
        rw [there] at now
        rw [same, toil, toil, now]
        change 5 * machine.remaining + (machine.pass control).delay < 5 * machine.remaining + 3
        omega
      · have rest := delay_heir_le (machine.leave id)
        rw [← leave_eq machine departing.ended id] at rest
        rw [left, toil, toil, now]
        cases there : machine.actors.get? id with
        | none =>
            have kept : (machine.leave id).remaining = machine.remaining := by
              unfold remaining
              rw [stages_leave, List.set_eq_of_length_le]
              rw [length_stages]
              refine Nat.le_of_not_lt fun inside => ?_
              obtain ⟨actor, here⟩ := exists_get? inside
              cases there.symm.trans here
            rw [kept, Option.map_none, Option.getD_none]
            omega
        | some actor =>
            have counted := remaining_leave there
            rw [Option.map_some, Option.getD_some]
            cases stage : actor.stage with
            | ended =>
                rw [stage] at counted
                change _ + 0 = _ at counted
                change _ < 5 * machine.remaining + 4
                omega
            | running | waiting | ending =>
                rw [stage] at counted
                change _ + 1 = _ at counted
                omega
  | choosing id => exact absurd placed (departing.sane.decided departing.ended id)
  | finished => exact absurd placed unfinished

theorem exists_finished (unwinds : program.Unwinds) :
    ∃ count, ((Machine.next program)^[count] machine).control = .finished := by
  generalize enough : machine.toil = toil
  induction toil using Nat.strongRecOn generalizing machine with
  | ind toil induction =>
      by_cases finished : machine.control = .finished
      · exact ⟨0, finished⟩
      · have less := departing.toil_unwound_lt finished
        have later := departing.next unwinds
        have same : (machine.next program).toil = machine.unwound.toil := by
          rw [departing.next_eq unwinds]
          rfl
        obtain ⟨count, ends⟩ := induction _ (by rw [← enough, same]; exact less) later rfl
        exact ⟨count + 1, ends⟩

end Departing

end Departing

end Machine

end Interleave
