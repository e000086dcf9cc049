import Interleave.Proofs.Machine.Departures

namespace Interleave

namespace Machine

variable {σ μ : Type} {program : Program σ μ} {machine : Machine σ μ} {id other : ActorId}

structure Uncut (machine : Machine σ μ) : Prop where
  sleepSetBlocked : machine.sleepSetBlocked = false
  hitStepLimit : machine.hitStepLimit = false

/-- The root is in a deadlock, or will be found in one. -/
inductive Doomed (machine : Machine σ μ) : Prop
  | blamed (found : machine.bug = some .deadlock) : Doomed machine
  | closing {result : Except ActorError Unit} (control : machine.control = .closing .root result)
      (fresh : machine.bug = none) : Doomed machine
  | waiting {record : Record} {pending : Pending σ μ} {body : σ}
      (there : machine.actors.get? .root = some ⟨record, .waiting pending body⟩)
      (fresh : machine.bug = none) (unfinished : machine.control ≠ .finished) : Doomed machine

structure Spared (machine : Machine σ μ) : Prop where
  fresh : machine.bug = none
  closed : ∃ actor, machine.actors.get? .root = some actor ∧ actor.stage.inBody = false
  elsewhere : machine.control.body? ≠ some .root

theorem get?_unwound (elsewhere : machine.control.actor? ≠ some other) :
    machine.unwound.actors.get? other = machine.actors.get? other := by
  have staged (id : ActorId) (stage : Stage σ μ) (differs : other ≠ id) :
      (machine.setStage id stage).actors.get? other = machine.actors.get? other := by
    rw [get?_setStage]
    simp only [if_neg differs, Option.map_id']
  generalize placed : machine.control = control at elsewhere
  cases control with
  | resuming id body reply =>
      rw [unwound_of_resuming placed]
      exact staged id _ fun same => elsewhere (by rw [same]; rfl)
  | closing id result =>
      rw [unwound_of_closing placed]
      exact staged id _ fun same => elsewhere (by rw [same]; rfl)
  | returning id =>
      have differs : other ≠ id := fun same => elsewhere (by rw [same]; rfl)
      rw [unwound_of_returning placed]
      rcases waiting_or_leaves machine id with ⟨record, pending, body, there⟩ | left
      · obtain ⟨control, same, -⟩ := dismissed_of_waiting there
        rw [same]
        rfl
      · rw [left, get?_leave]
        simp only [if_neg differs, Option.map_id']
  | choosing | finished =>
      unfold unwound
      rw [placed]

/-- An execution is over only when all its actors have left. -/
theorem ended_of_unwound_finished
    (ended : machine.ended = true) (unfinished : machine.control ≠ .finished)
    (finished : machine.unwound.control = .finished) (actor : Actor σ μ)
    (there : machine.unwound.actors.get? id = some actor) : actor.stage.isEnded = true := by
  generalize placed : machine.control = control
  cases control with
  | resuming =>
      rw [unwound_of_resuming placed] at finished
      cases finished
  | closing =>
      rw [unwound_of_closing placed] at finished
      cases finished
  | returning next =>
      rw [unwound_of_returning placed] at finished there
      rcases waiting_or_leaves machine next with ⟨record, pending, body, waits⟩ | left
      · obtain ⟨control, same, goes, -⟩ := dismissed_of_waiting waits
        rw [same] at finished
        cases finished
        cases goes
      · rw [left] at finished there
        rw [leave_eq machine ended next] at finished
        rcases heir_cases (machine.leave next).actors with ⟨_, _, control, -⟩ | ⟨-, all⟩
        · rw [control] at finished
          cases finished
        · exact all id actor there
  | choosing =>
      unfold unwound at finished
      rw [placed] at finished
      cases finished.symm.trans placed
  | finished => exact absurd placed unfinished

theorem blamed_of_other (elsewhere : ∀ result, machine.control ≠ .closing .root result) :
    machine.blamed = machine.bug := by
  unfold blamed
  split
  · rename_i id result control
    rw [if_neg fun both => elsewhere result (by rw [control, both.1])]
  · rfl

theorem blamed_of_root
    {result : Except ActorError Unit} (uncut : machine.Uncut) (fresh : machine.bug = none)
    (control : machine.control = .closing .root result) : machine.blamed = some .deadlock := by
  unfold blamed
  rw [control]
  simp only [uncut.sleepSetBlocked, uncut.hitStepLimit, fresh]
  rfl

theorem Uncut.next (uncut : machine.Uncut) (departing : machine.Departing)
    (unwinds : program.Unwinds) : (machine.next program).Uncut := by
  obtain ⟨actors, control, same, -⟩ := exists_unwound_eq machine
  rw [departing.next_eq unwinds, same]
  exact ⟨uncut.sleepSetBlocked, uncut.hitStepLimit⟩

theorem Doomed.next
    (doomed : machine.Doomed) (uncut : machine.Uncut) (departing : machine.Departing)
    (unwinds : program.Unwinds) : (machine.next program).Doomed := by
  rw [departing.next_eq unwinds]
  cases doomed with
  | blamed found =>
      apply Doomed.blamed
      change machine.blamed = _
      unfold Machine.blamed
      rw [found]
      split
      · split <;> rfl
      · rfl
  | closing control fresh => exact .blamed (blamed_of_root uncut fresh control)
  | @waiting record pending body there fresh unfinished =>
      by_cases closes : ∃ result, machine.control = .closing .root result
      · obtain ⟨result, control⟩ := closes
        exact .blamed (blamed_of_root uncut fresh control)
      · have kept : machine.blamed = none :=
          (blamed_of_other fun result control => closes ⟨result, control⟩).trans fresh
        have stays (there : machine.unwound.actors.get? .root =
            some ⟨record, .waiting pending body⟩) :
            Doomed { machine.unwound with bug := machine.blamed } := by
          refine .waiting there kept fun finished => ?_
          cases ended_of_unwound_finished departing.ended unfinished finished _ there
        generalize placed : machine.control = control at closes
        have elsewhere (differs : control.actor? ≠ some .root) :
            Doomed { machine.unwound with bug := machine.blamed } :=
          stays ((get?_unwound (by rw [placed]; exact differs)).trans there)
        cases control with
        | resuming id body reply =>
            by_cases here : id = .root
            · have closes : machine.unwound.control = .closing .root (.error .terminated) := by
                rw [unwound_of_resuming placed, here]
                rfl
              exact .closing closes kept
            · exact elsewhere fun same => here (Option.some.inj same)
        | returning id =>
            by_cases here : id = .root
            · subst here
              obtain ⟨control, same, -⟩ := dismissed_of_waiting there
              apply stays
              rw [unwound_of_returning placed, same]
              exact there
            · exact elsewhere fun same => here (Option.some.inj same)
        | closing id result =>
            exact elsewhere fun same => closes ⟨result, by rw [Option.some.inj same]⟩
        | choosing id => exact absurd placed (departing.sane.decided departing.ended id)
        | finished => exact absurd placed unfinished

theorem Spared.next
    (spared : machine.Spared) (departing : machine.Departing) (unwinds : program.Unwinds) :
    (machine.next program).Spared := by
  rw [departing.next_eq unwinds]
  obtain ⟨actor, there, closed⟩ := spared.closed
  refine ⟨?_, ?_, fun busy => ?_⟩
  · refine (blamed_of_other fun result control => spared.elsewhere ?_).trans spared.fresh
    rw [control]
    rfl
  · by_cases here : machine.control = .returning .root
    · have left : machine.dismissed .root = machine.leave .root := by
        apply dismissed_of_left
        intro record pending body waits
        cases there.symm.trans waits
        cases closed
      refine ⟨⟨{ actor.record with waiters := [] }, .ended⟩, ?_, rfl⟩
      change machine.unwound.actors.get? .root = _
      rw [unwound_of_returning here, left, get?_leave, there, Option.map_some, if_pos rfl]
    · refine ⟨actor, (get?_unwound fun same => ?_).trans there, closed⟩
      generalize placed : machine.control = control at same here
      cases control with
      | resuming | closing =>
          cases same
          exact absurd (by rw [placed]; rfl) spared.elsewhere
      | returning id =>
          cases same
          exact here rfl
      | choosing id => exact absurd placed (departing.sane.decided departing.ended id)
      | finished => cases same
  · rcases body?_unwound departing.sane departing.ended busy with
      ⟨goes, -⟩ | ⟨-, record, pending, body, waits, -⟩
    · exact spared.elsewhere goes
    · cases there.symm.trans waits
      cases closed

section Verdict

variable (departing : machine.Departing) (unwinds : program.Unwinds) {count : Nat}

include departing unwinds

theorem Departing.iterate (count : Nat) : ((Machine.next program)^[count] machine).Departing := by
  induction count with
  | zero => exact departing
  | succ count induction =>
      rw [Function.iterate_succ_apply']
      exact induction.next unwinds

variable (finished : ((Machine.next program)^[count] machine).control = .finished)

include finished

theorem Doomed.verdict (doomed : machine.Doomed) (uncut : machine.Uncut) :
    ((Machine.next program)^[count] machine).bug = some .deadlock := by
  have both : ((Machine.next program)^[count] machine).Doomed ∧
      ((Machine.next program)^[count] machine).Uncut := by
    clear finished
    induction count with
    | zero => exact ⟨doomed, uncut⟩
    | succ count induction =>
        rw [Function.iterate_succ_apply']
        have now := departing.iterate unwinds count
        exact ⟨induction.1.next induction.2 now unwinds, induction.2.next now unwinds⟩
  cases both.1 with
  | blamed found => exact found
  | closing control => cases control.symm.trans finished
  | waiting _ _ unfinished => exact absurd finished unfinished

omit finished in
theorem Spared.verdict (spared : machine.Spared) (count : Nat) :
    ((Machine.next program)^[count] machine).bug = none := by
  have still : ((Machine.next program)^[count] machine).Spared := by
    induction count with
    | zero => exact spared
    | succ count induction =>
        rw [Function.iterate_succ_apply']
        exact induction.next (departing.iterate unwinds count) unwinds
  exact still.fresh

end Verdict

end Machine

end Interleave
