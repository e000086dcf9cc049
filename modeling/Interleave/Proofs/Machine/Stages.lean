import Interleave.Proofs.Machine.Handles

namespace Interleave

variable {σ μ : Type}

def Stage.Creates (stage : Stage σ μ) : Prop :=
  ∃ name child body, stage = .waiting (.create name child) body

def Stage.Fresh (stage : Stage σ μ) : Prop := ∃ answer body, stage = .waiting (.start answer) body

namespace Machine

variable {program : Program σ μ} {machine middle after : Machine σ μ} {id other : ActorId}
  {actor : Actor σ μ} {operation : Operation} {stage : Stage σ μ}

/-- The actors are the same, only one of them may have come to another stage, and whoever has
terminated has done so for good. -/
structure Spares (id : ActorId) (machine after : Machine σ μ) : Prop where
  size : after.actors.size = machine.actors.size
  kept : ∀ other actor, machine.actors.get? other = some actor →
    ∃ changed, after.actors.get? other = some changed ∧
      (other ≠ id → changed.stage = actor.stage) ∧
      (actor.record.terminated = true → changed.record.terminated = true)

theorem index_lt (there : machine.actors.get? id = some actor) : id.index < machine.actors.size :=
  (Array.getElem?_eq_some_iff.mp there).1

theorem exists_get? {index : Nat} (inside : index < machine.actors.size) :
    ∃ actor, machine.actors.get? ⟨index⟩ = some actor :=
  ⟨_, Array.getElem?_eq_getElem inside⟩

theorem Spares.trans (first : Spares id machine middle) (rest : Spares id middle after) :
    Spares id machine after where
  size := rest.size.trans first.size
  kept := by
    intro other actor there
    obtain ⟨between, known, still, gone⟩ := first.kept other actor there
    obtain ⟨changed, now, also, lasting⟩ := rest.kept other between known
    exact ⟨changed, now, fun differs => (also differs).trans (still differs),
      fun terminated => lasting (gone terminated)⟩

theorem Spares.terminated (spares : Spares id machine after) (gone : machine.Over other) :
    after.Over other := by
  obtain ⟨actor, there, terminated⟩ := gone
  obtain ⟨changed, now, -, gone⟩ := spares.kept other actor there
  exact ⟨changed, now, gone terminated⟩

theorem Spares.exists_before
    (spares : Spares id machine after) (there : after.actors.get? other = some actor)
    (differs : other ≠ id) :
    ∃ before, machine.actors.get? other = some before ∧ before.stage = actor.stage := by
  have inside := index_lt there
  rw [spares.size] at inside
  obtain ⟨before, known⟩ := exists_get? inside
  obtain ⟨changed, now, still, -⟩ := spares.kept other before known
  cases there.symm.trans now
  exact ⟨before, known, (still differs).symm⟩

theorem spares_of_change
    {change : ActorId → Actor σ μ → Actor σ μ}
    (actors : ∀ other, after.actors.get? other = (machine.actors.get? other).map (change other))
    (stages : ∀ other actor, other ≠ id → (change other actor).stage = actor.stage)
    (terminated : ∀ other actor, actor.record.terminated = true →
      (change other actor).record.terminated = true) : Spares id machine after where
  size := by
    apply Nat.le_antisymm
    · refine Nat.le_of_not_lt fun more => ?_
      obtain ⟨changed, there⟩ := exists_get? more
      obtain ⟨actor, known, -⟩ := exists_get?_of_change actors there
      exact Nat.lt_irrefl _ (index_lt known)
    · refine Nat.le_of_not_lt fun fewer => ?_
      obtain ⟨actor, known⟩ := exists_get? fewer
      exact Nat.lt_irrefl _ (index_lt (get?_change actors known))
  kept other actor there := ⟨change other actor, get?_change actors there, stages other actor,
    terminated other actor⟩

theorem spares_same (actors : after.actors = machine.actors) : Spares id machine after :=
  spares_of_change (fun other => by rw [actors, Option.map_id']) (fun _ _ _ => rfl)
    fun _ _ terminated => terminated

theorem spares_modifyRecord
    {change : Record → Record} (machine : Machine σ μ) (other : ActorId)
    (terminated : ∀ record, record.terminated = true → (change record).terminated = true) :
    Spares id machine (machine.modifyRecord other change) := by
  apply spares_of_change (get?_modifyRecord machine other · change)
  · intro known actor _
    split <;> rfl
  · intro known actor gone
    split
    · exact terminated _ gone
    · exact gone

theorem spares_setStage (machine : Machine σ μ) (id : ActorId) (stage : Stage σ μ) :
    Spares id machine (machine.setStage id stage) := by
  apply spares_of_change (get?_setStage machine id · stage)
  · intro known actor differs
    rw [if_neg differs]
  · intro known actor gone
    split <;> exact gone

theorem spares_modifyRecords
    {change : ActorId → Record → Record} (machine : Machine σ μ)
    (terminated : ∀ other record, record.terminated = true →
      (change other record).terminated = true) :
    Spares id machine (machine.modifyRecords change) :=
  spares_of_change (get?_modifyRecords machine · change) (fun _ _ _ => rfl)
    fun other actor => terminated other actor.record

theorem spares_releaseBlocked (machine : Machine σ μ) :
    Spares id machine machine.releaseBlocked := by
  simp only [Machine.releaseBlocked]
  split
  · exact spares_same rfl
  · split
    · apply spares_modifyRecords
      intro _ record gone
      unfold Record.releaseYielded
      split <;> exact gone
    · apply spares_modifyRecords
      intro _ record gone
      unfold Record.releaseAwaiting
      split <;> exact gone

theorem spares_reach
    (going : machine.ended = false) (id : ActorId) (operation : Operation) (stage : Stage σ μ) :
    Spares id machine (machine.reach id operation stage) := by
  obtain ⟨enabled, same⟩ := reach_eq going id operation stage
  rw [same]
  have announced : Spares id machine (machine.announce id operation stage) :=
    (spares_setStage machine id stage).trans (spares_modifyRecord _ id fun _ gone => gone)
  exact (announced.trans (spares_releaseBlocked _)).trans (spares_same rfl)

theorem spares_enableAll (machine : Machine σ μ) (waiters : List ActorId) :
    Spares id machine (machine.enableAll waiters) := by
  apply spares_of_change (get?_enableAll machine waiters)
  · intro other actor _
    split <;> rfl
  · intro other actor gone
    split <;> exact gone

theorem spares_finish (there : machine.actors.get? id = some actor) :
    Spares id machine (machine.finish id) ∧ (machine.finish id).Over id := by
  rw [finish_eq there]
  have finished : (machine.modifyRecord id Record.finish).Over id :=
    ⟨_, by rw [get?_modifyRecord, there, Option.map_some], by rw [if_pos rfl]; rfl⟩
  have enabled : Spares id (machine.modifyRecord id Record.finish) _ :=
    spares_enableAll _ actor.record.waiters
  exact ⟨(spares_modifyRecord machine id fun _ _ => rfl).trans enabled, enabled.terminated finished⟩

section Calls

variable {body : σ} {call : Call σ μ} {pending : Pending σ μ} {answer : Reply μ}

theorem Prepares.spares
    (prepares : Prepares machine id call pending operation after) : Spares id machine after := by
  cases prepares with
  | create | send | joinOver => exact spares_same rfl
  | ready | yield | awaitDeadlock => exact spares_modifyRecord machine id fun _ gone => gone
  | park =>
      have parked : Spares id machine (machine.modifyRecord id fun record =>
          { record with enabled := false, sendStep := none }) :=
        spares_modifyRecord machine id fun _ gone => gone
      exact parked.trans (spares_same rfl)
  | @join other target strict there living =>
      have waited : Spares id machine (machine.modifyRecord other fun record =>
          { record with waiters := record.waiters ++ [id] }) :=
        spares_modifyRecord machine other fun _ gone => gone
      exact waited.trans (spares_modifyRecord _ id fun _ gone => gone)

theorem Replies.spares (replies : Replies machine id call answer after) :
    Spares id machine after := by
  cases replies with
  | rename => exact spares_modifyRecord machine id fun _ gone => gone
  | _ => exact spares_same rfl

theorem Performs.spares (performs : Performs machine id body call after)
    (going : machine.ended = false) : Spares id machine after := by
  cases performs with
  | announce prepares =>
      exact prepares.spares.trans (spares_reach ((going_of_prepares prepares).trans going) id _ _)
  | reply replies => exact replies.spares.trans (spares_same rfl)

theorem Completes.spares
    (completes : Completes machine pending answer after)
    (alone : ∀ name child, pending ≠ .create name child) : Spares id machine after := by
  cases completes with
  | create name child => exact absurd rfl (alone name child)
  | @wake address box message found owned parked =>
      have posted : Spares id machine ((machine.post address message).modifyMailbox address.slot
          fun mailbox => { mailbox with receiverParked := false }) := spares_same rfl
      exact posted.trans (spares_modifyRecord _ address.owner fun _ gone => gone)
  | _ => exact spares_same rfl

theorem Settles.spares (settles : Settles machine id after) : Spares id machine after := by
  cases settles with
  | keep => exact spares_same rfl
  | fault | cancel => exact spares_modifyRecord machine id fun _ gone => gone

end Calls

theorem spares_run (machine : Machine σ μ) (id next : ActorId) (chosen : Record) :
    Spares id machine ((machine.advance next chosen).switch id next) := by
  have advanced : Spares id machine (machine.advance next chosen) := by
    apply spares_of_change (get?_advance machine next · chosen)
    · intro other actor _
      split <;> rfl
    · intro other actor gone
      split
      · unfold Record.releaseYielded
        split <;> exact gone
      · exact gone
  refine advanced.trans ?_
  by_cases same : next = id
  · rw [switch, if_pos same]
    exact spares_same rfl
  · apply spares_of_change (get?_switch same)
    · intro other actor differs
      rw [Actor.switching, if_neg differs]
      split <;> rfl
    · intro other actor gone
      unfold Actor.switching
      split
      · rcases retired_or { actor with record := actor.record.hold false } with still | ⟨-, still⟩
        · rw [still]
          exact gone
        · rw [still]
          exact gone
      · split <;> exact gone

/-- What a transition does to the actors: one of them may come to another stage, or it creates a new
one. -/
inductive Concerns (machine : Machine σ μ) (id : ActorId) (after : Machine σ μ) : Prop
  | spares (spares : Spares id machine after)
      (alone : ∀ actor, machine.control = .returning id → machine.actors.get? id = some actor →
        ¬ actor.stage.Creates)
      (stops : ∀ record, machine.control = .returning id →
        machine.actors.get? id = some ⟨record, .ending false⟩ → after.Over id)
  | creates {record : Record} {name : Option String} {child body : σ} {newcomer : Actor σ μ}
      (control : machine.control = .returning id)
      (there : machine.actors.get? id = some ⟨record, .waiting (.create name child) body⟩)
      (actors : after.actors = machine.actors.push newcomer) (fresh : newcomer.stage.Fresh)

theorem Concerns.of_control
    (elsewhere : machine.control ≠ .returning id) (spares : Spares id machine after) :
    Concerns machine id after :=
  .spares spares (fun _ returning => absurd returning elsewhere)
    fun _ returning => absurd returning elsewhere

theorem actor?_reach
    (going : machine.ended = false) (id : ActorId) (operation : Operation) (stage : Stage σ μ) :
    (machine.reach id operation stage).control.actor? = some id := by
  obtain ⟨enabled, same⟩ := reach_eq going id operation stage
  rw [same]
  rfl

/-- Before the execution ends, control stays with the actor that has it, and the others stay at
their stages. -/
theorem Moves.concerns
    (moves : Moves program machine after) (going : machine.ended = false)
    (still : after.ended = false) :
    ∃ id, machine.control.actor? = some id ∧ after.control.actor? = some id ∧
      Concerns machine id after := by
  cases moves with
  | ends ended =>
      rw [still] at ended
      cases ended
  | @call id body next reply call _ control acts performs =>
      refine ⟨id, by rw [control]; rfl, ?_, .of_control (by rw [control]; nofun)
        ((spares_setStage machine id .running).trans (performs.spares going))⟩
      cases performs with
      | announce prepares => exact actor?_reach ((going_of_prepares prepares).trans going) id _ _
      | reply replies => rfl
  | @close id body reply control result =>
      exact ⟨id, by rw [control]; rfl, rfl, .of_control (by rw [control]; nofun)
        ((spares_setStage machine id .running).trans (spares_same rfl))⟩
  | @complete id record pending body answer after control there completes =>
      refine ⟨id, by rw [control]; rfl, rfl, ?_⟩
      by_cases creates : ∃ name child, pending = .create name child
      · obtain ⟨name, child, rfl⟩ := creates
        cases completes
        exact .creates control there rfl ⟨_, _, rfl⟩
      · refine .spares ((completes.spares fun name child same => creates ⟨name, child, same⟩).trans
          (spares_same rfl)) ?_ ?_
        · intro actor _ found
          cases there.symm.trans found
          rintro ⟨name, child, body, same⟩
          cases same
          exact creates ⟨name, child, rfl⟩
        · intro record _ found
          cases there.symm.trans found
  | @finish id record control there =>
      obtain ⟨spares, gone⟩ := spares_finish there
      have still : (machine.finish id).ended = false := (ended_finish there).trans going
      have reached := spares_reach still id (.stop id) (.ending true)
      refine ⟨id, by rw [control]; rfl, actor?_reach still id _ _,
        .spares (spares.trans reached) ?_ fun _ _ _ => reached.terminated gone⟩
      intro actor _ found
      cases there.symm.trans found
      rintro ⟨name, child, body, same⟩
      cases same
  | @settle id result settled control calm settles =>
      have same : settled.ended = machine.ended := by cases settles <;> rfl
      refine ⟨id, by rw [control]; rfl, actor?_reach (same.trans going) id _ _,
        .of_control (by rw [control]; nofun)
          (settles.spares.trans (spares_reach (same.trans going) id _ _))⟩

end Machine

end Interleave
