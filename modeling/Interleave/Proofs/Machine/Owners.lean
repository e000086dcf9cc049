import Interleave.Proofs.Machine.Footprint
import Interleave.Proofs.Machine.Stages

namespace Interleave.Machine

variable {σ μ : Type} {program : Program σ μ} {machine after : Machine σ μ} {id other : ActorId}
  {actor : Actor σ μ}

def Owned (machine : Machine σ μ) : Prop :=
  ∀ (slot : Nat) box, machine.mailboxes[slot]? = some box → box.owner.index < machine.actors.size

section Owned

variable (owners : machine.Owned)

include owners

theorem Owned.congr
    (size : after.actors.size = machine.actors.size)
    (mailboxes : after.mailboxes = machine.mailboxes) : after.Owned := by
  intro slot box found
  rw [mailboxes] at found
  rw [size]
  exact owners slot box found

theorem Owned.modifyMailbox
    {change : Mailbox μ → Mailbox μ} (slot : Nat) (owner : ∀ box, (change box).owner = box.owner) :
    (machine.modifyMailbox slot change).Owned := by
  intro position box found
  rw [getElem?_modifyMailbox] at found
  obtain ⟨before, known, rfl⟩ := Option.map_eq_some_iff.mp found
  split
  · rw [owner]
    exact owners position before known
  · exact owners position before known

theorem Owned.withMailbox (inside : id.index < machine.actors.size) :
    (machine.withMailbox id).Owned := by
  intro slot box found
  rw [getElem?_withMailbox] at found
  split at found
  · cases found
    exact inside
  · exact owners slot box found

theorem Owned.withActor (name : Option String) (child : σ) :
    (machine.withActor name child).Owned := by
  intro slot box found
  have size : (machine.withActor name child).actors.size = machine.actors.size + 1 :=
    Roster.size_push ..
  have known := getElem?_withMailbox machine machine.actors.nextKey slot
  rw [show (machine.withActor name child).mailboxes[slot]? = _ from known] at found
  rw [size]
  split at found
  · cases found
    exact Nat.lt_succ_self _
  · exact Nat.lt_succ_of_lt (owners slot box found)

theorem Owned.reach
    (going : machine.ended = false) (id : ActorId) (operation : Operation) (stage : Stage σ μ) :
    (machine.reach id operation stage).Owned := by
  have reached : Spares id machine _ := spares_reach going id operation stage
  exact owners.congr reached.size (tacit_reach machine id operation stage).mailboxes

variable {call : Call σ μ} {pending : Pending σ μ} {operation : Operation} {answer : Reply μ}

theorem Prepares.owned (prepares : Prepares machine id call pending operation after) :
    after.Owned := by
  have size := prepares.spares.size
  cases prepares with
  | @park slot =>
      have disabled : (machine.modifyRecord id fun record =>
          { record with enabled := false, sendStep := none }).Owned := owners.congr size rfl
      exact disabled.modifyMailbox slot fun _ => rfl
  | create | send | ready | joinOver | join | yield | awaitDeadlock => exact owners.congr size rfl

theorem Replies.owned
    (replies : Replies machine id call answer after) (inside : id.index < machine.actors.size) :
    after.Owned := by
  have size := replies.spares.size
  cases replies with
  | mailbox => exact owners.withMailbox inside
  | refuse | rename | note | noteStatuses | cancel | stray | pause => exact owners.congr size rfl

theorem Completes.owned (completes : Completes machine pending answer after) : after.Owned := by
  cases completes with
  | start | join | pass => exact owners
  | create name child => exact owners.withActor name child
  | send message => exact owners.modifyMailbox _ fun _ => rfl
  | @wake address box message =>
      have posted : (machine.post address message).Owned := owners.modifyMailbox _ fun _ => rfl
      have woken : ((machine.post address message).modifyMailbox address.slot fun mailbox =>
          { mailbox with receiverParked := false }).Owned :=
        posted.modifyMailbox address.slot fun _ => rfl
      exact woken.congr (Roster.size_modify ..) rfl
  | receive => exact owners.modifyMailbox _ fun _ => rfl

theorem Moves.owned
    (moves : Moves program machine after) (sane : machine.Sane) (going : machine.ended = false)
    (still : after.ended = false) : after.Owned := by
  have inside : ∀ id, machine.control.actor? = some id → id.index < machine.actors.size :=
    sane.present
  cases moves with
  | ends ended => cases still.symm.trans ended
  | @call id body next reply call _ control acts performs =>
      have running : (machine.setStage id .running).Owned :=
        owners.congr (spares_setStage machine id .running).size rfl
      cases performs with
      | announce prepares =>
          exact (prepares.owned running).reach ((going_of_prepares prepares).trans going) id _ _
      | reply replies =>
          refine (replies.owned running ?_).congr rfl rfl
          rw [(spares_setStage machine id .running).size]
          exact inside id (by rw [control]; rfl)
  | @close id body reply control result =>
      exact owners.congr (spares_setStage machine id .running).size rfl
  | complete control there completes => exact (completes.owned owners).congr rfl rfl
  | @finish id record control there =>
      have finished : (machine.finish id).Owned :=
        owners.congr (spares_finish there).1.size (tacit_finish machine id).mailboxes
      exact finished.reach ((ended_finish there).trans going) id _ _
  | @settle id result settled control calm settles =>
      have same : settled.ended = machine.ended := by cases settles <;> rfl
      have kept : settled.mailboxes = machine.mailboxes := by cases settles <;> rfl
      exact Owned.reach (owners.congr settles.spares.size kept) (same.trans going) id _ _

theorem Owned.run (id next : ActorId) (chosen : Record) :
    ((machine.advance next chosen).switch id next).Owned := by
  have size := (spares_run machine id next chosen).size
  exact owners.congr size ((mailboxes_switch _ id next).trans (mailboxes_advance machine _ _))

theorem Coherent.index_lt_of_target
    {current : ActorId} (coherent : machine.Coherent current) (honest : machine.Honest program)
    (there : machine.actors.get? id = some actor) (enabled : actor.record.enabled = true)
    (placed : actor.stage ≠ .running) (targets : actor.record.operation.target = some other) :
    other.index < machine.actors.size := by
  have announced := coherent.announces_of_enabled there enabled
  have self (operation : Operation) (target : operation.target = some id)
      (same : actor.record.operation = operation) : other.index < machine.actors.size := by
    rw [same, target] at targets
    cases targets
    exact index_lt there
  obtain ⟨record, stage⟩ := actor
  cases stage with
  | running => exact absurd rfl placed
  | ending | ended => exact self _ rfl announced
  | waiting pending body =>
      cases pending with
      | start => exact self _ rfl announced
      | receive => exact self _ rfl announced.1
      | pass => exact announced.elim (self _ rfl) (self _ rfl)
      | create =>
          rw [show record.operation = _ from announced] at targets
          cases targets
      | send address message =>
          rw [show record.operation = _ from announced] at targets
          cases targets
          obtain ⟨box, found, same⟩ :=
            honest.placed id record _ body address there (.send address message)
          rw [← same]
          exact owners address.slot box found
      | join joined strict =>
          rw [show record.operation = _ from announced] at targets
          cases targets
          obtain ⟨target, present, -⟩ :=
            coherent.joined id _ _ there ⟨enabled, strict, body, rfl⟩
          exact index_lt present

end Owned

theorem owned_start (body : σ) : (start body : Machine σ μ).Owned := by
  intro slot box found
  cases found

end Interleave.Machine
