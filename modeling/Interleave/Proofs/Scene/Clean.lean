import Interleave.Proofs.Machine.Fates

namespace Interleave

variable {σ μ : Type}

namespace Machine

variable {machine after : Machine σ μ} {id : ActorId} {actor : Actor σ μ} {call : Call σ μ}
  {pending : Pending σ μ} {operation : Operation} {answer : Reply μ}

structure Clean (machine : Machine σ μ) : Prop where
  fate : machine.fate = .going none
  faults : ∀ id actor, machine.actors.get? id = some actor → actor.record.faults = []

namespace Clean

theorem going (clean : machine.Clean) : machine.ended = false :=
  congrArg Fate.ended clean.fate

theorem of_change
    {change : ActorId → Actor σ μ → Actor σ μ} (clean : machine.Clean)
    (actors : ∀ other, after.actors.get? other = (machine.actors.get? other).map (change other))
    (faults : ∀ other actor, (change other actor).record.faults = actor.record.faults)
    (fate : after.fate = machine.fate) : after.Clean where
  fate := fate.trans clean.fate
  faults := by
    intro id changed there
    obtain ⟨actor, known, rfl⟩ := exists_get?_of_change actors there
    rw [faults]
    exact clean.faults id actor known

variable (clean : machine.Clean)

include clean

theorem modifyRecord
    (id : ActorId) (change : Record → Record)
    (faults : ∀ record, (change record).faults = record.faults) :
    (machine.modifyRecord id change).Clean := by
  refine clean.of_change (get?_modifyRecord machine id · change) ?_ rfl
  intro other actor
  split
  · exact faults actor.record
  · rfl

theorem modifyRecords
    {change : ActorId → Record → Record}
    (faults : ∀ id record, (change id record).faults = record.faults) :
    (machine.modifyRecords change).Clean :=
  clean.of_change (get?_modifyRecords machine · change)
    (fun other actor => faults other actor.record) rfl

theorem setStage (id : ActorId) (stage : Stage σ μ) : (machine.setStage id stage).Clean := by
  refine clean.of_change (get?_setStage machine id · stage) ?_ rfl
  intro other actor
  split <;> rfl

theorem pass (control : Control σ μ) : (machine.pass control).Clean :=
  ⟨clean.fate, clean.faults⟩

theorem modifyMailbox (slot : Nat) (change : Mailbox μ → Mailbox μ) :
    (machine.modifyMailbox slot change).Clean :=
  ⟨clean.fate, clean.faults⟩

theorem withActor (name : Option String) (child : σ) : (machine.withActor name child).Clean := by
  refine ⟨clean.fate, ?_⟩
  intro id actor there
  have grown : (machine.withActor name child).actors = machine.actors.push _ := rfl
  rcases newcomer_or_settled grown there with ⟨-, rfl⟩ | known
  · rfl
  · exact clean.faults id actor known

theorem releaseBlocked : machine.releaseBlocked.Clean := by
  simp only [Machine.releaseBlocked]
  split
  · exact clean
  · split
    · apply clean.modifyRecords
      intro _ record
      unfold Record.releaseYielded
      split <;> rfl
    · apply clean.modifyRecords
      intro _ record
      unfold Record.releaseAwaiting
      split <;> rfl

theorem reach (id : ActorId) (operation : Operation) (stage : Stage σ μ) :
    (machine.reach id operation stage).Clean := by
  obtain ⟨enabled, same⟩ := reach_eq clean.going id operation stage
  have announced : (machine.announce id operation stage).releaseBlocked.Clean :=
    ((clean.setStage id stage).modifyRecord id (Record.announce operation)
      fun _ => rfl).releaseBlocked
  rw [same]
  exact ⟨announced.fate, announced.faults⟩

theorem enableAll (waiters : List ActorId) : (machine.enableAll waiters).Clean := by
  induction waiters generalizing machine with
  | nil => exact clean
  | cons waiter rest induction => exact induction (clean.modifyRecord waiter Record.enable fun _ => rfl)

theorem finish (there : machine.actors.get? id = some actor) : (machine.finish id).Clean := by
  rw [finish_eq there]
  exact (clean.modifyRecord id Record.finish fun _ => rfl).enableAll _

theorem prepares (prepares : Prepares machine id call pending operation after) : after.Clean := by
  cases prepares with
  | create | send | joinOver => exact clean
  | ready | yield | awaitDeadlock => exact clean.modifyRecord id _ fun _ => rfl
  | park =>
      refine modifyMailbox (clean.modifyRecord id ?_ ?_) _ _
      exact fun _ => rfl
  | join =>
      refine modifyRecord (clean.modifyRecord _ ?_ ?_) id Record.disable fun _ => rfl
      exact fun _ => rfl

theorem replies (replies : Replies machine id call answer after) : after.Clean := by
  cases replies with
  | mailbox | note | noteStatuses => exact ⟨clean.fate, clean.faults⟩
  | refuse | cancel | stray | pause => exact clean
  | rename name => exact clean.modifyRecord id _ fun _ => rfl

theorem completes (completes : Completes machine pending answer after) : after.Clean := by
  cases completes with
  | start | join | pass => exact clean
  | create name child => exact clean.withActor name child
  | send | receive => exact clean.modifyMailbox _ _
  | @wake address =>
      exact ((clean.modifyMailbox _ _).modifyMailbox _ _).modifyRecord address.owner _ fun _ => rfl

theorem run (id next : ActorId) (chosen : Record) :
    ((machine.advance next chosen).switch id next).Clean := by
  have advanced : (machine.advance next chosen).Clean := by
    refine clean.of_change (get?_advance machine next · chosen) ?_ (fate_advance machine next chosen)
    intro other actor
    split
    · unfold Record.releaseYielded
      split <;> rfl
    · rfl
  unfold switch
  split
  · exact advanced.pass _
  · have held := (advanced.modifyRecord id (.hold false) fun _ => rfl).modifyRecord next
      (.hold true) fun _ => rfl
    apply pass
    unfold retire
    split
    · exact held.setStage id .ended
    · exact held

end Clean

end Machine

end Interleave
