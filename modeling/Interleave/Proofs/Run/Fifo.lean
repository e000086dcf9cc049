import Mathlib.Data.List.Forall2
import Interleave.Proofs.Run.Services

namespace Interleave.Run

open Machine Service

variable {π σ μ : Type} {program : Program σ μ} {handles : Handles σ μ} {run next first : Run π σ μ}
  {services fresh : List (Service σ μ)} {number step : Nat} {policy : π} {id : ActorId}
  {address other : Address} {envelope : Envelope μ} {receipt : Receipt μ} {snapshot : Snapshot}
  {log : Log}

/-- The receive takes the message of an earlier send, whose step is in the snapshot of the owner. -/
structure Pairs (run : Run π σ μ) (owner : ActorId) (envelope : Envelope μ) (receipt : Receipt μ) :
    Prop where
  message : receipt.message = envelope.message
  earlier : envelope.sendStep < receipt.step
  selected : run.Selects receipt.step ⟨owner, true, .receive owner, some envelope.sendStep⟩

/-- The successful sends to one mailbox, in the order of their steps, are those whose messages were
received, in the same order, and then those whose messages are in the queue. A send that fails is not
among them: it has put nothing into the queue. -/
structure Fifo (run : Run π σ μ) (services : List (Service σ μ)) (address : Address) : Prop where
  ordered : (sent address services).Pairwise fun early late => early.sendStep < late.sendStep
  posted : ∀ envelope ∈ sent address services,
    ∃ snapshot, run.Selects envelope.sendStep snapshot ∧ snapshot.operation = .send address.owner
  balanced : ∃ taken, sent address services = taken ++ run.machine.queue address ∧
    List.Forall₂ (run.Pairs address.owner) taken (received address services)

structure Due (run : Run π σ μ) (address : Address) (envelope : Envelope μ) : Prop where
  going : run.machine.ended = false
  control : run.machine.control = .returning address.owner
  waiting : ∃ record body,
    run.machine.actors.get? address.owner = some ⟨record, .waiting (.receive address) body⟩
  head : (run.machine.queue address).head? = some envelope

/-- A receive was chosen that names an earlier send to the same owner, and it gets the message of
that send. -/
def Answered (run : Run π σ μ) (services : List (Service σ μ)) (step : Nat) (snapshot : Snapshot) :
    Prop :=
  ∃ address envelope, snapshot = ⟨address.owner, true, .receive address.owner,
      some envelope.sendStep⟩ ∧
    envelope ∈ sent address services ∧ envelope.sendStep < step ∧
    (⟨step, envelope.message⟩ ∈ received address services ∨
      step = run.turns.size ∧ run.Due address envelope)

structure Matched (run : Run π σ μ) (services : List (Service σ μ)) : Prop where
  fifo : ∀ address, run.Fifo services address
  early : ∀ id, run.machine.control = .returning id → run.machine.ended = false →
    ∀ address, ∀ envelope ∈ sent address services, envelope.sendStep < run.turns.size
  answered : ∀ step snapshot, run.Selects step snapshot → snapshot.kind = .receive →
    run.Answered services step snapshot

theorem Pairs.grow
    {owner : ActorId} (pairs : run.Pairs owner envelope receipt)
    (grows : ∀ step snapshot, run.Selects step snapshot → next.Selects step snapshot) :
    next.Pairs owner envelope receipt :=
  ⟨pairs.message, pairs.earlier, grows _ _ pairs.selected⟩

theorem Fifo.grow
    (fifo : run.Fifo services address)
    (grows : ∀ step snapshot, run.Selects step snapshot → next.Selects step snapshot)
    (sends : sent address (services ++ fresh) = sent address services)
    (receives : received address (services ++ fresh) = received address services)
    (still : next.machine.queue address = run.machine.queue address) :
    next.Fifo (services ++ fresh) address := by
  refine ⟨?_, ?_, ?_⟩
  · rw [sends]
    exact fifo.ordered
  · intro envelope member
    rw [sends] at member
    obtain ⟨snapshot, selects, announced⟩ := fifo.posted envelope member
    exact ⟨snapshot, grows _ _ selects, announced⟩
  · obtain ⟨taken, split, pairs⟩ := fifo.balanced
    rw [sends, receives, still]
    exact ⟨taken, split, pairs.imp fun _ _ pairs => pairs.grow grows⟩

theorem Answered.settle
    (answered : run.Answered services step snapshot) (undue : ∀ address envelope,
      run.Due address envelope → ⟨run.turns.size, envelope.message⟩ ∈ received address fresh) :
    next.Answered (services ++ fresh) step snapshot := by
  obtain ⟨address, envelope, same, member, earlier, got | ⟨last, due⟩⟩ := answered
  · refine ⟨address, envelope, same, ?_, earlier, .inl ?_⟩
    · rw [sent_append]
      exact List.mem_append_left _ member
    · rw [received_append]
      exact List.mem_append_left _ got
  · refine ⟨address, envelope, same, ?_, earlier, .inl ?_⟩
    · rw [sent_append]
      exact List.mem_append_left _ member
    · rw [received_append, last]
      exact List.mem_append_right _ (undue address envelope due)

theorem Fifo.post
    {message : μ} {last : Nat} (fifo : run.Fifo services address)
    (grows : ∀ step snapshot, run.Selects step snapshot → next.Selects step snapshot)
    (early : ∀ envelope ∈ sent address services, envelope.sendStep < last)
    (selected : next.Selects last snapshot) (announced : snapshot.operation = .send address.owner)
    (sends : sent address (services ++ fresh) = sent address services ++ [⟨last, message⟩])
    (receives : received address (services ++ fresh) = received address services)
    (queue : next.machine.queue address = run.machine.queue address ++ [⟨last, message⟩]) :
    next.Fifo (services ++ fresh) address := by
  refine ⟨?_, ?_, ?_⟩
  · rw [sends, List.pairwise_append]
    refine ⟨fifo.ordered, List.pairwise_singleton _ _, ?_⟩
    intro envelope member final final_mem
    cases List.mem_singleton.mp final_mem
    exact early envelope member
  · intro envelope member
    rw [sends, List.mem_append, List.mem_singleton] at member
    rcases member with member | rfl
    · obtain ⟨snapshot, selects, announced⟩ := fifo.posted envelope member
      exact ⟨snapshot, grows _ _ selects, announced⟩
    · exact ⟨snapshot, selected, announced⟩
  · obtain ⟨taken, split, pairs⟩ := fifo.balanced
    refine ⟨taken, ?_, ?_⟩
    · rw [sends, split, queue, List.append_assoc]
    · rw [receives]
      exact pairs.imp fun _ _ pairs => pairs.grow grows

theorem Fifo.take
    {rest : List (Envelope μ)} (fifo : run.Fifo services address)
    (grows : ∀ step snapshot, run.Selects step snapshot → next.Selects step snapshot)
    (sends : sent address (services ++ fresh) = sent address services)
    (receives : received address (services ++ fresh) = received address services ++ [receipt])
    (head : run.machine.queue address = envelope :: rest)
    (queue : next.machine.queue address = rest)
    (pair : next.Pairs address.owner envelope receipt) :
    next.Fifo (services ++ fresh) address := by
  refine ⟨?_, ?_, ?_⟩
  · rw [sends]
    exact fifo.ordered
  · intro envelope member
    rw [sends] at member
    obtain ⟨snapshot, selects, announced⟩ := fifo.posted envelope member
    exact ⟨snapshot, grows _ _ selects, announced⟩
  · obtain ⟨taken, split, pairs⟩ := fifo.balanced
    refine ⟨taken ++ [envelope], ?_, ?_⟩
    · rw [sends, split, head, queue, List.append_assoc]
      rfl
    · rw [receives]
      exact List.rel_append (pairs.imp fun _ _ pairs => pairs.grow grows) (.cons pair .nil)

section Tick

variable (matched : run.Matched services) (turns : next.turns = run.turns)
  (later : ∀ id, next.machine.control = .returning id → next.machine.ended = true)

include matched turns later

theorem Matched.tick
    (fifo : ∀ address, next.Fifo (services ++ fresh) address)
    (paid : ∀ address envelope, run.Due address envelope →
      ⟨run.turns.size, envelope.message⟩ ∈ received address fresh) :
    next.Matched (services ++ fresh) where
  fifo := fifo
  early := by
    intro id returning going
    rw [later id returning] at going
    cases going
  answered := by
    intro step snapshot selects kind
    exact (matched.answered step snapshot (selects.congr turns.symm) kind).settle paid

theorem Matched.idle
    (still : Still run.machine next.machine) (idle : Idle fresh)
    (undue : ∀ address envelope, ¬ run.Due address envelope) :
    next.Matched (services ++ fresh) := by
  apply matched.tick turns later
  · intro address
    apply (matched.fifo address).grow (fun _ _ selects => selects.congr turns) _ _ (still address)
    · rw [sent_append, (idle address).1, List.append_nil]
    · rw [received_append, (idle address).2, List.append_nil]
  · intro address envelope due
    exact absurd due (undue address envelope)

theorem Matched.send
    {message : μ} {answer : Answer μ} (control : run.machine.control = .returning id)
    (going : run.machine.ended = false)
    (selected : run.Selects run.turns.size snapshot)
    (announced : snapshot.operation = .send address.owner)
    (queue : ∀ other, next.machine.queue other =
      if other = address then run.machine.queue address ++ [⟨run.turns.size, message⟩]
      else run.machine.queue other)
    (undue : ∀ address envelope, ¬ run.Due address envelope) :
    next.Matched (services ++ [⟨run.turns.size, .send address message, .ok answer⟩]) := by
  have grows : ∀ step snapshot, run.Selects step snapshot → next.Selects step snapshot :=
    fun _ _ selects => selects.congr turns
  apply matched.tick turns later
  · intro other
    by_cases same : other = address
    · subst same
      apply (matched.fifo other).post grows (matched.early id control going other)
        (grows _ _ selected) announced
      · rw [sent_append, sent_send, if_pos rfl]
      · rw [received_append, received_send, List.append_nil]
      · rw [queue, if_pos rfl]
    · apply (matched.fifo other).grow grows
      · rw [sent_append, sent_send, if_neg (Ne.symm same), List.append_nil]
      · rw [received_append, received_send, List.append_nil]
      · rw [queue, if_neg same]
  · intro address envelope due
    exact absurd due (undue address envelope)

theorem Matched.receive
    {record : Record} {body : σ} {rest : List (Envelope μ)}
    (control : run.machine.control = .returning address.owner) (going : run.machine.ended = false)
    (there : run.machine.actors.get? address.owner =
      some ⟨record, .waiting (.receive address) body⟩)
    (selected : run.Selects run.turns.size
      ⟨address.owner, true, .receive address.owner, some envelope.sendStep⟩)
    (head : run.machine.queue address = envelope :: rest)
    (queue : ∀ other, next.machine.queue other =
      if other = address then rest else run.machine.queue other) :
    next.Matched (services ++
      [⟨run.turns.size, .receive address, .ok (.message envelope.message)⟩]) := by
  have grows : ∀ step snapshot, run.Selects step snapshot → next.Selects step snapshot :=
    fun _ _ selects => selects.congr turns
  obtain ⟨taken, split, -⟩ := (matched.fifo address).balanced
  have member : envelope ∈ sent address services := by
    rw [split, head]
    simp
  apply matched.tick turns later
  · intro other
    by_cases same : other = address
    · subst same
      have pair : next.Pairs other.owner envelope ⟨run.turns.size, envelope.message⟩ :=
        ⟨rfl, matched.early _ control going other envelope member, grows _ _ selected⟩
      apply (matched.fifo other).take grows _ _ head _ pair
      · rw [sent_append, sent_receive, List.append_nil]
      · rw [received_append, received_receive, if_pos rfl]
      · rw [queue, if_pos rfl]
    · apply (matched.fifo other).grow grows
      · rw [sent_append, sent_receive, List.append_nil]
      · rw [received_append, received_receive, if_neg (Ne.symm same), List.append_nil]
      · rw [queue, if_neg same]
  · intro other due_envelope due
    obtain ⟨-, known, ⟨_, _, waits⟩, first⟩ := due
    rw [← Control.returning.inj (control.symm.trans known), there] at waits
    cases waits
    rw [head] at first
    cases first
    rw [received_receive, if_pos rfl]
    exact List.mem_singleton.mpr rfl

end Tick

theorem Matched.choose
    {chosen : ActorId} {target : Actor σ μ} (matched : run.Matched services)
    (coherent : run.machine.Coherent id) (placed : run.machine.Placed id)
    (choosing : run.machine.control = .choosing id) (going : run.machine.ended = false)
    (there : run.machine.actors.get? chosen = some target) (enabled : target.record.enabled = true)
    (machine : next.machine = (run.machine.advance chosen target.record).switch id chosen)
    (turns : next.turns = run.turns.push ⟨id, run.machine.snapshots, .run chosen⟩)
    (idle : Idle fresh) : next.Matched (services ++ fresh) := by
  have grows : ∀ step snapshot, run.Selects step snapshot → next.Selects step snapshot :=
    fun _ _ selects => (selects_push_iff turns).mpr (.inl selects)
  have size : next.turns.size = run.turns.size + 1 := by rw [turns, Array.size_push]
  obtain ⟨actors, same⟩ := exists_run_eq run.machine id chosen target.record
  have still : Still run.machine next.machine := by
    rw [machine, same]
    exact fun _ => rfl
  have past : ∀ address, ∀ envelope ∈ sent address services,
      envelope.sendStep < run.turns.size + 1 := by
    intro address envelope member
    obtain ⟨snapshot, selects, -⟩ := (matched.fifo address).posted envelope member
    exact Nat.lt_succ_of_le selects.le
  have sends : ∀ address, sent address (services ++ fresh) = sent address services := by
    intro address
    rw [sent_append, (idle address).1, List.append_nil]
  refine ⟨?_, ?_, ?_⟩
  · intro address
    apply (matched.fifo address).grow grows (sends address) _ (still address)
    rw [received_append, (idle address).2, List.append_nil]
  · intro other _ _ address envelope member
    rw [sends] at member
    rw [size]
    exact past address envelope member
  · intro step snapshot selects kind
    rcases (selects_push_iff turns).mp selects with selects | ⟨rfl, runs, listed⟩
    · apply (matched.answered step snapshot selects kind).settle
      intro address envelope due
      cases choosing.symm.trans due.control
    · -- The chosen actor waits for its message.
      cases runs
      obtain ⟨actor, found, shown⟩ := mem_snapshots_iff.mp listed
      cases there.symm.trans found
      have busy := coherent.not_running placed there
      have receives : target.record.operation.kind = .receive := by
        rw [← shown] at kind
        exact kind
      obtain ⟨record, address, body, rfl⟩ :=
        coherent.exists_of_receive there enabled busy receives
      obtain ⟨operation, own, head, rest, queue, noted⟩ := coherent.exists_head there enabled
      have member : head ∈ sent address services := by
        obtain ⟨taken, split, -⟩ := (matched.fifo address).balanced
        rw [split, queue]
        simp
      refine ⟨address, head, ?_, ?_, past address head member, .inr ⟨size.symm, ?_⟩⟩
      · rw [← shown, own, ← operation, ← noted, ← enabled]
        rfl
      · rw [sends]
        exact member
      · obtain ⟨active, now⟩ := exists_get?_run there id
        refine ⟨?_, ?_, ?_, ?_⟩
        · rw [machine, same]
          exact going
        · rw [machine, same, own]
        · rw [machine, own]
          exact ⟨_, _, now⟩
        · rw [still, queue]
          rfl

theorem Matched.stop
    {turn : Turn} (matched : run.Matched services) (choosing : run.machine.control = .choosing id)
    (still : Still run.machine next.machine) (turns : next.turns = run.turns.push turn)
    (stops : ∀ next, turn.decision ≠ .run next) (ended : next.machine.ended = true)
    (idle : Idle fresh) : next.Matched (services ++ fresh) := by
  have same : ∀ step snapshot, next.Selects step snapshot ↔ run.Selects step snapshot := by
    intro step snapshot
    rw [selects_push_iff turns]
    exact ⟨fun either => either.resolve_right fun last => stops _ last.2.1, .inl⟩
  refine ⟨?_, ?_, ?_⟩
  · intro address
    apply (matched.fifo address).grow (fun _ _ => (same _ _).mpr) _ _ (still address)
    · rw [sent_append, (idle address).1, List.append_nil]
    · rw [received_append, (idle address).2, List.append_nil]
  · intro other _ going
    rw [ended] at going
    cases going
  · intro step snapshot selects kind
    apply (matched.answered step snapshot ((same _ _).mp selects) kind).settle
    intro address envelope due
    cases choosing.symm.trans due.control

theorem not_due
    {record : Record} {stage : Stage σ μ} (control : run.machine.control = .returning id)
    (there : run.machine.actors.get? id = some ⟨record, stage⟩)
    (busy : ∀ address body, stage ≠ .waiting (.receive address) body) (address : Address)
    (envelope : Envelope μ) : ¬ run.Due address envelope := by
  intro due
  obtain ⟨-, known, ⟨_, body, waits⟩, -⟩ := due
  rw [← Control.returning.inj (control.symm.trans known), there] at waits
  cases waits
  exact busy address body rfl

section Step

variable (matched : run.Matched services) (sound : run.machine.Sound handles)

include matched

theorem Matched.complete
    {record : Record} {pending : Pending σ μ} {body : σ} {answer : Reply μ}
    {after : Machine σ μ} (turns : next.turns = run.turns) (punctual : run.Punctual)
    (coherent : run.machine.Coherent id) (enabled : record.enabled = true)
    (control : run.machine.control = .returning id) (going : run.machine.ended = false)
    (there : run.machine.actors.get? id = some ⟨record, .waiting pending body⟩)
    (completes : Completes run.machine pending answer after)
    (machine : next.machine = after.pass (.resuming id body answer)) :
    next.Matched (services ++ (run.service? next).toList) := by
  have resumes : next.machine.control = .resuming id body answer := by
    rw [machine]
    rfl
  have later : ∀ id, next.machine.control = .returning id → next.machine.ended = true := by
    intro id returning
    cases resumes.symm.trans returning
  have counted : run.machine.steps = run.turns.size := by
    apply punctual.counted
    · intro other choosing
      cases control.symm.trans choosing
    · intro other text closing
      cases control.symm.trans closing
  have selected := punctual.selected id _ control there
  rw [service?_of_returning control there resumes, Option.toList_some]
  have passed : Still after next.machine := by
    rw [machine]
    exact fun _ => rfl
  cases completes with
  | start | join | pass =>
      apply matched.idle turns later passed (idle_of_unused (fun _ => by nofun) _ _)
      exact not_due control there fun _ _ => by nofun
  | create name child =>
      have still : Still run.machine (run.machine.withActor name child) :=
        still_withMailbox run.machine run.machine.actors.nextKey
      apply matched.idle turns later (still.trans passed) (idle_of_unused (fun _ => by nofun) _ _)
      exact not_due control there fun _ _ => by nofun
  | send message found owned free =>
      apply matched.send turns later control going selected
        (coherent.announces_of_enabled there enabled)
      · intro other
        rw [passed, queue_post found owned, counted]
      · exact not_due control there fun _ _ => by nofun
  | @wake address box message found owned parked =>
      apply matched.send turns later control going selected
        (coherent.announces_of_enabled there enabled)
      · intro other
        rw [passed, still_wakeReceiver, queue_post found owned, counted]
      · exact not_due control there fun _ _ => by nofun
  | @receive address box head rest found owned queue =>
      obtain ⟨operation, rfl, envelope, others, front, noted⟩ := coherent.exists_head there enabled
      have same : envelope = head := by
        rw [queue_of_found found owned, queue] at front
        cases front
        rfl
      subst same
      apply matched.receive turns later control going there _ front
      · intro other
        rw [passed, queue_drop found owned, front, List.tail_cons]
      · rw [← operation, ← noted, ← enabled]
        exact selected

theorem Matched.unwind
    (sane : run.machine.Sane) (ended : run.machine.ended = true) (turns : next.turns = run.turns)
    (machine : next.machine = run.machine.next program) :
    next.Matched (services ++ (run.service? next).toList) := by
  have stopped : next.machine.ended = true := by
    rw [machine]
    exact (onward_next program sane).ended ended
  have still : Still run.machine next.machine := by
    rw [machine]
    exact still_next program sane (.inl ended)
  apply matched.idle turns (fun _ _ => stopped) still
  · by_cases returning : ∃ id, run.machine.control = .returning id
    · obtain ⟨id, returning⟩ := returning
      have same := next_of_ended program returning ended
        (sane.present id (by rw [returning]; rfl))
      have unwinding := unwinding_dismissed ended id
      apply idle_of_failed
      intro other body answer resumes
      rw [← same, ← machine, resumes] at unwinding
      cases unwinding
    · exact idle_of_control fun id control => returning ⟨id, control⟩
  · intro address envelope due
    cases ended.symm.trans due.going

theorem Matched.proceed
    {after : Machine σ μ} (punctual : run.Punctual) (consistent : run.machine.Consistent)
    (going : run.machine.ended = false) (control : run.machine.control = .returning id)
    (proceeds : Proceeds run.machine id after) (turns : next.turns = run.turns)
    (machine : next.machine = after) :
    next.Matched (services ++ (run.service? next).toList) := by
  obtain ⟨coherent, actor, known, enabled, -⟩ := consistent.of_returning control
  have counts := proceeds.counts going
  cases proceeds with
  | complete there completes =>
      cases known.symm.trans there
      exact matched.complete turns punctual coherent enabled control going there completes machine
  | @finish record there =>
      have still : Still run.machine next.machine := by
        rw [machine]
        exact still_of_mailboxes
          ((tacit_reach _ _ _ _).mailboxes.trans (tacit_finish run.machine id).mailboxes)
      rw [← machine] at counts
      apply matched.idle turns (fun id returning => absurd returning (counts.not_returning id))
        still
      · apply idle_of_failed
        intro other body answer resumes
        have ended : (run.machine.finish id).ended = false := (ended_finish there).trans going
        obtain ⟨_, same⟩ := reach_eq ended id (.stop id) (.ending true)
        rw [machine, same] at resumes
        cases resumes
      · exact not_due control there fun _ _ => by nofun

end Step

theorem Steps.matched
    [Scheduler π] (steps : Steps program run log next) (matched : run.Matched services)
    (sound : run.machine.Sound handles) (discreet : program.Discreet handles)
    (punctual : run.machine.ended = false → run.Punctual)
    (legal : ∀ turn ∈ next.turns, turn.Legal) :
    next.Matched (services ++ (run.service? next).toList) := by
  cases steps with
  | tick undecided =>
      have turns : ({ run with machine := run.machine.next program } : Run π σ μ).turns =
          run.turns := rfl
      cases ended : run.machine.ended with
      | true => exact matched.unwind sound.sane ended turns rfl
      | false =>
          obtain ⟨consistent, guarded⟩ := sound.going ended
          have honest := guarded.honest discreet
          by_cases returning : ∃ id, run.machine.control = .returning id
          · obtain ⟨id, returning⟩ := returning
            obtain ⟨coherent, actor, there, enabled, placed⟩ := consistent.of_returning returning
            have proceeds := proceeds_next returning coherent there enabled placed ended honest
            exact matched.proceed (punctual ended) consistent ended returning proceeds turns rfl
          · have others : ∀ id, run.machine.control ≠ .returning id :=
              fun id control => returning ⟨id, control⟩
            have moves := moves_next consistent ended honest undecided
            have still := still_next program sound.sane (.inr others)
            apply matched.idle turns _ still (idle_of_control others)
            · intro address envelope due
              exact others _ due.control
            · intro id returning
              cases stopped : (run.machine.next program).ended with
              | true => rfl
              | false => exact absurd returning ((moves.counts ended stopped).not_returning id)
  | @decide id decision policy written choosing chosen =>
      have elsewhere : ∀ other, run.machine.control ≠ .returning other := by
        intro other returning
        cases choosing.symm.trans returning
      by_cases runs : ∃ target, decision = .run target
      · obtain ⟨target, rfl⟩ := runs
        have going : run.machine.ended = false := by
          cases ended : run.machine.ended with
          | false => rfl
          | true => exact absurd choosing (sound.sane.decided ended id)
        obtain ⟨coherent, -, placed⟩ := (sound.going going).1.of_choosing choosing
        obtain ⟨actor, there, enabled, same⟩ :=
          decided_run coherent (legal _ Array.mem_push_self target rfl)
        exact matched.choose coherent placed choosing going there enabled same rfl
          (idle_of_control elsewhere)
      · have stops : ∀ target, decision ≠ .run target := fun target same => runs ⟨target, same⟩
        exact matched.stop choosing (still_decided stops) rfl stops (ended_decided stops)
          (idle_of_control elsewhere)
  | @fail id fault policy choosing =>
      have elsewhere : ∀ other, run.machine.control ≠ .returning other := by
        intro other returning
        cases choosing.symm.trans returning
      have turns : ({ run with
          machine := run.machine.crashed id fault, policy := policy } : Run π σ μ).turns =
            run.turns := rfl
      have still : Still run.machine (run.machine.crashed id fault) :=
        still_of_mailboxes (tacit_crash run.machine id fault _).mailboxes
      apply matched.idle turns _ still (idle_of_control elsewhere)
      · intro address envelope due
        exact elsewhere _ due.control
      · intro other returning
        rcases crashed_or run.machine id fault with same | ended
        · change (run.machine.crashed id fault).control = _ at returning
          rw [same] at returning
          cases returning
        · exact ended

theorem matched_start (program : Program σ μ) (number : Nat) (policy : π) :
    (start program number policy).Matched ([] : List (Service σ μ)) := by
  have unasked : ∀ step snapshot, ¬ (start program number policy).Selects step snapshot := by
    intro step snapshot selects
    cases selects with
    | turn asked chosen listed => cases asked
  refine ⟨?_, ?_, ?_⟩
  · exact fun address => ⟨.nil, nofun, [], rfl, .nil⟩
  · exact fun _ _ _ _ => nofun
  · exact fun step snapshot selects => absurd selects (unasked step snapshot)

theorem Recorded.matched
    [Scheduler π] (discreet : program.Discreet handles)
    (recorded : Recorded program (start program number policy) run services)
    (legal : ∀ turn ∈ run.turns, turn.Legal) : run.Matched services := by
  induction recorded with
  | here => exact matched_start program number policy
  | @step run services recorded log induction =>
      have sane := recorded.reached.sane (sane_start (program.root number))
      have steps : Steps program run log _ := steps_step sane log
      have before : ∀ turn ∈ run.turns, turn.Legal :=
        fun turn member => legal turn (steps.mem_turns member)
      have sound := recorded.reached.sound (sound_start discreet number policy) discreet before
      have punctual := recorded.reached.punctual discreet before
      exact steps.matched (induction before) sound discreet punctual legal

/-- In an execution in which only enabled actors are run, every mailbox is first in, first out, and
every receive that was chosen gets the message of the send that its snapshot names. -/
theorem fifo_of_recorded
    [Scheduler π] (discreet : program.Discreet handles)
    (recorded : Recorded program (start program number policy) run services)
    (legal : ∀ turn ∈ run.turns, turn.Legal) :
    (∀ address, run.Fifo services address) ∧
      ∀ step snapshot, run.Selects step snapshot → snapshot.kind = .receive →
        run.Answered services step snapshot := by
  have matched := recorded.matched discreet legal
  exact ⟨matched.fifo, matched.answered⟩

/-- The receiver gets the message that the root has sent before. -/
theorem fifo_of_recorded_errand :
    let first : Run Policy.Replay Errand Nat :=
      start Errand.program 0 (Policy.Replay.ofTrace ⟨[⟨0⟩, ⟨1⟩, ⟨0⟩, ⟨1⟩]⟩)
    let run := ((first.complete Errand.program 12).run (.empty .trace)).1
    let services := first.history Errand.program 12 (.empty .trace)
    (∀ turn ∈ run.turns, turn.Legal) ∧ received ⟨⟨1⟩, 0⟩ services = [⟨4, 7⟩] ∧
      (∀ address, run.Fifo services address) ∧
      ∀ step snapshot, run.Selects step snapshot → snapshot.kind = .receive →
        run.Answered services step snapshot := by
  intro first run services
  have legal : ∀ turn ∈ run.turns, turn.Legal := by decide +kernel
  have fifo := fifo_of_recorded Errand.discreet_program
    (recorded_history Errand.program 12 first (.empty .trace)) legal
  have got : received ⟨⟨1⟩, 0⟩ services = [⟨4, 7⟩] := by decide +kernel
  exact ⟨legal, got, fifo⟩

end Interleave.Run
