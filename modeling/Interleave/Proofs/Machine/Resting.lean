import Interleave.Proofs.Machine.Stages

namespace Interleave

variable {σ μ : Type}

/-- The operation only gives up control. -/
def Operation.Rests (id : ActorId) (operation : Operation) : Prop :=
  operation = .yield id ∨ operation = .awaitDeadlock id

/-- Those that have given up control with such an operation can go on. -/
def Operation.unblock (test : Operation → Prop) [DecidablePred test] (rest : Operation × Bool) :
    Operation × Bool :=
  (rest.1, rest.2 || decide (test rest.1))

namespace Operation

variable {test test' : Operation → Prop} [DecidablePred test] [DecidablePred test']

@[simp] theorem unblock_mk (operation : Operation) (enabled : Bool) :
    unblock test (operation, enabled) = (operation, enabled || decide (test operation)) := rfl

theorem unblock_congr (same : ∀ operation, test operation ↔ test' operation) :
    unblock test = unblock test' := by
  funext rest
  simp only [unblock, same]

theorem map_unblock_of_never
    (never : ∀ operation, ¬ test operation) (rest : Option (Operation × Bool)) :
    rest.map (unblock test) = rest := by
  cases rest with
  | none => rfl
  | some rest => simp [unblock, never]

end Operation

namespace Actor

variable {actor changed : Actor σ μ} {id : ActorId} {operation : Operation} {enabled : Bool}

/-- The operation with which an actor gives up control, and whether it can go on. -/
def rest? (actor : Actor σ μ) : Option (Operation × Bool) :=
  match actor.stage with
  | .waiting .pass _ => some (actor.record.operation, actor.record.enabled)
  | _ => none

theorem rest?_eq_some_iff :
    actor.rest? = some (operation, enabled) ↔
      ∃ body, actor.stage = .waiting .pass body ∧ actor.record.operation = operation ∧
        actor.record.enabled = enabled := by
  unfold rest?
  split
  · rename_i body same
    simp [same]
  · rename_i other
    simp only [reduceCtorEq, false_iff]
    rintro ⟨body, same, -⟩
    exact other body same

theorem rest?_congr
    (stage : changed.stage = actor.stage)
    (operation : changed.record.operation = actor.record.operation)
    (enabled : changed.record.enabled = actor.record.enabled) : changed.rest? = actor.rest? := by
  unfold rest?
  rw [stage, operation, enabled]

theorem rest?_of_over (stopped : actor.stage.isOver = true) : actor.rest? = none := by
  unfold rest?
  split
  · rename_i same
    rw [same] at stopped
    cases stopped
  · rfl

theorem Proper.rest?_of_rests
    (proper : actor.Proper id) (placed : actor.stage ≠ .running)
    (rests : actor.record.operation.Rests id) :
    actor.rest? = some (actor.record.operation, actor.record.enabled) := by
  have known : ∀ kind, actor.record.operation.kind = kind →
      kind = .yield ∨ kind = .awaitDeadlock := by
    rintro kind rfl
    rcases rests with same | same
    · exact .inl (by rw [same]; rfl)
    · exact .inr (by rw [same]; rfl)
  cases proper with
  | @free record stage flags announced living =>
      cases stage with
      | running => exact absurd rfl placed
      | waiting pending body =>
          cases pending with
          | pass => rfl
          | start => simpa using known .start (by rw [announced]; rfl)
          | create => simpa using known .create (by rw [announced]; rfl)
          | send => simpa using known .send (by rw [announced]; rfl)
          | receive => simpa using known .receive (by rw [announced.1]; rfl)
          | join => simpa using known .join (by rw [announced]; rfl)
      | ending | ended => simpa using known .stop (by rw [announced]; rfl)
  | parked flags announced => simpa using known .receive (by rw [announced]; rfl)
  | joining flags announced => simpa using known .join (by rw [announced]; rfl)
  | yielding | awaiting => rfl
  | gone flags announced => simpa using known .stop (by rw [announced]; rfl)

theorem Proper.rest?_releaseYielded (proper : actor.Proper id) :
    ({ actor with record := actor.record.releaseYielded } : Actor σ μ).rest? =
      actor.rest?.map (Operation.unblock fun operation => operation.kind = .yield) := by
  cases proper with
  | @free record stage flags =>
      rw [Machine.releaseYielded_of_flags flags]
      cases resting : (⟨record, stage⟩ : Actor σ μ).rest? with
      | none => rfl
      | some rest =>
          obtain ⟨operation, enabled⟩ := rest
          obtain ⟨body, -, -, rfl⟩ := rest?_eq_some_iff.mp resting
          simp [flags.enabled]
  | yielding flags announced =>
      rw [Record.releaseYielded, if_pos flags.yielded]
      simp [rest?, announced, Operation.yield]
  | awaiting flags announced =>
      rw [Machine.releaseYielded_of_flags flags]
      simp [rest?, announced, Operation.awaitDeadlock]
  | parked flags | joining flags =>
      rw [Machine.releaseYielded_of_flags flags]
      rfl
  | gone flags announced stopped =>
      rw [Machine.releaseYielded_of_flags flags, rest?_of_over stopped]
      rfl

end Actor

namespace Machine

variable {program : Program σ μ} {machine middle after arrived : Machine σ μ}
  {current id other next : ActorId} {actor : Actor σ μ} {operation : Operation}
  {stage : Stage σ μ} {enabled : Bool}

def rest? (machine : Machine σ μ) (id : ActorId) : Option (Operation × Bool) :=
  (machine.actors.get? id).bind Actor.rest?

theorem rest?_of_get? (there : machine.actors.get? id = some actor) :
    machine.rest? id = actor.rest? := by
  rw [rest?, there, Option.bind_some]

theorem exists_of_rest? (resting : machine.rest? id = some (operation, enabled)) :
    ∃ actor, machine.actors.get? id = some actor ∧ actor.rest? = some (operation, enabled) :=
  Option.bind_eq_some_iff.mp resting

def Leaves (id : ActorId) (machine after : Machine σ μ) : Prop :=
  ∀ other, other ≠ id → after.rest? other = machine.rest? other

section Leaves

theorem Leaves.trans (first : Leaves id machine middle) (rest : Leaves id middle after) :
    Leaves id machine after :=
  fun other differs => (rest other differs).trans (first other differs)

theorem leaves_same (actors : after.actors = machine.actors) : Leaves id machine after := by
  intro other _
  rw [rest?, rest?, actors]

theorem rest?_change
    {change : ActorId → Actor σ μ → Actor σ μ}
    (actors : ∀ other, after.actors.get? other = (machine.actors.get? other).map (change other))
    (kept : ∀ actor, machine.actors.get? other = some actor →
      (change other actor).rest? = actor.rest?) : after.rest? other = machine.rest? other := by
  rw [rest?, rest?, actors]
  cases there : machine.actors.get? other with
  | none => rfl
  | some actor => exact kept actor there

theorem leaves_of_others
    (others : ∀ other, other ≠ id → after.actors.get? other = machine.actors.get? other) :
    Leaves id machine after := by
  intro other differs
  rw [rest?, rest?, others other differs]

theorem leaves_modifyRecord (machine : Machine σ μ) (id : ActorId) (change : Record → Record) :
    Leaves id machine (machine.modifyRecord id change) :=
  leaves_of_others fun _ differs => get?_modifyRecord_other differs change

theorem leaves_setStage (machine : Machine σ μ) (id : ActorId) (stage : Stage σ μ) :
    Leaves id machine (machine.setStage id stage) := by
  apply leaves_of_others
  intro other differs
  rw [get?_setStage]
  simp only [if_neg differs]
  exact Option.map_id'

theorem leaves_announce
    (machine : Machine σ μ) (id : ActorId) (operation : Operation) (stage : Stage σ μ) :
    Leaves id machine (machine.announce id operation stage) :=
  leaves_of_others fun _ differs => get?_announce_of_other differs

theorem Prepares.leaves
    {call : Call σ μ} {pending : Pending σ μ}
    (prepares : Prepares machine id call pending operation after) : Leaves id machine after := by
  cases prepares with
  | create | send | joinOver => exact leaves_same rfl
  | ready | yield | awaitDeadlock => exact leaves_modifyRecord machine id _
  | park =>
      have parked : Leaves id machine (machine.modifyRecord id fun record =>
          { record with enabled := false, sendStep := none }) := leaves_modifyRecord machine id _
      exact parked.trans (leaves_same rfl)
  | @join target _ strict there living =>
      refine Leaves.trans ?_ (leaves_modifyRecord _ id _)
      intro other _
      apply rest?_change (get?_modifyRecord machine target · _)
      intro actor _
      apply Actor.rest?_congr
      all_goals split <;> rfl

theorem Replies.leaves
    {call : Call σ μ} {reply : Reply μ} (replies : Replies machine id call reply after) :
    Leaves id machine after := by
  cases replies with
  | rename => exact leaves_modifyRecord machine id _
  | mailbox | refuse | note | noteStatuses | cancel | stray | pause => exact leaves_same rfl

theorem Settles.leaves (settles : Settles machine id after) : Leaves id machine after := by
  cases settles with
  | keep => exact leaves_same rfl
  | fault | cancel => exact leaves_modifyRecord machine id _

theorem rest?_push
    {newcomer : Actor σ μ} (actors : after.actors = machine.actors.push newcomer)
    (busy : newcomer.rest? = none) (other : ActorId) :
    after.rest? other = machine.rest? other := by
  rw [rest?, rest?, actors, Roster.get?_push]
  split
  · rename_i new
    have absent : machine.actors.get? other = none := by
      rw [new]
      exact Array.getElem?_eq_none (Nat.le_refl _)
    rw [absent]
    exact busy
  · rfl

/-- The receiver that a send wakes up has not only given up control. -/
theorem Completes.leaves
    {pending : Pending σ μ} {answer : Reply μ} (completes : Completes machine pending answer after)
    (coherent : machine.Coherent current) : Leaves id machine after := by
  cases completes with
  | create name child => exact fun other _ => rest?_push rfl rfl other
  | @wake address box message found owned parked =>
      intro other _
      have woken : ((machine.post address message).wakeReceiver address).rest? other =
          (machine.post address message).rest? other := by
        apply rest?_change (get?_modifyRecord _ address.owner · _)
        intro actor there
        split
        · rename_i same
          have waits := (coherent.parked address.slot box found).mp parked
          rw [owned, ← same, wait?_of_get? (show machine.actors.get? other = _ from there)] at waits
          obtain ⟨record, body, rfl, -⟩ :=
            (coherent.proper other actor there).exists_of_message waits
          rfl
        · rfl
      exact woken
  | start | send | receive | join | pass => exact leaves_same rfl

theorem leaves_finish
    (coherent : machine.Coherent id) (there : machine.actors.get? id = some actor) :
    Leaves id machine (machine.finish id) := by
  rw [finish_eq there]
  refine (leaves_modifyRecord machine id Record.finish).trans ?_
  intro other differs
  apply rest?_change (get?_enableAll _ actor.record.waiters)
  intro waiter found
  rw [get?_modifyRecord_other differs] at found
  split
  · rename_i waits
    obtain ⟨record, strict, body, rfl, -⟩ := exists_of_mem_waiters coherent there found waits
    rfl
  · rfl

end Leaves

section Arrives

/-- An actor arrives at its next scheduling point: it has announced what it is about to do, and
nobody has been let go on for that yet. -/
inductive Arrives (program : Program σ μ) (machine : Machine σ μ) (id : ActorId) :
    Machine σ μ → Prop
  | call {body next : σ} {reply : Reply μ} {call : Call σ μ} {pending : Pending σ μ}
      {operation : Operation} {prepared : Machine σ μ}
      (control : machine.control = .resuming id body reply)
      (acts : program.resume ((machine.setStage id .running).view id) body reply = .call call next)
      (prepares : Prepares (machine.setStage id .running) id call pending operation prepared) :
      Arrives program machine id (prepared.announce id operation (.waiting pending next))
  | finish {record : Record} (control : machine.control = .returning id)
      (there : machine.actors.get? id = some ⟨record, .ending false⟩) :
      Arrives program machine id ((machine.finish id).announce id (.stop id) (.ending true))
  | settle {result : Except ActorError Unit} {settled : Machine σ μ}
      (control : machine.control = .closing id result)
      (calm : ∀ text, result ≠ .error (.panicked text)) (settles : Settles machine id settled) :
      Arrives program machine id (settled.announce id (.stop id) (.ending false))

/-- The scheduling point is reached: if nobody is enabled then some may go on. -/
def consult (arrived : Machine σ μ) (id : ActorId) : Machine σ μ :=
  { arrived.releaseBlocked with
    steps := arrived.steps + 1
    maxEnabled := max arrived.maxEnabled
      (arrived.releaseBlocked.actors.toList.countP fun actor => actor.record.enabled)
    control := .choosing id }

theorem reach_eq_consult
    (going : machine.ended = false) (id : ActorId) (operation : Operation) (stage : Stage σ μ) :
    machine.reach id operation stage = (machine.announce id operation stage).consult id := by
  unfold reach
  rw [if_neg (by rw [going]; exact Bool.false_ne_true)]
  rfl

theorem Arrives.control (arrives : Arrives program machine id arrived) :
    machine.control.actor? = some id ∧ (∀ other, machine.control ≠ .choosing other) ∧
      ∀ other text, machine.control ≠ .closing other (.error (.panicked text)) := by
  cases arrives with
  | call control | finish control =>
      rw [control]
      exact ⟨rfl, nofun, nofun⟩
  | settle control calm =>
      rw [control]
      refine ⟨rfl, nofun, ?_⟩
      rintro other text same
      cases same
      exact calm text rfl

theorem Arrives.coherent
    (arrives : Arrives program machine id arrived) (consistent : machine.Consistent) :
    arrived.Coherent id ∧ arrived.Placed id := by
  have placed : ∀ (prepared : Machine σ μ) operation (stage : Stage σ μ), stage ≠ .running →
      (prepared.announce id operation stage).Placed id := by
    intro prepared operation stage waits actor there
    rw [get?_announce] at there
    obtain ⟨before, -, rfl⟩ := Option.map_eq_some_iff.mp there
    rw [if_pos rfl]
    exact waits
  cases arrives with
  | call control acts prepares =>
      have ready := consistent.ready_of_resuming control
      obtain ⟨record, there, flags⟩ := ready.exists_running
      exact ⟨prepares.announced ready there flags _, placed _ _ _ nofun⟩
  | finish control there =>
      obtain ⟨coherent, actor, known, enabled, -⟩ := consistent.of_returning control
      cases there.symm.trans known
      exact ⟨coherent.finish there enabled, placed _ _ _ nofun⟩
  | settle control calm settles =>
      rcases consistent.of_closing control with ready | ⟨text, same⟩
      · exact ⟨settles.announced ready, placed _ _ _ nofun⟩
      · exact absurd same (calm text)

theorem Arrives.leaves
    (arrives : Arrives program machine id arrived) (consistent : machine.Consistent) :
    Leaves id machine arrived := by
  cases arrives with
  | call control acts prepares =>
      exact ((leaves_setStage machine id .running).trans prepares.leaves).trans
        (leaves_announce _ id _ _)
  | finish control there =>
      obtain ⟨coherent, -⟩ := consistent.of_returning control
      exact (leaves_finish coherent there).trans (leaves_announce _ id _ _)
  | settle control calm settles => exact settles.leaves.trans (leaves_announce _ id _ _)

theorem Arrives.disabled
    (arrives : Arrives program machine id arrived)
    (resting : arrived.rest? id = some (operation, enabled)) : enabled = false := by
  obtain ⟨actor, there, resting⟩ := exists_of_rest? resting
  obtain ⟨body, passes, -, rfl⟩ := Actor.rest?_eq_some_iff.mp resting
  cases arrives with
  | call control acts prepares =>
      rw [get?_announce] at there
      obtain ⟨before, known, rfl⟩ := Option.map_eq_some_iff.mp there
      rw [if_pos rfl] at passes ⊢
      cases passes
      cases prepares with
      | yield | awaitDeadlock =>
          rw [get?_modifyRecord] at known
          obtain ⟨earlier, -, rfl⟩ := Option.map_eq_some_iff.mp known
          rw [if_pos rfl]
          rfl
  | finish | settle =>
      rw [get?_announce] at there
      obtain ⟨before, known, rfl⟩ := Option.map_eq_some_iff.mp there
      rw [if_pos rfl] at passes
      cases passes

/-- Before the execution ends, an actor arrives at a scheduling point or keeps control, and the
others that have given up control stay as they are. -/
theorem Moves.exists_leaves
    (moves : Moves program machine after) (consistent : machine.Consistent)
    (going : machine.ended = false) (still : after.ended = false) :
    ∃ id, machine.control.actor? = some id ∧
      ((∃ arrived, Arrives program machine id arrived ∧ after = arrived.consult id) ∨
        (∀ other, after.control ≠ .choosing other) ∧ after.control.actor? = some id ∧
          Leaves id machine after) := by
  cases moves with
  | ends ended =>
      rw [still] at ended
      cases ended
  | @call id body next reply call _ control acts performs =>
      refine ⟨id, by rw [control]; rfl, ?_⟩
      cases performs with
      | announce prepares =>
          exact .inl ⟨_, .call control acts prepares,
            reach_eq_consult ((going_of_prepares prepares).trans going) id _ _⟩
      | reply replies =>
          exact .inr ⟨nofun, rfl, ((leaves_setStage machine id .running).trans replies.leaves).trans
            (leaves_same rfl)⟩
  | @close id body reply control result =>
      exact ⟨id, by rw [control]; rfl, .inr ⟨nofun, rfl,
        (leaves_setStage machine id .running).trans (leaves_same rfl)⟩⟩
  | @complete id record pending body answer completed control there completes =>
      obtain ⟨coherent, -⟩ := consistent.of_returning control
      exact ⟨id, by rw [control]; rfl, .inr ⟨nofun, rfl,
        (completes.leaves coherent).trans (leaves_same rfl)⟩⟩
  | @finish id record control there =>
      exact ⟨id, by rw [control]; rfl, .inl ⟨_, .finish control there,
        reach_eq_consult ((ended_finish there).trans going) id _ _⟩⟩
  | @settle id result settled control calm settles =>
      have same : settled.ended = machine.ended := by cases settles <;> rfl
      exact ⟨id, by rw [control]; rfl, .inl ⟨_, .settle control calm settles,
        reach_eq_consult (same.trans going) id _ _⟩⟩

end Arrives

section Frees

def Stalled (machine : Machine σ μ) : Prop :=
  ∀ id actor, machine.actors.get? id = some actor → actor.record.enabled = false

/-- Nobody waits for progress. -/
def Unyielded (machine : Machine σ μ) : Prop :=
  ∀ id actor, machine.actors.get? id = some actor → actor.record.yielded = false

theorem all_records_iff (machine : Machine σ μ) (test : Record → Bool) :
    (machine.actors.toList.map Actor.record).any test = false ↔
      ∀ id actor, machine.actors.get? id = some actor → test actor.record = false := by
  rw [← Bool.not_eq_true, any_records_iff]
  simp only [not_exists, not_and, Bool.not_eq_true]

instance (machine : Machine σ μ) : Decidable machine.Stalled :=
  decidable_of_iff _ (all_records_iff machine Record.enabled)

instance (machine : Machine σ μ) : Decidable machine.Unyielded :=
  decidable_of_iff _ (all_records_iff machine Record.yielded)

/-- At a scheduling point that is reached like this, who gives up control is let go on. -/
def Frees (arrived : Machine σ μ) (operation : Operation) : Prop :=
  arrived.Stalled ∧ (operation.kind = .yield ∨ arrived.Unyielded)

instance (arrived : Machine σ μ) (operation : Operation) : Decidable (arrived.Frees operation) :=
  inferInstanceAs (Decidable (_ ∧ _))

/-- A scheduling point that is reached with nobody enabled lets those go on that have yielded, or
if there are none those that wait for a deadlock. -/
theorem releaseBlocked_eq (machine : Machine σ μ) :
    machine.releaseBlocked =
      if machine.Stalled then
        if machine.Unyielded then machine.modifyRecords fun _ record => record.releaseAwaiting
        else machine.modifyRecords fun _ record => record.releaseYielded
      else machine := by
  have stalled : machine.Stalled ↔ _ := (all_records_iff machine Record.enabled).symm
  have unyielded : machine.Unyielded ↔ _ := (all_records_iff machine Record.yielded).symm
  simp only [releaseBlocked, stalled, unyielded, ← Bool.not_eq_true, ite_not]

theorem rest?_map
    {change : ActorId → Actor σ μ → Actor σ μ} {test : Operation → Prop} [DecidablePred test]
    (actors : ∀ other, after.actors.get? other = (machine.actors.get? other).map (change other))
    (unblocked : ∀ actor, machine.actors.get? id = some actor →
      (change id actor).rest? = actor.rest?.map (Operation.unblock test)) :
    after.rest? id = (machine.rest? id).map (Operation.unblock test) := by
  rw [rest?, rest?, actors]
  cases there : machine.actors.get? id with
  | none => rfl
  | some actor => exact unblocked actor there

theorem rest?_releaseBlocked (coherent : machine.Coherent current) (id : ActorId) :
    machine.releaseBlocked.rest? id = (machine.rest? id).map (Operation.unblock machine.Frees) := by
  rw [releaseBlocked_eq]
  split
  · rename_i stalled
    split
    · rename_i unyielded
      apply rest?_map (get?_modifyRecords machine · _)
      intro actor there
      have disabled := stalled id actor there
      have never := unyielded id actor there
      cases coherent.proper id actor there with
      | free flags =>
          rw [flags.enabled] at disabled
          cases disabled
      | yielding flags =>
          rw [flags.yielded] at never
          cases never
      | awaiting flags announced =>
          rw [Record.releaseAwaiting, if_pos flags.awaiting]
          simp [Actor.rest?, Frees, stalled, unyielded]
      | parked flags | joining flags =>
          rw [releaseAwaiting_of_flags flags]
          rfl
      | gone flags announced stopped =>
          rw [releaseAwaiting_of_flags flags, Actor.rest?_of_over stopped]
          rfl
    · rename_i waiting
      have same : ∀ operation, machine.Frees operation ↔ operation.kind = .yield := by
        simp [Frees, stalled, waiting]
      rw [Operation.unblock_congr same]
      exact rest?_map (get?_modifyRecords machine · _) fun actor there =>
        (coherent.proper id actor there).rest?_releaseYielded
  · rename_i going
    exact (Operation.map_unblock_of_never (fun operation frees => going frees.1) _).symm

theorem placed_releaseBlocked (placed : machine.Placed id) : machine.releaseBlocked.Placed id := by
  intro actor there
  obtain ⟨change, -, actors⟩ := exists_release machine
  obtain ⟨before, known, rfl⟩ := exists_get?_of_change actors there
  exact placed before known

theorem rest?_switch (machine : Machine σ μ) (id next other : ActorId) :
    (machine.switch id next).rest? other = machine.rest? other := by
  by_cases same : next = id
  · rw [switch, if_pos same]
    rfl
  · apply rest?_change (get?_switch same)
    intro actor _
    unfold Actor.switching
    split
    · obtain ⟨record, stage⟩ := actor
      rcases retired_or (⟨record.hold false, stage⟩ : Actor σ μ) with still | ⟨ends, still⟩
      · rw [still]
        exact Actor.rest?_congr rfl rfl rfl
      · rw [still, Actor.rest?_of_over rfl]
        exact (Actor.rest?_of_over (by rw [show stage = _ from ends]; rfl)).symm
    · split
      · exact Actor.rest?_congr rfl rfl rfl
      · rfl

theorem rest?_run
    (coherent : machine.Coherent current) (differs : other ≠ next) (id : ActorId)
    (chosen : Record) :
    ((machine.advance next chosen).switch id next).rest? other =
      (machine.rest? other).map (Operation.unblock fun operation =>
        operation.kind = .yield ∧ chosen.operation.kind.isProgress = true) := by
  rw [rest?_switch]
  apply rest?_map (get?_advance machine next · chosen)
  intro actor there
  by_cases progress : chosen.operation.kind.isProgress = true
  · rw [if_pos ⟨differs, progress⟩]
    rw [Operation.unblock_congr fun operation => and_iff_left progress]
    exact (coherent.proper other actor there).rest?_releaseYielded
  · rw [if_neg fun both => progress both.2]
    exact (Operation.map_unblock_of_never (fun operation both => progress both.2) _).symm

theorem enabled_releaseBlocked_iff
    (coherent : machine.Coherent current) (stalled : machine.Stalled)
    (unyielded : machine.Unyielded)
    (there : machine.releaseBlocked.actors.get? id = some actor) :
    actor.record.enabled = true ↔ actor.record.operation = .awaitDeadlock id := by
  rw [releaseBlocked_eq, if_pos stalled, if_pos unyielded] at there
  obtain ⟨before, known, rfl⟩ := exists_get?_of_change (get?_modifyRecords machine · _) there
  have disabled := stalled id before known
  have never := unyielded id before known
  cases coherent.proper id before known with
  | free flags =>
      rw [flags.enabled] at disabled
      cases disabled
  | yielding flags =>
      rw [flags.yielded] at never
      cases never
  | awaiting flags announced =>
      rw [Record.releaseAwaiting, if_pos flags.awaiting]
      simp [announced]
  | parked flags announced | joining flags announced | gone flags announced =>
      rw [releaseAwaiting_of_flags flags]
      simp [announced, flags.enabled, Operation.receive, Operation.join, Operation.stop,
        Operation.awaitDeadlock]

end Frees

end Machine

end Interleave
