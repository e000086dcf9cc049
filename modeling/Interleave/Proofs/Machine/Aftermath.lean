import Interleave.Proofs.Machine.Fates
import Interleave.Proofs.Machine.Queues

namespace Interleave

variable {σ μ : Type}

/-- The error that a call gets once the execution has ended. The others still get their reply. -/
def Call.refusal? (id : ActorId) : Call σ μ → Option ActorError
  | .create .. | .send .. | .join .. | .yield | .awaitDeadlock => some .terminated
  | .receive address => some (if id = address.owner then .terminated else .notOwner address.owner id)
  | .mailbox | .rename _ | .cancel | .stray | .note _ | .noteStatuses | .pause => none

namespace Machine

open Attempt

variable {program : Program σ μ} {machine after : Machine σ μ} {id other : ActorId}
  {body next : σ} {call : Call σ μ} {error : ActorError}

def Disabled (machine : Machine σ μ) (id : ActorId) : Prop :=
  ∃ actor, machine.actors.get? id = some actor ∧ actor.record.enabled = false

def Calls (program : Program σ μ) (machine : Machine σ μ) (id : ActorId) (call : Call σ μ)
    (next : σ) : Prop :=
  ∃ body reply, machine.control = .resuming id body reply ∧
    program.resume ((machine.setStage id .running).view id) body reply = .call call next

/-- The owner of a mailbox without messages is to wait for one. -/
def Starves (machine : Machine σ μ) (id : ActorId) (call : Call σ μ) : Prop :=
  ∃ address, call = .receive address ∧ address.owner = id ∧ machine.queue address = []

def Parks (machine : Machine σ μ) (id : ActorId) (call : Call σ μ) : Prop :=
  call = .yield ∨ call = .awaitDeadlock ∨ machine.Starves id call

section Woken

/-- The execution goes on as it was, or all actors are awake for its end. -/
def Woken (before after : Machine σ μ) : Prop :=
  after.ended = before.ended ∨ ∀ id, ¬ after.Disabled id

theorem awake_terminate
    (actors : after.actors = machine.terminate.actors) (id : ActorId) : ¬ after.Disabled id := by
  rintro ⟨actor, there, disabled⟩
  rw [actors, terminate, get?_modifyRecords] at there
  obtain ⟨before, -, rfl⟩ := Option.map_eq_some_iff.mp there
  cases disabled

theorem crash_or_awake (machine : Machine σ μ) (id : ActorId) (fault : Fault) (log : Log) :
    ((machine.crash id fault).run log).1 =
        machine.pass (.closing id (.error (.panicked fault.text))) ∨
      ∀ other, ¬ ((machine.crash id fault).run log).1.Disabled other := by
  have stopped : ∀ machine : Machine σ μ, ∀ other, ¬ machine.terminate.handOn.Disabled other := by
    intro machine
    obtain ⟨control, same, -⟩ := exists_handOn_eq machine.terminate
    exact awake_terminate (by rw [same]; rfl)
  simp only [crash]
  split
  · exact .inl rfl
  · split
    · exact .inr (stopped _)
    · exact .inr (stopped _)

theorem woken_workFor
    {work : Attempt (Machine σ μ) Unit}
    (within : ∀ log, (work.outcome (machine, log)).1.2.ended = machine.ended) (id : ActorId)
    (log : Log) : Woken machine ((workFor id work machine).run log).1 := by
  have same := within log
  rw [run_workFor]
  cases ran : work.outcome (machine, log) with
  | mk result written =>
      obtain ⟨result, between⟩ := result
      rw [ran] at same
      cases result with
      | ok value => exact .inl same
      | error fault =>
          rcases crash_or_awake between id fault written with passed | awake
          · exact .inl ((congrArg Machine.ended passed).trans same)
          · exact .inr awake

theorem woken_settle
    (machine : Machine σ μ) (id : ActorId) (result : Except ActorError Unit) (log : Log) :
    Woken machine ((settle id result machine).run log).1 := by
  unfold settle
  split
  · exact .inl rfl
  · split
    · unfold reportBug
      split <;> exact .inl rfl
    · exact .inl rfl
  · exact .inl rfl
  · split
    · exact .inr (awake_terminate rfl)
    · exact .inl rfl

end Woken

section Disabled

/-- Nobody gets disabled but those. -/
def Lulls (those : ActorId → Prop) (before after : Machine σ μ) : Prop :=
  ∀ id, after.Disabled id → before.Disabled id ∨ those id

variable {those : ActorId → Prop}

theorem Lulls.trans {between : Machine σ μ}
    (first : Lulls those machine between) (rest : Lulls those between after) :
    Lulls those machine after := by
  intro id disabled
  rcases rest id disabled with disabled | lulled
  · exact first id disabled
  · exact .inr lulled

theorem chained_lulls : Chained (Lulls (σ := σ) (μ := μ) those) where
  refl _ _ := .inl
  trans := Lulls.trans

theorem lulls_of_change
    {change : ActorId → Actor σ μ → Actor σ μ}
    (actors : ∀ id, after.actors.get? id = (machine.actors.get? id).map (change id))
    (enabled : ∀ id actor, (change id actor).record.enabled = false →
      actor.record.enabled = false ∨ those id) : Lulls those machine after := by
  rintro id ⟨actor, there, disabled⟩
  rw [actors] at there
  obtain ⟨before, known, rfl⟩ := Option.map_eq_some_iff.mp there
  rcases enabled id before disabled with disabled | lulled
  · exact .inl ⟨before, known, disabled⟩
  · exact .inr lulled

theorem lulls_same (actors : after.actors = machine.actors) : Lulls those machine after :=
  lulls_of_change (fun id => by rw [actors, Option.map_id']) fun _ _ => .inl

theorem lulls_modifyRecord
    {change : Record → Record} (id : ActorId)
    (enabled : ∀ record, (change record).enabled = false → record.enabled = false ∨ those id) :
    Lulls those machine (machine.modifyRecord id change) := by
  apply lulls_of_change (get?_modifyRecord machine id · change)
  intro other actor disabled
  split at disabled
  · rename_i same
    rw [same]
    exact enabled _ disabled
  · exact .inl disabled

theorem lulls_setStage (machine : Machine σ μ) (id : ActorId) (stage : Stage σ μ) :
    Lulls those machine (machine.setStage id stage) := by
  apply lulls_of_change (get?_setStage machine id · stage)
  intro other actor disabled
  split at disabled
  · exact .inl disabled
  · exact .inl disabled

theorem lulls_releaseBlocked (machine : Machine σ μ) :
    Lulls those machine machine.releaseBlocked := by
  simp only [releaseBlocked]
  split
  · exact lulls_same rfl
  · split
    · apply lulls_of_change (get?_modifyRecords machine · _)
      intro other actor disabled
      simp only [Record.releaseYielded] at disabled
      split at disabled
      · cases disabled
      · exact .inl disabled
    · apply lulls_of_change (get?_modifyRecords machine · _)
      intro other actor disabled
      simp only [Record.releaseAwaiting] at disabled
      split at disabled
      · cases disabled
      · exact .inl disabled

theorem lulls_reach (machine : Machine σ μ) (id : ActorId) (operation : Operation)
    (stage : Stage σ μ) : Lulls those machine (machine.reach id operation stage) := by
  have placed : Lulls those machine (machine.setStage id stage) := lulls_setStage machine id stage
  simp only [reach]
  split
  · exact placed
  · have announced : Lulls those (machine.setStage id stage)
        ((machine.setStage id stage).modifyRecord id (Record.announce operation)) :=
      lulls_modifyRecord id fun _ => .inl
    exact ((placed.trans announced).trans (lulls_releaseBlocked _)).trans (lulls_same rfl)

theorem within_lulls_prepareReceive (address : Address) :
    Within (Lulls fun other => other = address.owner ∧ machine.queue address = [])
      (prepareReceive address) machine := by
  apply within_mailbox_bind chained_lulls
  intro box found
  split
  · exact fun _ => lulls_modifyRecord _ fun _ => .inl
  · rename_i empty
    have queue : machine.queue address = [] := by
      simp only [Machine.queue, found, empty, ite_self]
    have park : ∀ between : Machine σ μ,
        Within (Lulls fun other => other = address.owner ∧ machine.queue address = [])
          (do
            changeRecord address.owner fun record =>
              { record with enabled := false, sendStep := none }
            changeMailbox address fun mailbox => { mailbox with receiverParked := true })
          between := by
      intro between
      apply within_bind chained_lulls
      · exact fun _ => lulls_modifyRecord address.owner fun _ _ => .inr ⟨rfl, queue⟩
      · exact fun _ _ _ => lulls_same rfl
    apply within_bind chained_lulls (within_record chained_lulls address.owner)
    intro record between
    split
    · exact within_bind chained_lulls (within_throw chained_lulls _) fun _ => park
    · exact park between

theorem within_lulls_perform (ended : machine.ended = true) (body : σ) (call : Call σ μ) :
    Within (Lulls fun other => other = id ∧ machine.Parks id call) (perform id body call)
      machine := by
  have await : ∀ (between : Machine σ μ) operation pending,
      Within (Lulls fun other => other = id ∧ machine.Parks id call)
        (await id operation pending body) between :=
    fun between operation pending _ => lulls_reach between id operation _
  have reply : ∀ (between : Machine σ μ) answer,
      Within (Lulls fun other => other = id ∧ machine.Parks id call) (reply id body answer)
        between :=
    fun _ _ _ => lulls_same rfl
  cases call with
  | create | send => exact await machine _ _
  | mailbox =>
      apply within_bind chained_lulls
      · exact within_of_gives (gives_addMailbox id) (lulls_same rfl)
      · exact fun _ between => reply between _
  | receive address =>
      simp only [perform]
      split
      · exact reply machine _
      · rename_i own
        have own : id = address.owner := not_not.mp own
        apply within_bind chained_lulls
        · intro log other disabled
          apply (within_lulls_prepareReceive address log other disabled).imp_right
          rintro ⟨same, empty⟩
          exact ⟨same.trans own.symm, .inr (.inr ⟨address, rfl, own.symm, empty⟩)⟩
        · exact fun _ between => await between _ _
  | join joined strict =>
      apply within_get_bind
      rw [if_pos ended]
      exact reply machine _
  | yield =>
      apply within_bind chained_lulls
      · exact fun _ => lulls_modifyRecord id fun _ _ => .inr ⟨rfl, .inl rfl⟩
      · exact fun _ between => await between _ _
  | awaitDeadlock =>
      apply within_bind chained_lulls
      · exact fun _ => lulls_modifyRecord id fun _ _ => .inr ⟨rfl, .inr (.inl rfl)⟩
      · exact fun _ between => await between _ _
  | rename name =>
      apply within_bind chained_lulls
      · exact fun _ => lulls_modifyRecord id fun _ => .inl
      · exact fun _ between => reply between _
  | cancel | stray =>
      apply within_bind chained_lulls (within_log chained_lulls _)
      exact fun _ between => reply between _
  | note | noteStatuses =>
      apply within_bind chained_lulls
      · exact fun _ => lulls_same rfl
      · exact fun _ between => reply between _
  | pause => exact reply machine _

theorem lulls_workFor
    {work : Attempt (Machine σ μ) Unit} (within : Within (Lulls those) work machine)
    (id : ActorId) (log : Log) : Lulls those machine ((workFor id work machine).run log).1 := by
  have lulls := within log
  rw [run_workFor]
  cases ran : work.outcome (machine, log) with
  | mk result written =>
      obtain ⟨result, between⟩ := result
      rw [ran] at lulls
      cases result with
      | ok value => exact lulls
      | error fault =>
          rcases crash_or_awake between id fault written with same | awake
          · exact lulls.trans (lulls_same (by rw [same]; rfl))
          · exact fun other disabled => absurd disabled (awake other)

theorem lulls_dismissed (machine : Machine σ μ) (id : ActorId) :
    Lulls those machine (machine.dismissed id) := by
  unfold dismissed
  split
  · exact lulls_same rfl
  · exact lulls_same rfl
  · apply lulls_of_change (get?_leave machine id)
    intro other actor disabled
    split at disabled
    · exact .inl disabled
    · exact .inl disabled

theorem lulls_settle
    (machine : Machine σ μ) (id : ActorId) (result : Except ActorError Unit) (log : Log) :
    Lulls those machine ((settle id result machine).run log).1 := by
  unfold settle
  split
  · exact lulls_same rfl
  · split
    · unfold reportBug
      split <;> exact lulls_same rfl
    · exact lulls_same rfl
  · exact lulls_modifyRecord id fun _ => .inl
  · split
    · exact fun other disabled => absurd disabled (awake_terminate rfl other)
    · exact lulls_modifyRecord id fun _ => .inl

/-- After the end, an actor is disabled by its own calls only. -/
theorem lulls_next (program : Program σ μ) (sane : machine.Sane) (ended : machine.ended = true) :
    Lulls (fun other => ∃ call next, machine.Calls program other call next ∧
      machine.Parks other call) machine (machine.next program) := by
  cases control : machine.control with
  | resuming id body reply =>
      rw [next_of_resuming control]
      apply (lulls_setStage machine id .running).trans
      apply lulls_workFor
      cases acts : program.resume ((machine.setStage id .running).view id) body reply with
      | call call next =>
          have ended : (machine.setStage id .running).ended = true := ended
          intro log other disabled
          apply (within_lulls_perform ended next call log other disabled).imp_right
          rintro ⟨rfl, parks⟩
          exact ⟨call, next, ⟨body, reply, control, acts⟩, parks⟩
      | «return» result | panic payload => exact fun _ => lulls_same rfl
  | returning id =>
      rw [next_of_ended program control ended (sane.present id (by rw [control]; rfl))]
      exact lulls_dismissed machine id
  | closing id result =>
      unfold next tick
      rw [control]
      exact (lulls_settle machine id result _).trans (lulls_reach _ id _ _)
  | choosing id | finished =>
      unfold next tick
      rw [control]
      exact lulls_same rfl

end Disabled

section Ends

theorem woken_next (program : Program σ μ) (machine : Machine σ μ) :
    Woken machine (machine.next program) := by
  cases control : machine.control with
  | resuming id body reply =>
      rw [next_of_resuming control]
      have within : Within SameCourse (act id _) (machine.setStage id .running) :=
        within_act (gentle_sameCourse id)
          (program.resume ((machine.setStage id .running).view id) body reply)
      exact woken_workFor (fun log => (within log).ended) id (.empty .trace)
  | returning id =>
      unfold next tick
      rw [control]
      exact woken_workFor (fun log => (within_proceed id log).ended) id (.empty .trace)
  | closing id result =>
      unfold next tick
      rw [control]
      rcases woken_settle machine id result (.empty .trace) with going | awake
      · exact .inl ((sameCourse_reach _ id _ _).ended.trans going)
      · right
        intro other disabled
        have lulls : Lulls (fun _ => False) ((settle id result machine).run (.empty .trace)).1 _ :=
          lulls_reach _ id (.stop id) (.ending false)
        exact (lulls other disabled).elim (awake other) False.elim
  | choosing id | finished =>
      unfold next tick
      rw [control]
      exact .inl rfl

theorem woken_decided (machine : Machine σ μ) (id : ActorId) (decision : Decision) :
    Woken machine (machine.decided id decision) := by
  by_cases runs : ∃ next, decision = .run next
  · obtain ⟨next, rfl⟩ := runs
    exact woken_workFor (fun log => (sameCourse_follow id next machine log).ended) id (.empty .trace)
  · obtain ⟨blocked, limited, deadlocked, same, -⟩ :=
      exists_decided_eq machine id fun next same => runs ⟨next, same⟩
    exact .inr (awake_terminate (by rw [same]; rfl))

end Ends

section Refusal

/-- The body goes on with the error that it got for its call, and nothing else has come of it. -/
structure Refuses (machine after : Machine σ μ) (id : ActorId) (body : σ) (error : ActorError) :
    Prop where
  control : after.control = .resuming id body (.error error)
  queues : Still machine after
  trace : after.trace = machine.trace
  fate : after.fate = machine.fate

theorem dismissed_of_called
    {record : Record} {pending : Pending σ μ}
    (there : machine.actors.get? id = some ⟨record, .waiting pending body⟩)
    (begun : ∀ answer, pending ≠ .start answer) :
    machine.dismissed id = machine.pass (.resuming id body (.error .terminated)) := by
  unfold dismissed
  rw [there, Option.map_some]
  cases pending with
  | start answer => exact absurd rfl (begun answer)
  | _ => rfl

/-- A call that does not fault is refused at once, or once its actor has control again. -/
theorem Performs.refuses
    (performs : Performs machine id body call after) (ended : machine.ended = true)
    {actor : Actor σ μ} (there : machine.actors.get? id = some actor)
    (refused : call.refusal? id = some error) :
    after = machine.pass (.resuming id body (.error error)) ∨
      after.control = .returning id ∧ after.fate = machine.fate ∧
        after.dismissed id = after.pass (.resuming id body (.error error)) := by
  cases performs with
  | @announce pending operation prepared prepares =>
      right
      have ended : prepared.ended = true := (congrArg Fate.ended prepares.fate).trans ended
      have placed : prepared.reach id operation (.waiting pending body) =
          (prepared.setStage id (.waiting pending body)).pass (.returning id) := if_pos ended
      have same : error = .terminated := by
        cases prepares with
        | create | send | joinOver | join | yield | awaitDeadlock =>
            exact (Option.some.inj refused).symm
        | ready | park => exact ((if_pos rfl).symm.trans (Option.some.inj refused)).symm
      have begun : ∀ answer, pending ≠ .start answer := by
        cases prepares <;> exact fun _ => nofun
      obtain ⟨prepared_actor, known, -, -⟩ := prepares.spares.kept id actor there
      have waits := get?_setStage prepared id id (.waiting pending body)
      rw [known, Option.map_some, if_pos rfl] at waits
      rw [placed, same]
      exact ⟨rfl, prepares.fate, dismissed_of_called waits begun⟩
  | reply replies =>
      left
      cases replies with
      | refuse foreign =>
          have same : error = .notOwner _ id :=
            (Option.some.inj refused).symm.trans (if_neg foreign)
          rw [same]
      | mailbox | rename | note | noteStatuses | cancel | stray | pause => cases refused

theorem kept_iterate
    (program : Program σ μ) (sane : machine.Sane) (ended : machine.ended = true) (steps : Nat) :
    Still machine ((Machine.next program)^[steps] machine) ∧
      ((Machine.next program)^[steps] machine).trace = machine.trace := by
  induction steps generalizing machine with
  | zero => exact ⟨fun _ => rfl, rfl⟩
  | succ steps induction =>
      have onward := onward_next program sane
      obtain ⟨still, trace⟩ := induction (onward.sane sane) (onward.ended ended)
      exact ⟨(still_next program sane (.inl ended)).trans still,
        trace.trans (trace_next program machine)⟩

theorem gives_perform_join (ended : machine.ended = true) (strict : Bool) :
    (perform id body (.join other strict)).Gives machine ()
      (machine.pass (.resuming id body (.error .terminated))) := by
  apply gives_get_bind
  rw [if_pos ended]
  exact gives_reply id body _

/-- After the end, every call that waits for something is refused, unless the owner of an empty
mailbox receives from it while it is disabled. -/
theorem refuses_of_calls
    (sane : machine.Sane) (ended : machine.ended = true)
    (calls : machine.Calls program id call next) (refused : call.refusal? id = some error)
    (genuine : ∀ address, call = .receive address → machine.Genuine address)
    (alert : ¬ (machine.Disabled id ∧ machine.Starves id call)) :
    ∃ steps, 0 < steps ∧ steps ≤ 2 ∧
      machine.Refuses ((Machine.next program)^[steps] machine) id next error := by
  obtain ⟨body, reply, control, acts⟩ := calls
  have stepped : machine.next program = _ := next_of_resuming control
  rw [acts] at stepped
  obtain ⟨actor, known⟩ := exists_get? (sane.present id (by rw [control]; rfl))
  have there := get?_setStage machine id id .running
  rw [known, Option.map_some, if_pos rfl] at there
  have came : machine.next program =
        (machine.setStage id .running).pass (.resuming id next (.error error)) ∨
      (machine.next program).control = .returning id ∧
        (machine.next program).fate = machine.fate ∧
        (machine.next program).dismissed id =
          (machine.next program).pass (.resuming id next (.error error)) := by
    by_cases joins : ∃ other strict, call = .join other strict
    · obtain ⟨other, strict, rfl⟩ := joins
      cases refused
      have ended : (machine.setStage id .running).ended = true := ended
      exact .inl (stepped.trans (run_workFor_of_gives (gives_perform_join ended strict) _))
    · have ready : actor.record.enabled = true ∨ ∀ address box, call = .receive address →
          machine.mailboxes[address.slot]? = some box → box.owner = id → box.messages ≠ [] := by
        refine or_iff_not_imp_left.mpr fun disabled address box same found mine empty => ?_
        obtain ⟨other, again, owned⟩ := genuine address same
        cases found.symm.trans again
        exact alert ⟨⟨_, known, Bool.of_not_eq_true disabled⟩, address, same,
          owned.symm.trans mine, (queue_of_found found owned).trans empty⟩
      obtain ⟨after, performs, gives⟩ := exists_performs there next call genuine ready
        fun other strict same => joins ⟨other, strict, same⟩
      rw [stepped.trans (run_workFor_of_gives gives _)]
      exact performs.refuses ended there refused
  have kept := kept_iterate program sane ended
  rcases came with same | ⟨returns, fate, dismissed⟩
  · refine ⟨1, Nat.one_pos, by omega, ?_, (kept 1).1, (kept 1).2, ?_⟩
    · rw [Function.iterate_one, same]
      rfl
    · rw [Function.iterate_one, same]
      rfl
  · have onward := onward_next program sane
    have same := next_of_ended program returns (onward.ended ended)
      ((onward.sane sane).present id (by rw [returns]; rfl))
    rw [dismissed] at same
    refine ⟨2, Nat.two_pos, Nat.le_refl 2, ?_, (kept 2).1, (kept 2).2, ?_⟩
    · exact congrArg Machine.control same
    · exact (congrArg Machine.fate same).trans fate

theorem outcome_of_starved
    {address : Address} {box : Mailbox μ} {actor : Actor σ μ}
    (found : machine.mailboxes[address.slot]? = some box) (empty : box.messages = [])
    (there : machine.actors.get? address.owner = some actor)
    (disabled : actor.record.enabled = false) (log : Log) :
    ((prepareReceive address).outcome (machine, log)).1 =
      (.error (.disabledReceiver address.owner), machine) := by
  obtain ⟨written, looked⟩ := gives_mailbox found log
  obtain ⟨read, recorded⟩ := gives_record there written
  rw [prepareReceive, outcome_bind, show (mailbox address).outcome _ = _ from looked]
  simp only [empty]
  rw [outcome_bind, show (record address.owner).outcome _ = _ from recorded]
  simp only [disabled]
  rfl

/-- A disabled owner that receives from an empty mailbox is taken for one that runs while it waits,
and crashes. -/
theorem crashes_of_starves
    (calls : machine.Calls program id call next)
    (genuine : ∀ address, call = .receive address → machine.Genuine address)
    (starves : machine.Starves id call) (disabled : machine.Disabled id) :
    (machine.next program).crashes = (id, .disabledReceiver id) :: machine.crashes := by
  obtain ⟨address, rfl, rfl, empty⟩ := starves
  obtain ⟨body, reply, control, acts⟩ := calls
  obtain ⟨box, found, owned⟩ := genuine address rfl
  rw [queue_of_found found owned] at empty
  obtain ⟨actor, known, disabled⟩ := disabled
  have there := get?_setStage machine address.owner address.owner .running
  rw [known, Option.map_some, if_pos rfl] at there
  have found : (machine.setStage address.owner .running).mailboxes[address.slot]? = some box := found
  have failed := outcome_of_starved found empty there disabled (.empty .trace)
  rw [next_of_resuming control, acts, act, run_workFor, perform, if_neg (not_not_intro rfl),
    outcome_bind]
  generalize (prepareReceive address).outcome _ = outcome at failed ⊢
  obtain ⟨⟨result, between⟩, written⟩ := outcome
  cases failed
  have engine : (Fault.disabledReceiver address.owner).isEngine = true := rfl
  exact crashes_crash (machine.setStage address.owner .running) address.owner engine written

end Refusal

end Machine

end Interleave
