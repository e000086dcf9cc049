import Interleave.Proofs.Machine.Wakeups

namespace Interleave

variable {σ μ : Type}

def Action.result? : Action σ μ → Option (Except ActorError Unit)
  | .call _ _ => none
  | .return result => some result
  | .panic payload => some (.error (.ofPanic payload))

inductive Call.Uses : Call σ μ → Address → Prop
  | send (address : Address) (message : μ) : Call.Uses (.send address message) address
  | receive (address : Address) : Call.Uses (.receive address) address

inductive Pending.Uses : Pending σ μ → Address → Prop
  | send (address : Address) (message : μ) : Pending.Uses (.send address message) address
  | receive (address : Address) : Pending.Uses (.receive address) address

namespace Machine

open Attempt

variable {program : Program σ μ} {machine after : Machine σ μ} {id other : ActorId}
  {actor : Actor σ μ} {address : Address}

/-- There is a mailbox at this address, and it belongs to the owner that the address names. -/
def Genuine (machine : Machine σ μ) (address : Address) : Prop :=
  ∃ box, machine.mailboxes[address.slot]? = some box ∧ box.owner = address.owner

/-- What a call that is a scheduling point does before it, what the actor does after it, and the
operation that it announces. -/
inductive Prepares (machine : Machine σ μ) (id : ActorId) :
    Call σ μ → Pending σ μ → Operation → Machine σ μ → Prop
  | create (name : Option String) (child : σ) :
      Prepares machine id (.create name child) (.create name child) .create machine
  | send (address : Address) (message : μ) :
      Prepares machine id (.send address message) (.send address message) (.send address.owner)
        machine
  | ready {slot : Nat} {box : Mailbox μ} {head : Envelope μ} {rest : List (Envelope μ)}
      (found : machine.mailboxes[slot]? = some box) (owned : box.owner = id)
      (queue : box.messages = head :: rest) :
      Prepares machine id (.receive ⟨id, slot⟩) (.receive ⟨id, slot⟩) (.receive id)
        (machine.modifyRecord id fun record => { record with sendStep := some head.sendStep })
  | park {slot : Nat} {box : Mailbox μ}
      (found : machine.mailboxes[slot]? = some box) (owned : box.owner = id)
      (queue : box.messages = []) :
      Prepares machine id (.receive ⟨id, slot⟩) (.receive ⟨id, slot⟩) (.receive id)
        (machine.park ⟨id, slot⟩)
  | joinOver {other : ActorId} (strict : Bool) (terminated : machine.Over other) :
      Prepares machine id (.join other strict) (.join other strict) (.join other) machine
  | join {other : ActorId} {target : Actor σ μ} (strict : Bool)
      (there : machine.actors.get? other = some target)
      (living : target.record.terminated = false) :
      Prepares machine id (.join other strict) (.join other strict) (.join other)
        ((machine.modifyRecord other fun record =>
          { record with waiters := record.waiters ++ [id] }).modifyRecord id Record.disable)
  | yield :
      Prepares machine id .yield .pass (.yield id)
        (machine.modifyRecord id fun record =>
          { record with enabled := false, yielded := true })
  | awaitDeadlock :
      Prepares machine id .awaitDeadlock .pass (.awaitDeadlock id)
        (machine.modifyRecord id fun record =>
          { record with enabled := false, awaitingDeadlock := true })

inductive Replies (machine : Machine σ μ) (id : ActorId) :
    Call σ μ → Reply μ → Machine σ μ → Prop
  | mailbox :
      Replies machine id .mailbox (.ok (.mailbox ⟨id, machine.mailboxes.size⟩))
        (machine.withMailbox id)
  | refuse {address : Address} (foreign : id ≠ address.owner) :
      Replies machine id (.receive address) (.error (.notOwner address.owner id)) machine
  | rename (name : String) :
      Replies machine id (.rename name) (.ok .done)
        (machine.modifyRecord id fun record => { record with name := some name })
  | note (value : μ) :
      Replies machine id (.note value) (.ok .done) (machine.takeNote (.value value))
  | noteStatuses :
      Replies machine id .noteStatuses (.ok .done) (machine.takeNote (.statuses machine.statuses))
  | cancel : Replies machine id .cancel (.ok .done) machine
  | stray : Replies machine id .stray (.ok .done) machine
  | pause : Replies machine id .pause (.ok .done) machine

inductive Performs (machine : Machine σ μ) (id : ActorId) (body : σ) (call : Call σ μ) :
    Machine σ μ → Prop
  | announce {pending : Pending σ μ} {operation : Operation} {prepared : Machine σ μ}
      (prepares : Prepares machine id call pending operation prepared) :
      Performs machine id body call (prepared.reach id operation (.waiting pending body))
  | reply {reply : Reply μ} {after : Machine σ μ} (replies : Replies machine id call reply after) :
      Performs machine id body call (after.pass (.resuming id body reply))

/-- What a call does after its scheduling point, and its reply. -/
inductive Completes (machine : Machine σ μ) : Pending σ μ → Reply μ → Machine σ μ → Prop
  | start (answer : Answer μ) : Completes machine (.start answer) (.ok answer) machine
  | create (name : Option String) (child : σ) :
      Completes machine (.create name child)
        (.ok (.mailbox ⟨machine.actors.nextKey, machine.mailboxes.size⟩))
        (machine.withActor name child)
  | send {address : Address} {box : Mailbox μ} (message : μ)
      (found : machine.mailboxes[address.slot]? = some box) (owned : box.owner = address.owner)
      (free : box.receiverParked = false) :
      Completes machine (.send address message) (.ok .done) (machine.post address message)
  | wake {address : Address} {box : Mailbox μ} (message : μ)
      (found : machine.mailboxes[address.slot]? = some box) (owned : box.owner = address.owner)
      (parked : box.receiverParked = true) :
      Completes machine (.send address message) (.ok .done)
        ((machine.post address message).wakeReceiver address)
  | receive {address : Address} {box : Mailbox μ} {head : Envelope μ} {rest : List (Envelope μ)}
      (found : machine.mailboxes[address.slot]? = some box) (owned : box.owner = address.owner)
      (queue : box.messages = head :: rest) :
      Completes machine (.receive address) (.ok (.message head.message)) (machine.drop address)
  | join {other : ActorId} {target : Actor σ μ} (strict : Bool)
      (there : machine.actors.get? other = some target)
      (terminated : target.record.terminated = true) :
      Completes machine (.join other strict)
        (if strict && !target.record.faults.isEmpty then
          .error (.joined other target.record.faults)
        else .ok .done) machine
  | pass : Completes machine .pass (.ok .done) machine

theorem gives_await
    (id : ActorId) (operation : Operation) (pending : Pending σ μ) (body : σ) :
    (await id operation pending body).Gives machine ()
      (machine.reach id operation (.waiting pending body)) :=
  gives_modify _

theorem gives_reply (id : ActorId) (body : σ) (answer : Reply μ) :
    (reply id body answer).Gives machine () (machine.pass (.resuming id body answer)) :=
  gives_modify _

/-- A call does not fault, unless it is a join, or an actor that is disabled waits for a message. -/
theorem exists_performs
    (there : machine.actors.get? id = some actor) (body : σ) (call : Call σ μ)
    (genuine : ∀ address, call = .receive address → machine.Genuine address)
    (enabled : actor.record.enabled = true ∨ ∀ address box, call = .receive address →
      machine.mailboxes[address.slot]? = some box → box.owner = id → box.messages ≠ [])
    (alone : ∀ other strict, call ≠ .join other strict) :
    ∃ after, Performs machine id body call after ∧ (perform id body call).Gives machine () after := by
  cases call with
  | create name child => exact ⟨_, .announce (.create name child), gives_await id _ _ body⟩
  | mailbox =>
      refine ⟨_, .reply .mailbox, ?_⟩
      exact .bind (gives_addMailbox id) (gives_reply id body _)
  | send address message => exact ⟨_, .announce (.send address message), gives_await id _ _ body⟩
  | receive address =>
      by_cases own : id = address.owner
      · obtain ⟨box, found, owned⟩ := genuine address rfl
        obtain ⟨owner, slot⟩ := address
        subst own
        rw [perform, if_neg (not_not_intro rfl)]
        cases queue : box.messages with
        | nil =>
            have enabled : actor.record.enabled = true :=
              enabled.resolve_right fun ready => ready _ box rfl found owned queue
            refine ⟨_, .announce (.park found owned queue), ?_⟩
            exact .bind (gives_prepareReceive_empty found queue there enabled)
              (gives_await id _ _ body)
        | cons head rest =>
            refine ⟨_, .announce (.ready found owned queue), ?_⟩
            exact .bind (gives_prepareReceive_ready found queue) (gives_await id _ _ body)
      · refine ⟨_, .reply (.refuse own), ?_⟩
        rw [perform, if_pos own]
        exact gives_reply id body _
  | join other strict => exact absurd rfl (alone other strict)
  | yield =>
      exact ⟨_, .announce .yield, .bind (gives_changeRecord id _) (gives_await id _ _ body)⟩
  | awaitDeadlock =>
      exact ⟨_, .announce .awaitDeadlock,
        .bind (gives_changeRecord id _) (gives_await id _ _ body)⟩
  | rename name =>
      exact ⟨_, .reply (.rename name), .bind (gives_changeRecord id _) (gives_reply id body _)⟩
  | cancel => exact ⟨_, .reply .cancel, .bind (gives_log _) (gives_reply id body _)⟩
  | stray => exact ⟨_, .reply .stray, .bind (gives_log _) (gives_reply id body _)⟩
  | note value => exact ⟨_, .reply (.note value), .bind (gives_modify _) (gives_reply id body _)⟩
  | noteStatuses =>
      exact ⟨_, .reply .noteStatuses, .bind (gives_modify _) (gives_reply id body _)⟩
  | pause => exact ⟨_, .reply .pause, gives_reply id body _⟩

theorem exists_performs_of_call
    (going : machine.ended = false) (there : machine.actors.get? id = some actor)
    (enabled : actor.record.enabled = true) (body : σ) (call : Call σ μ)
    (genuine : ∀ address, call.Uses address → machine.Genuine address)
    (known : ∀ other strict, call = .join other strict →
      ∃ target, machine.actors.get? other = some target) :
    ∃ after, Performs machine id body call after ∧ (perform id body call).Gives machine () after := by
  by_cases joins : ∃ other strict, call = .join other strict
  · obtain ⟨other, strict, rfl⟩ := joins
    obtain ⟨target, present⟩ := known other strict rfl
    cases terminated : target.record.terminated with
    | true =>
        refine ⟨_, .announce (.joinOver strict ⟨target, present, terminated⟩), ?_⟩
        apply gives_get_bind
        rw [going]
        exact .bind (gives_prepareJoin_over present terminated id) (gives_await id _ _ body)
    | false =>
        refine ⟨_, .announce (.join strict present terminated), ?_⟩
        apply gives_get_bind
        rw [going]
        exact .bind (gives_prepareJoin_living present terminated id) (gives_await id _ _ body)
  · refine exists_performs there body call ?_ (.inl enabled)
      fun other strict same => joins ⟨other, strict, same⟩
    rintro address rfl
    exact genuine address (.receive address)

theorem exists_completes
    {current : ActorId} {record : Record} {pending : Pending σ μ} {body : σ}
    (coherent : machine.Coherent current)
    (there : machine.actors.get? id = some ⟨record, .waiting pending body⟩)
    (enabled : record.enabled = true)
    (genuine : ∀ address, pending.Uses address → machine.Genuine address) :
    ∃ answer after, Completes machine pending answer after ∧
      (complete pending).Gives machine answer after := by
  cases pending with
  | start answer => exact ⟨_, _, .start answer, gives_pure _⟩
  | create name child =>
      exact ⟨_, _, .create name child, .bind (gives_addActor name child) (gives_pure _)⟩
  | send address message =>
      obtain ⟨box, found, owned⟩ := genuine address (.send address message)
      cases parked : box.receiverParked with
      | false =>
          exact ⟨_, _, .send message found owned parked,
            .bind (gives_deliver_free found parked) (gives_pure _)⟩
      | true =>
          have waits := (coherent.parked address.slot box found).mp parked
          obtain ⟨owner, present, waiting⟩ := exists_of_wait? waits
          have disabled := Actor.enabled_of_wait? waiting
          rw [owned] at present
          exact ⟨_, _, .wake message found owned parked,
            .bind (gives_deliver_parked found parked present disabled) (gives_pure _)⟩
  | receive address =>
      have own : address.owner = id := by
        cases coherent.proper id _ there with
        | free flags announced living => exact announced.2
        | parked flags announced => rfl
        | gone flags announced stopped => cases stopped
      obtain ⟨owner, slot⟩ := address
      subst own
      obtain ⟨box, head, rest, found, owned, queue, -⟩ :=
        coherent.queued _ _ slot there ⟨enabled, body, rfl⟩
      exact ⟨_, _, .receive found owned queue,
        .bind (gives_takeMessage found queue) (gives_pure _)⟩
  | join other strict =>
      obtain ⟨target, present, terminated⟩ :=
        coherent.joined id _ other there ⟨enabled, strict, body, rfl⟩
      exact ⟨_, _, .join strict present terminated, gives_joined present terminated strict⟩
  | pass => exact ⟨_, _, .pass, gives_pure _⟩

inductive Settles (machine : Machine σ μ) (id : ActorId) : Machine σ μ → Prop
  | keep (bug : Option ActorError) : Settles machine id { machine with bug := bug }
  | fault (error : ActorError) : Settles machine id (machine.modifyRecord id (Record.addFault error))
  | cancel :
      Settles machine id (machine.modifyRecord id fun record =>
        { record.addFault .cancelled with cancelled := true })

/-- A transition where no decision is due. -/
inductive Moves (program : Program σ μ) (machine : Machine σ μ) : Machine σ μ → Prop
  | ends {after : Machine σ μ} (ended : after.ended = true) : Moves program machine after
  | call {id : ActorId} {body next : σ} {reply : Reply μ} {call : Call σ μ} {after : Machine σ μ}
      (control : machine.control = .resuming id body reply)
      (acts : program.resume ((machine.setStage id .running).view id) body reply = .call call next)
      (performs : Performs (machine.setStage id .running) id next call after) :
      Moves program machine after
  | close {id : ActorId} {body : σ} {reply : Reply μ}
      (control : machine.control = .resuming id body reply) (result : Except ActorError Unit)
      (acts : (program.resume ((machine.setStage id .running).view id) body reply).result? =
        some result) :
      Moves program machine ((machine.setStage id .running).pass (.closing id result))
  | complete {id : ActorId} {record : Record} {pending : Pending σ μ} {body : σ} {answer : Reply μ}
      {after : Machine σ μ} (control : machine.control = .returning id)
      (there : machine.actors.get? id = some ⟨record, .waiting pending body⟩)
      (completes : Completes machine pending answer after) :
      Moves program machine (after.pass (.resuming id body answer))
  | finish {id : ActorId} {record : Record} (control : machine.control = .returning id)
      (there : machine.actors.get? id = some ⟨record, .ending false⟩) :
      Moves program machine ((machine.finish id).reach id (.stop id) (.ending true))
  | settle {id : ActorId} {result : Except ActorError Unit} {after : Machine σ μ}
      (control : machine.control = .closing id result)
      (calm : ∀ text, result ≠ .error (.panicked text)) (settles : Settles machine id after) :
      Moves program machine (after.reach id (.stop id) (.ending false))

/-- The actor has control, and its body is about to learn the reply to its call. -/
def Ready (machine : Machine σ μ) (id : ActorId) : Prop :=
  (machine.setStage id .running).Coherent id

/-- Where no actor is enabled, nobody waits for progress or for a deadlock any more. -/
def Released (machine : Machine σ μ) : Prop :=
  (∀ id actor, machine.actors.get? id = some actor → actor.record.enabled = false) →
    ∀ id, machine.wait? id ≠ some .progress ∧ machine.wait? id ≠ some .deadlock

def Placed (machine : Machine σ μ) (id : ActorId) : Prop :=
  ∀ actor, machine.actors.get? id = some actor → actor.stage ≠ .running

/-- Who waits for what is coherent with where control is. A body that panicked ends the execution
in the next transition. -/
inductive Consistent (machine : Machine σ μ) : Prop
  | resuming {id : ActorId} {body : σ} {reply : Reply μ}
      (control : machine.control = .resuming id body reply) (ready : machine.Ready id)
  | choosing {id : ActorId} (control : machine.control = .choosing id)
      (coherent : machine.Coherent id) (released : machine.Released) (placed : machine.Placed id)
  | returning {id : ActorId} {actor : Actor σ μ} (control : machine.control = .returning id)
      (coherent : machine.Coherent id) (there : machine.actors.get? id = some actor)
      (enabled : actor.record.enabled = true) (placed : actor.stage ≠ .running)
  | closing {id : ActorId} {result : Except ActorError Unit}
      (control : machine.control = .closing id result) (ready : machine.Ready id)
  | panicking {id : ActorId} {text : String}
      (control : machine.control = .closing id (.error (.panicked text)))

/-- Nobody uses a mailbox that does not exist, or in the name of a wrong owner. -/
structure Honest (program : Program σ μ) (machine : Machine σ μ) : Prop where
  called : ∀ id body reply call next address, machine.control = .resuming id body reply →
    program.resume ((machine.setStage id .running).view id) body reply = .call call next →
    call.Uses address → machine.Genuine address
  placed : ∀ id record pending body address,
    machine.actors.get? id = some ⟨record, .waiting pending body⟩ → pending.Uses address →
    machine.Genuine address

theorem run_workFor_of_gives
    {work : Attempt (Machine σ μ) Unit} (gives : work.Gives machine () after) (log : Log) :
    ((workFor id work machine).run log).1 = after := by
  obtain ⟨written, returned⟩ := gives log
  rw [run_workFor, show work.outcome (machine, log) = _ from returned]

theorem ended_handOn (machine : Machine σ μ) : machine.handOn.ended = machine.ended := by
  obtain ⟨control, same, -⟩ := exists_handOn_eq machine
  rw [same]
  rfl

theorem ended_crash
    {fault : Fault} (machine : Machine σ μ) (id : ActorId) (engine : fault.isEngine = true)
    (log : Log) : ((machine.crash id fault).run log).1.ended = true := by
  simp only [crash, engine, Bool.not_true, Bool.and_false, if_true]
  exact ended_handOn _

theorem outcome_of_unknown
    (going : machine.ended = false) (unknown : machine.actors.get? other = none)
    (strict : Bool) (body : σ) (log : Log) :
    (perform id body (.join other strict)).outcome (machine, log) =
      ((.error (.unknownActor other), machine), log) := by
  rw [perform, outcome_get_bind]
  simp only [going]
  change (prepareJoin id other >>= _).outcome (machine, log) = _
  rw [outcome_bind, prepareJoin, outcome_get_bind]
  simp only [unknown]
  rfl

/-- To join an actor that does not exist ends the execution. -/
theorem ended_of_unknown
    (going : machine.ended = false) (unknown : machine.actors.get? other = none)
    (strict : Bool) (body : σ) (log : Log) :
    ((workFor id (perform id body (.join other strict)) machine).run log).1.ended = true := by
  rw [run_workFor, outcome_of_unknown going unknown]
  exact ended_crash machine id rfl log

theorem settles_of_settle
    (machine : Machine σ μ) (id : ActorId) (result : Except ActorError Unit) (log : Log) :
    (Settles machine id ((settle id result machine).run log).1 ∧
      ∀ text, result ≠ .error (.panicked text)) ∨
      ((settle id result machine).run log).1.ended = true := by
  unfold settle
  split
  · exact .inl ⟨.keep machine.bug, fun _ => nofun⟩
  · refine .inl ⟨?_, fun _ => nofun⟩
    split
    · unfold reportBug
      split
      · exact .keep machine.bug
      · exact .keep (some .deadlock)
    · exact .keep machine.bug
  · exact .inl ⟨.cancel, fun _ => nofun⟩
  · rename_i error _ _
    split
    · exact .inr rfl
    · rename_i mild
      refine .inl ⟨.fault error, ?_⟩
      rintro text same
      cases same
      exact mild (.inr rfl)

theorem ended_reach
    (ended : machine.ended = true) (operation : Operation) (stage : Stage σ μ) :
    (machine.reach id operation stage).ended = true := by
  have placed : (machine.setStage id stage).ended = true := ended
  unfold reach
  rw [if_pos ended]
  exact placed

theorem ended_settle_panicked (machine : Machine σ μ) (id : ActorId) (text : String) (log : Log) :
    ((settle id (.error (.panicked text)) machine).run log).1.ended = true := by
  simp only [settle]
  split
  · rfl
  · rename_i differs
    exact absurd (.inr rfl) differs

theorem Ready.exists_running (ready : machine.Ready id) :
    ∃ record, (machine.setStage id .running).actors.get? id = some ⟨record, .running⟩ ∧
      record.Flags true false false false := by
  obtain ⟨⟨record, stage⟩, there⟩ := ready.present
  have proper := ready.proper id _ there
  rw [get?_setStage] at there
  obtain ⟨before, known, same⟩ := Option.map_eq_some_iff.mp there
  rw [if_pos rfl] at same
  cases same
  cases proper with
  | free flags announced living =>
      refine ⟨before.record, ?_, flags⟩
      rw [get?_setStage, known, Option.map_some, if_pos rfl]
  | gone flags announced stopped => cases stopped

theorem next_of_resuming
    {body : σ} {reply : Reply μ} (control : machine.control = .resuming id body reply) :
    machine.next program =
      ((workFor id (act id (program.resume ((machine.setStage id .running).view id) body reply))
        (machine.setStage id .running)).run (.empty .trace)).1 := by
  unfold next tick
  rw [control]

theorem moves_of_resuming
    {body : σ} {reply : Reply μ} (control : machine.control = .resuming id body reply)
    (ready : machine.Ready id) (going : machine.ended = false) (honest : machine.Honest program) :
    Moves program machine (machine.next program) := by
  obtain ⟨record, there, flags⟩ := ready.exists_running
  have still : (machine.setStage id .running).ended = false := going
  rw [next_of_resuming control]
  cases acts : program.resume ((machine.setStage id .running).view id) body reply with
  | call call next =>
      by_cases unknown : ∃ other strict, call = .join other strict ∧
          (machine.setStage id .running).actors.get? other = none
      · obtain ⟨other, strict, rfl, absent⟩ := unknown
        exact .ends (ended_of_unknown still absent strict next _)
      · have known : ∀ other strict, call = .join other strict →
            ∃ target, (machine.setStage id .running).actors.get? other = some target := by
          intro other strict same
          cases present : (machine.setStage id .running).actors.get? other with
          | none => exact absurd ⟨other, strict, same, present⟩ unknown
          | some target => exact ⟨target, rfl⟩
        obtain ⟨after, performs, gives⟩ := exists_performs_of_call still there flags.enabled next
          call (fun address => honest.called id body reply call next address control acts) known
        rw [show ((workFor id (act id (.call call next)) _).run _).1 = after from
          run_workFor_of_gives gives _]
        exact .call control acts performs
  | «return» result => exact .close control result (by rw [acts]; rfl)
  | panic payload => exact .close control _ (by rw [acts]; rfl)

/-- An actor that has control again completes its call, or its end. -/
inductive Proceeds (machine : Machine σ μ) (id : ActorId) : Machine σ μ → Prop
  | complete {record : Record} {pending : Pending σ μ} {body : σ} {answer : Reply μ}
      {after : Machine σ μ} (there : machine.actors.get? id = some ⟨record, .waiting pending body⟩)
      (completes : Completes machine pending answer after) :
      Proceeds machine id (after.pass (.resuming id body answer))
  | finish {record : Record} (there : machine.actors.get? id = some ⟨record, .ending false⟩) :
      Proceeds machine id ((machine.finish id).reach id (.stop id) (.ending true))

theorem Proceeds.moves
    (proceeds : Proceeds machine id after) (control : machine.control = .returning id) :
    Moves program machine after := by
  cases proceeds with
  | complete there completes => exact .complete control there completes
  | finish there => exact .finish control there

theorem exists_proceeds
    (coherent : machine.Coherent id) (there : machine.actors.get? id = some actor)
    (enabled : actor.record.enabled = true) (placed : actor.stage ≠ .running)
    (going : machine.ended = false) (honest : machine.Honest program) :
    ∃ after, (proceed id).Gives machine () after ∧ Proceeds machine id after := by
  have living : actor.stage.isOver = false := by
    cases coherent.proper id _ there with
    | free flags announced living => exact living
    | gone flags announced stopped =>
        rw [flags.enabled] at enabled
        cases enabled
    | _ => rfl
  obtain ⟨record, stage⟩ := actor
  cases stage with
  | running => exact absurd rfl placed
  | waiting pending body =>
      obtain ⟨answer, after, completes, gives⟩ := exists_completes coherent there enabled
        fun address => honest.placed id record pending body address there
      refine ⟨_, ?_, .complete there completes⟩
      apply gives_get_bind
      apply Gives.bind (gives_get_actor there)
      simp only [going]
      exact .bind gives (gives_reply id body answer)
  | ending terminated =>
      cases terminated with
      | true => cases living
      | false =>
          refine ⟨_, ?_, .finish there⟩
          apply gives_get_bind
          apply Gives.bind (gives_get_actor there)
          simp only [going]
          exact gives_set _
  | ended => cases living

theorem proceeds_next
    (control : machine.control = .returning id) (coherent : machine.Coherent id)
    (there : machine.actors.get? id = some actor) (enabled : actor.record.enabled = true)
    (placed : actor.stage ≠ .running) (going : machine.ended = false)
    (honest : machine.Honest program) : Proceeds machine id (machine.next program) := by
  obtain ⟨after, gives, proceeds⟩ := exists_proceeds coherent there enabled placed going honest
  have once : machine.next program = after := by
    unfold next tick
    rw [control]
    exact run_workFor_of_gives gives _
  rw [once]
  exact proceeds

theorem moves_next
    (consistent : machine.Consistent) (going : machine.ended = false)
    (honest : machine.Honest program) (undecided : ∀ id, machine.control ≠ .choosing id) :
    Moves program machine (machine.next program) := by
  cases consistent with
  | resuming control ready => exact moves_of_resuming control ready going honest
  | choosing control => exact absurd control (undecided _)
  | returning control coherent there enabled placed =>
      exact (proceeds_next control coherent there enabled placed going honest).moves control
  | @closing id result control ready =>
      unfold next tick
      rw [control]
      rcases settles_of_settle machine id result (.empty .trace) with ⟨settles, calm⟩ | ended
      · exact .settle control calm settles
      · exact .ends (ended_reach ended _ _)
  | @panicking id text control =>
      unfold next tick
      rw [control]
      exact .ends (ended_reach (ended_settle_panicked machine id text _) _ _)

end Machine

end Interleave
