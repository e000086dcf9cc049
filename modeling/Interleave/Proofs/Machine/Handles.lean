import Interleave.Proofs.Machine.Consistency

namespace Interleave

structure Handles (σ μ : Type) where
  held : σ → Address → Prop
  carried : μ → Address → Prop

variable {σ μ : Type}

namespace Handles

def inReply (handles : Handles σ μ) : Reply μ → Address → Prop
  | .ok (.mailbox known), address => known = address
  | .ok (.message message), address => handles.carried message address
  | .ok .done, _ | .error _, _ => False

/-- The handles that a body gives away in a call. -/
def inCall (handles : Handles σ μ) : Call σ μ → Address → Prop
  | .create _ child, address => handles.held child address
  | .send known message, address => known = address ∨ handles.carried message address
  | .receive known, address => known = address
  | _, _ => False

def inAction (handles : Handles σ μ) : Action σ μ → Address → Prop
  | .call call next, address => handles.inCall call address ∨ handles.held next address
  | .return _, _ | .panic _, _ => False

def inPending (handles : Handles σ μ) : Pending σ μ → Address → Prop
  | .start answer, address => handles.inReply (.ok answer) address
  | .create _ child, address => handles.held child address
  | .send known message, address => known = address ∨ handles.carried message address
  | .receive known, address => known = address
  | .join .., _ | .pass, _ => False

def inStage (handles : Handles σ μ) : Stage σ μ → Address → Prop
  | .waiting pending body, address => handles.inPending pending address ∨ handles.held body address
  | .running, _ | .ending _, _ | .ended, _ => False

def inControl (handles : Handles σ μ) : Control σ μ → Address → Prop
  | .resuming _ body reply, address => handles.held body address ∨ handles.inReply reply address
  | _, _ => False

end Handles

/-- The root starts without handles, and a body has only those that it had before or that came with
the reply. -/
structure Program.Discreet (program : Program σ μ) (handles : Handles σ μ) : Prop where
  root : ∀ number address, ¬ handles.held (program.root number) address
  resume : ∀ view body reply address,
    handles.inAction (program.resume view body reply) address →
      handles.held body address ∨ handles.inReply reply address

namespace Machine

variable {program : Program σ μ} {handles : Handles σ μ} {machine middle after : Machine σ μ}
  {id other : ActorId} {actor : Actor σ μ} {address : Address}

/-- Every handle that is anywhere in the machine belongs to a mailbox and names its owner. -/
structure Guarded (handles : Handles σ μ) (machine : Machine σ μ) : Prop where
  control : ∀ address, handles.inControl machine.control address → machine.Genuine address
  stages : ∀ id actor address, machine.actors.get? id = some actor →
    handles.inStage actor.stage address → machine.Genuine address
  messages : ∀ (slot : Nat) box envelope address, machine.mailboxes[slot]? = some box →
    envelope ∈ box.messages → handles.carried envelope.message address → machine.Genuine address

structure Spreads (handles : Handles σ μ) (machine after : Machine σ μ) : Prop where
  genuine : ∀ address, machine.Genuine address → after.Genuine address
  stages : ∀ id actor, after.actors.get? id = some actor →
    (∃ before, machine.actors.get? id = some before ∧ before.stage = actor.stage) ∨
      ∀ address, handles.inStage actor.stage address → after.Genuine address
  messages : ∀ (slot : Nat) box envelope, after.mailboxes[slot]? = some box →
    envelope ∈ box.messages →
      (∃ before, machine.mailboxes[slot]? = some before ∧ envelope ∈ before.messages) ∨
        ∀ address, handles.carried envelope.message address → after.Genuine address

theorem Spreads.trans
    (first : Spreads handles machine middle) (rest : Spreads handles middle after) :
    Spreads handles machine after where
  genuine address genuine := rest.genuine address (first.genuine address genuine)
  stages := by
    intro id actor there
    rcases rest.stages id actor there with ⟨between, known, same⟩ | fresh
    · rcases first.stages id between known with ⟨before, known, still⟩ | fresh
      · exact .inl ⟨before, known, still.trans same⟩
      · right
        intro address held
        rw [← same] at held
        exact rest.genuine address (fresh address held)
    · exact .inr fresh
  messages := by
    intro slot box envelope found member
    rcases rest.messages slot box envelope found member with ⟨between, known, queued⟩ | fresh
    · rcases first.messages slot between envelope known queued with before | fresh
      · exact .inl before
      · exact .inr fun address carried => rest.genuine address (fresh address carried)
    · exact .inr fresh

theorem Guarded.of_spreads
    (guarded : Guarded handles machine) (spreads : Spreads handles machine after)
    (control : ∀ address, handles.inControl after.control address → after.Genuine address) :
    Guarded handles after where
  control := control
  stages := by
    intro id actor address there held
    rcases spreads.stages id actor there with ⟨before, known, same⟩ | fresh
    · rw [← same] at held
      exact spreads.genuine address (guarded.stages id before address known held)
    · exact fresh address held
  messages := by
    intro slot box envelope address found member carried
    rcases spreads.messages slot box envelope found member with ⟨before, known, queued⟩ | fresh
    · exact spreads.genuine address
        (guarded.messages slot before envelope address known queued carried)
    · exact fresh address carried

theorem spreads_of_change
    {change : ActorId → Actor σ μ → Actor σ μ}
    (actors : ∀ id, after.actors.get? id = (machine.actors.get? id).map (change id))
    (mailboxes : after.mailboxes = machine.mailboxes)
    (stages : ∀ id actor, machine.actors.get? id = some actor →
      (change id actor).stage = actor.stage ∨
        ∀ address, handles.inStage (change id actor).stage address → machine.Genuine address) :
    Spreads handles machine after := by
  have genuine : ∀ address, machine.Genuine address → after.Genuine address := by
    intro address genuine
    unfold Genuine
    rw [mailboxes]
    exact genuine
  refine ⟨genuine, ?_, ?_⟩
  · intro id actor there
    obtain ⟨before, known, rfl⟩ := exists_get?_of_change actors there
    rcases stages id before known with same | fresh
    · exact .inl ⟨before, known, same.symm⟩
    · exact .inr fun address held => genuine address (fresh address held)
  · intro slot box envelope found member
    rw [mailboxes] at found
    exact .inl ⟨box, found, member⟩

theorem Spreads.refl (machine : Machine σ μ) : Spreads handles machine machine :=
  spreads_of_change (fun _ => Option.map_id'.symm) rfl fun _ _ _ => .inl rfl

theorem spreads_modifyRecord (machine : Machine σ μ) (id : ActorId) (change : Record → Record) :
    Spreads handles machine (machine.modifyRecord id change) := by
  apply spreads_of_change (get?_modifyRecord machine id · change) rfl
  intro other actor _
  left
  split <;> rfl

theorem spreads_setStage
    {stage : Stage σ μ} (id : ActorId)
    (fresh : ∀ address, handles.inStage stage address → machine.Genuine address) :
    Spreads handles machine (machine.setStage id stage) := by
  apply spreads_of_change (get?_setStage machine id · stage) rfl
  intro other actor _
  split
  · exact .inr fresh
  · exact .inl rfl

theorem spreads_releaseBlocked (machine : Machine σ μ) :
    Spreads handles machine machine.releaseBlocked := by
  obtain ⟨change, -, actors⟩ := exists_release machine
  exact spreads_of_change actors (mailboxes_releaseBlocked machine) fun _ _ _ => .inl rfl

theorem spreads_same (actors : after.actors = machine.actors)
    (mailboxes : after.mailboxes = machine.mailboxes) : Spreads handles machine after :=
  spreads_of_change (fun id => by rw [actors, Option.map_id']) mailboxes fun _ _ _ => .inl rfl

theorem spreads_pass (machine : Machine σ μ) (control : Control σ μ) :
    Spreads handles machine (machine.pass control) :=
  spreads_same rfl rfl

theorem spreads_modifyMailbox
    {slot : Nat} {change : Mailbox μ → Mailbox μ} (owner : ∀ box, (change box).owner = box.owner)
    (messages : ∀ box envelope, envelope ∈ (change box).messages → envelope ∈ box.messages ∨
      ∀ address, handles.carried envelope.message address → machine.Genuine address) :
    Spreads handles machine (machine.modifyMailbox slot change) := by
  have genuine : ∀ address, machine.Genuine address →
      (machine.modifyMailbox slot change).Genuine address := by
    intro address genuine
    obtain ⟨box, found, owned⟩ := genuine
    refine ⟨_, by rw [getElem?_modifyMailbox, found, Option.map_some], ?_⟩
    split
    · rw [owner, owned]
    · exact owned
  refine ⟨genuine, fun id actor there => .inl ⟨actor, there, rfl⟩, ?_⟩
  intro position box envelope found member
  rw [getElem?_modifyMailbox] at found
  obtain ⟨before, known, rfl⟩ := Option.map_eq_some_iff.mp found
  split at member
  · rcases messages before envelope member with old | fresh
    · exact .inl ⟨before, known, old⟩
    · exact .inr fun address carried => genuine address (fresh address carried)
  · exact .inl ⟨before, known, member⟩

theorem spreads_wakeReceiver (machine : Machine σ μ) (address : Address) :
    Spreads handles machine (machine.wakeReceiver address) := by
  unfold wakeReceiver
  refine Spreads.trans ?_ (spreads_modifyRecord _ _ _)
  exact spreads_modifyMailbox (fun _ => rfl) fun _ _ member => .inl member

theorem spreads_withMailbox (machine : Machine σ μ) (owner : ActorId) :
    Spreads handles machine (machine.withMailbox owner) := by
  refine ⟨?_, fun id actor there => .inl ⟨actor, there, rfl⟩, ?_⟩
  · intro address genuine
    obtain ⟨box, found, owned⟩ := genuine
    exact ⟨box, getElem?_withMailbox_of_some owner found, owned⟩
  · intro slot box envelope found member
    rw [getElem?_withMailbox] at found
    split at found
    · cases found
      cases member
    · exact .inl ⟨box, found, member⟩

theorem genuine_withMailbox (machine : Machine σ μ) (owner : ActorId) :
    (machine.withMailbox owner).Genuine ⟨owner, machine.mailboxes.size⟩ :=
  ⟨_, by rw [getElem?_withMailbox, if_pos rfl], rfl⟩

theorem spreads_withActor
    (name : Option String) (child : σ)
    (known : ∀ address, handles.held child address → machine.Genuine address) :
    Spreads handles machine (machine.withActor name child) := by
  have boxed : Spreads handles machine (machine.withMailbox machine.actors.nextKey) :=
    spreads_withMailbox machine machine.actors.nextKey
  refine ⟨boxed.genuine, ?_, boxed.messages⟩
  intro id actor there
  have settled : id = machine.actors.nextKey ∧ actor = _ ∨ machine.actors.get? id = some actor :=
    newcomer_or_settled rfl there
  rcases settled with ⟨-, rfl⟩ | before
  · right
    intro address held
    rcases held with new | held
    · cases new
      exact genuine_withMailbox machine machine.actors.nextKey
    · exact boxed.genuine address (known address held)
  · exact .inl ⟨actor, before, rfl⟩

theorem spreads_reach
    {stage : Stage σ μ} (going : machine.ended = false) (id : ActorId) (operation : Operation)
    (fresh : ∀ address, handles.inStage stage address → machine.Genuine address) :
    Spreads handles machine (machine.reach id operation stage) := by
  obtain ⟨enabled, same⟩ := reach_eq going id operation stage
  rw [same]
  exact (((spreads_setStage id fresh).trans (spreads_modifyRecord _ id _)).trans
    (spreads_releaseBlocked _)).trans (spreads_same rfl rfl)

theorem Guarded.reach
    {stage : Stage σ μ} {operation : Operation} (guarded : Guarded handles machine)
    (spreads : Spreads handles machine after) (going : after.ended = false)
    (fresh : ∀ address, handles.inStage stage address → after.Genuine address) :
    Guarded handles (after.reach id operation stage) := by
  apply guarded.of_spreads (spreads.trans (spreads_reach going id operation fresh))
  obtain ⟨enabled, same⟩ := reach_eq going id operation stage
  rw [same]
  exact fun _ none => False.elim none

theorem spreads_enableAll (machine : Machine σ μ) (waiters : List ActorId) :
    Spreads handles machine (machine.enableAll waiters) := by
  apply spreads_of_change (get?_enableAll machine waiters) (mailboxes_enableAll machine waiters)
  intro id actor _
  left
  split <;> rfl

section Calls

variable {call : Call σ μ} {pending : Pending σ μ} {operation : Operation} {answer : Reply μ}

/-- What an actor is about to do involves only the handles of its call. -/
theorem Prepares.inPending
    {prepared : Machine σ μ} (prepares : Prepares machine id call pending operation prepared)
    (held : handles.inPending pending address) : handles.inCall call address := by
  cases prepares <;> exact held

theorem Prepares.spreads
    {prepared : Machine σ μ} (prepares : Prepares machine id call pending operation prepared) :
    Spreads handles machine prepared := by
  cases prepares with
  | create | send | joinOver => exact .refl machine
  | ready | yield | awaitDeadlock => exact spreads_modifyRecord machine id _
  | park =>
      exact (spreads_modifyRecord machine id _).trans
        (spreads_modifyMailbox (fun _ => rfl) fun _ _ member => .inl member)
  | join => exact (spreads_modifyRecord machine _ _).trans (spreads_modifyRecord _ id _)

theorem Replies.spreads (replies : Replies machine id call answer after) :
    Spreads handles machine after := by
  cases replies with
  | mailbox => exact spreads_withMailbox machine id
  | refuse | cancel | stray | pause => exact .refl machine
  | note | noteStatuses => exact spreads_same rfl rfl
  | rename => exact spreads_modifyRecord machine id _

theorem Replies.genuine
    (replies : Replies machine id call answer after) (held : handles.inReply answer address) :
    after.Genuine address := by
  cases replies with
  | mailbox =>
      cases held
      exact genuine_withMailbox machine id
  | refuse | rename | note | noteStatuses | cancel | stray | pause => cases held

theorem Completes.spreads
    (completes : Completes machine pending answer after)
    (known : ∀ address, handles.inPending pending address → machine.Genuine address) :
    Spreads handles machine after := by
  have posted : ∀ address message, (∀ known, handles.carried message known →
      machine.Genuine known) → Spreads handles machine (machine.post address message) := by
    intro address message carried
    refine spreads_modifyMailbox (fun _ => rfl) ?_
    intro box envelope member
    rcases List.mem_append.mp member with old | new
    · exact .inl old
    · cases List.mem_singleton.mp new
      exact .inr carried
  cases completes with
  | start | join | pass => exact .refl machine
  | create name child => exact spreads_withActor name child known
  | send message => exact posted _ message fun address held => known address (.inr held)
  | @wake address box message =>
      have posted := posted address message fun address held => known address (.inr held)
      exact posted.trans (spreads_wakeReceiver _ address)
  | receive =>
      exact spreads_modifyMailbox (fun _ => rfl)
        fun _ _ member => .inl (List.mem_of_mem_tail member)

theorem Completes.genuine
    (completes : Completes machine pending answer after) (guarded : Guarded handles machine)
    (known : ∀ address, handles.inPending pending address → machine.Genuine address)
    (held : handles.inReply answer address) : after.Genuine address := by
  have spreads := completes.spreads known
  cases completes with
  | start => exact known address held
  | create name child =>
      cases held
      exact genuine_withMailbox machine machine.actors.nextKey
  | receive found owned queue =>
      apply spreads.genuine
      exact guarded.messages _ _ _ address found (by rw [queue]; exact List.mem_cons_self) held
  | join strict there terminated =>
      split at held
      · cases held
      · cases held
  | send | wake | pass => cases held

end Calls

/-- Every transition keeps the handles genuine, or ends the execution. -/
theorem Moves.guarded
    (moves : Moves program machine after) (guarded : Guarded handles machine)
    (discreet : program.Discreet handles) (going : machine.ended = false) :
    after.ended = true ∨ Guarded handles after := by
  cases moves with
  | ends ended => exact .inl ended
  | @call id body next reply call after control acts performs =>
      right
      have running : Spreads handles machine (machine.setStage id .running) :=
        spreads_setStage id fun _ none => False.elim none
      have known : ∀ address, handles.inAction (.call call next) address →
          machine.Genuine address := by
        intro address used
        rw [← acts] at used
        apply guarded.control address
        rw [control]
        exact discreet.resume _ body reply address used
      cases performs with
      | announce prepares =>
          have prepared := running.trans prepares.spreads
          apply guarded.reach prepared ((going_of_prepares prepares).trans going)
          intro address held
          apply prepared.genuine address
          rcases held with used | held
          · exact known address (.inl (prepares.inPending used))
          · exact known address (.inr held)
      | reply replies =>
          have replied := running.trans replies.spreads
          apply guarded.of_spreads (replied.trans (spreads_pass _ _))
          intro address held
          rcases held with held | new
          · exact replied.genuine address (known address (.inr held))
          · exact replies.genuine new
  | @close id body reply control result =>
      right
      have running : Spreads handles machine (machine.setStage id .running) :=
        spreads_setStage id fun _ none => False.elim none
      exact guarded.of_spreads (running.trans (spreads_pass _ _)) fun _ none => False.elim none
  | @complete id record pending body answer after control there completes =>
      right
      have known : ∀ address, handles.inPending pending address → machine.Genuine address :=
        fun address held => guarded.stages id _ address there (.inl held)
      have spreads := completes.spreads known
      apply guarded.of_spreads (spreads.trans (spreads_pass _ _))
      intro address held
      rcases held with held | new
      · exact spreads.genuine address (guarded.stages id _ address there (.inr held))
      · exact completes.genuine guarded known new
  | @finish id record control there =>
      right
      have finished : Spreads handles machine (machine.finish id) := by
        rw [finish_eq there]
        exact (spreads_modifyRecord machine id _).trans (spreads_enableAll _ _)
      have still : (machine.finish id).ended = false := (ended_finish there).trans going
      exact guarded.reach finished still fun _ none => False.elim none
  | @settle id result after control calm settles =>
      right
      have settled : Spreads handles machine after := by
        cases settles with
        | keep bug => exact spreads_same rfl rfl
        | fault | cancel => exact spreads_modifyRecord machine id _
      have still : after.ended = false := by
        cases settles <;> exact going
      exact guarded.reach settled still fun _ none => False.elim none

theorem spreads_run (machine : Machine σ μ) (id next : ActorId) (chosen : Record) :
    Spreads handles machine ((machine.advance next chosen).switch id next) := by
  have advanced : Spreads handles machine (machine.advance next chosen) := by
    apply spreads_of_change (get?_advance machine next · chosen) (mailboxes_advance machine _ _)
    intro other actor _
    left
    split <;> rfl
  apply advanced.trans
  by_cases same : next = id
  · rw [switch, if_pos same]
    exact spreads_pass _ _
  · apply spreads_of_change (get?_switch same) (mailboxes_switch _ id next)
    intro other actor _
    unfold Actor.switching
    split
    · rcases retired_or ({ actor with record := actor.record.hold false }) with same | ⟨-, same⟩
      · rw [same]
        exact .inl rfl
      · rw [same]
        exact .inr fun _ none => False.elim none
    · split
      · exact .inl rfl
      · exact .inl rfl

theorem Guarded.run
    (guarded : Guarded handles machine) (id next : ActorId) (chosen : Record) :
    Guarded handles ((machine.advance next chosen).switch id next) := by
  apply guarded.of_spreads (spreads_run machine id next chosen)
  have control : ((machine.advance next chosen).switch id next).control = .returning next := by
    unfold switch
    split <;> rfl
  rw [control]
  exact fun _ none => False.elim none

theorem guarded_start (discreet : program.Discreet handles) (number : Nat) :
    Guarded handles (start (program.root number)) where
  control := by
    intro address held
    rcases held with held | impossible
    · exact absurd held (discreet.root number address)
    · cases impossible
  stages := by
    intro id actor address there held
    obtain ⟨-, rfl⟩ := eq_of_get?_start there
    exact False.elim held
  messages := by
    intro slot box envelope address found
    cases found

theorem Guarded.honest
    (guarded : Guarded handles machine) (discreet : program.Discreet handles) :
    machine.Honest program where
  called := by
    intro id body reply call next address control acts uses
    apply guarded.control address
    rw [control]
    apply discreet.resume _ body reply address
    rw [acts]
    left
    cases uses with
    | send known message => exact .inl rfl
    | receive known => exact rfl
  placed := by
    intro id record pending body address there uses
    apply guarded.stages id _ address there
    left
    cases uses with
    | send known message => exact .inl rfl
    | receive known => exact rfl

end Machine

inductive Errand
  | begun
  | created
  | sent (mailbox : Address)
  | joined
  | receiving
  | received

namespace Errand

def program : Program Errand Nat where
  root _ := .begun
  resume _
    | _, .error error => .return (.error error)
    | .begun, .ok _ => .call (.create none .receiving) .created
    | .created, .ok (.mailbox address) => .call (.send address 7) (.sent address)
    | .sent address, .ok _ => .call (.join address.owner true) .joined
    | .receiving, .ok (.mailbox address) => .call (.receive address) .received
    | _, .ok _ => .return (.ok ())

def handles : Handles Errand Nat where
  held
    | .sent known, address => known = address
    | _, _ => False
  carried _ _ := False

theorem steady_program : program.Steady := fun _ _ => rfl

theorem unwinds_program : program.Unwinds := fun _ _ => rfl

theorem discreet_program : program.Discreet handles where
  root := by
    intro number address held
    exact held
  resume := by
    intro view body reply address used
    cases reply with
    | error error => exact False.elim used
    | ok answer =>
        cases body with
        | begun => rcases used with impossible | impossible <;> exact False.elim impossible
        | created =>
            cases answer with
            | mailbox known =>
                rcases used with (same | impossible) | same
                · exact .inr same
                · exact False.elim impossible
                · exact .inr same
            | done | message => exact False.elim used
        | sent known => rcases used with impossible | impossible <;> exact False.elim impossible
        | receiving =>
            cases answer with
            | mailbox known =>
                rcases used with same | impossible
                · exact .inr same
                · exact False.elim impossible
            | done | message => exact False.elim used
        | joined | received => exact False.elim used

end Errand

end Interleave
