import Interleave.Proofs.Machine.Stages

/-!
Scenes: what each actor does next, and which messages are in the mailboxes. A scene leaves out all
that only matters for who can run when, so that a program can be reasoned about in its own terms.
`Scene.Step` says what one actor can do in a scene, as long as no body fails.
-/

namespace Interleave

variable {σ μ : Type}

namespace Call

def pending? (id : ActorId) : Call σ μ → Option (Pending σ μ)
  | .create name body => some (.create name body)
  | .send address message => some (.send address message)
  | .receive address => if id = address.owner then some (.receive address) else none
  | .join actor strict => some (.join actor strict)
  | .yield | .awaitDeadlock => some .pass
  | _ => none

def answer? (id : ActorId) : Call σ μ → Option (Reply μ)
  | .receive address =>
      if id = address.owner then none else some (.error (.notOwner address.owner id))
  | .rename _ | .cancel | .stray | .note _ | .noteStatuses | .pause => some (.ok .done)
  | _ => none

end Call

/-- What an actor does next. -/
inductive Prospect (σ μ : Type)
  /-- It goes on with a call that it has made, or is about to make, at a scheduling point. -/
  | awaits (pending : Pending σ μ) (body : σ)
  | calls (call : Call σ μ) (body : σ)
  | ends (result : Except ActorError Unit)
  | leaves
  | gone

def Prospect.ofAction (id : ActorId) : Action σ μ → Prospect σ μ
  | .call call next =>
      match call.pending? id with
      | some pending => .awaits pending next
      | none => .calls call next
  | .return result => .ends result
  | .panic payload => .ends (.error (.ofPanic payload))

def Stage.prospect : Stage σ μ → Prospect σ μ
  | .waiting pending body => .awaits pending body
  | .ending false => .leaves
  | .running | .ending true | .ended => .gone

structure Box (μ : Type) where
  owner : ActorId
  messages : List μ

structure Deed (σ μ : Type) where
  actor : ActorId
  pending : Pending σ μ
  reply : Reply μ

structure Scene (σ μ : Type) where
  prospects : List (Prospect σ μ)
  boxes : List (Box μ)

namespace Scene

def place (scene : Scene σ μ) (id : ActorId) (prospect : Prospect σ μ) : Scene σ μ :=
  { scene with prospects := scene.prospects.set id.index prospect }

def fill (scene : Scene σ μ) (address : Address) (messages : List μ) : Scene σ μ :=
  { scene with boxes := scene.boxes.set address.slot ⟨address.owner, messages⟩ }

def withBox (scene : Scene σ μ) (owner : ActorId) : Scene σ μ :=
  { scene with boxes := scene.boxes ++ [⟨owner, []⟩] }

def fresh (scene : Scene σ μ) : Address := ⟨⟨scene.prospects.length⟩, scene.boxes.length⟩

def withActor (scene : Scene σ μ) (child : σ) : Scene σ μ :=
  { scene.withBox scene.fresh.owner with
    prospects := scene.prospects ++ [.awaits (.start (.mailbox scene.fresh)) child] }

inductive Effect (scene : Scene σ μ) : Pending σ μ → Reply μ → Scene σ μ → Prop
  | start (answer : Answer μ) : Effect scene (.start answer) (.ok answer) scene
  | create (name : Option String) (child : σ) :
      Effect scene (.create name child) (.ok (.mailbox scene.fresh)) (scene.withActor child)
  | send {address : Address} {messages : List μ} (message : μ)
      (found : scene.boxes[address.slot]? = some ⟨address.owner, messages⟩) :
      Effect scene (.send address message) (.ok .done) (scene.fill address (messages ++ [message]))
  | receive {address : Address} {message : μ} {rest : List μ}
      (found : scene.boxes[address.slot]? = some ⟨address.owner, message :: rest⟩) :
      Effect scene (.receive address) (.ok (.message message)) (scene.fill address rest)
  | join {other : ActorId} (strict : Bool) (gone : scene.prospects[other.index]? = some .gone) :
      Effect scene (.join other strict) (.ok .done) scene
  | pass : Effect scene .pass (.ok .done) scene

inductive Retort (scene : Scene σ μ) (id : ActorId) : Call σ μ → Reply μ → Scene σ μ → Prop
  | mailbox : Retort scene id .mailbox (.ok (.mailbox ⟨id, scene.boxes.length⟩)) (scene.withBox id)
  | answer {call : Call σ μ} {reply : Reply μ} (answers : call.answer? id = some reply) :
      Retort scene id call reply scene

/-- An actor goes on, and the call that it has completed thereby. -/
inductive Acts (program : Program σ μ) (scene : Scene σ μ) (id : ActorId) :
    Prospect σ μ → Option (Deed σ μ) → Scene σ μ → Prop
  | complete {pending : Pending σ μ} {body : σ} {reply : Reply μ} {after : Scene σ μ}
      (view : View μ) (effect : scene.Effect pending reply after) :
      Acts program scene id (.awaits pending body) (some ⟨id, pending, reply⟩)
        (after.place id (.ofAction id (program.resume view body reply)))
  | reply {call : Call σ μ} {body : σ} {reply : Reply μ} {after : Scene σ μ} (view : View μ)
      (retort : scene.Retort id call reply after) :
      Acts program scene id (.calls call body) none
        (after.place id (.ofAction id (program.resume view body reply)))
  | leave : Acts program scene id (.ends (.ok ())) none (scene.place id .leaves)
  | vanish : Acts program scene id .leaves none (scene.place id .gone)

def Step (program : Program σ μ) (scene : Scene σ μ) (deed : Option (Deed σ μ))
    (after : Scene σ μ) : Prop :=
  ∃ id prospect, scene.prospects[id.index]? = some prospect ∧
    Acts program scene id prospect deed after

/-- Whoever does this next is gone, or waits for a message or an actor in vain. -/
inductive Stalls (scene : Scene σ μ) : Prospect σ μ → Prop
  | receive {address : Address} {owner : ActorId} (body : σ)
      (empty : scene.boxes[address.slot]? = some ⟨owner, []⟩) :
      Stalls scene (.awaits (.receive address) body)
  | join {other : ActorId} (strict : Bool) (body : σ)
      (living : scene.prospects[other.index]? ≠ some .gone) :
      Stalls scene (.awaits (.join other strict) body)
  | gone : Stalls scene .gone

def Still (scene : Scene σ μ) : Prop := ∀ prospect ∈ scene.prospects, scene.Stalls prospect

end Scene

namespace Machine

variable {program : Program σ μ} {machine after : Machine σ μ} {id other : ActorId}
  {actor : Actor σ μ}

def outlooks (machine : Machine σ μ) : List (Prospect σ μ) :=
  machine.actors.toList.map fun actor => actor.stage.prospect

def prospects (program : Program σ μ) (machine : Machine σ μ) : List (Prospect σ μ) :=
  match machine.control with
  | .resuming id body reply =>
      machine.outlooks.set id.index
        (.ofAction id (program.resume ((machine.setStage id .running).view id) body reply))
  | .closing id result => machine.outlooks.set id.index (.ends result)
  | .choosing _ | .returning _ | .finished => machine.outlooks

def boxes (machine : Machine σ μ) : List (Box μ) :=
  machine.mailboxes.toList.map fun box => ⟨box.owner, box.messages.map Envelope.message⟩

def scene (program : Program σ μ) (machine : Machine σ μ) : Scene σ μ :=
  ⟨machine.prospects program, machine.boxes⟩

theorem getElem?_outlooks (machine : Machine σ μ) (index : Nat) :
    machine.outlooks[index]? =
      (machine.actors.get? ⟨index⟩).map fun actor => actor.stage.prospect := by
  simp [outlooks, Roster.toList, Roster.get?]

theorem getElem?_outlooks_of_get? (there : machine.actors.get? id = some actor) :
    machine.outlooks[id.index]? = some actor.stage.prospect := by
  rw [getElem?_outlooks, ActorId.eta, there, Option.map_some]

@[simp] theorem length_outlooks (machine : Machine σ μ) :
    machine.outlooks.length = machine.actors.size := by
  simp [outlooks, Roster.toList, Roster.size]

@[simp] theorem length_boxes (machine : Machine σ μ) :
    machine.boxes.length = machine.mailboxes.size := by
  simp [boxes]

theorem getElem?_boxes (machine : Machine σ μ) (slot : Nat) :
    machine.boxes[slot]? =
      (machine.mailboxes[slot]?).map fun box => ⟨box.owner, box.messages.map Envelope.message⟩ := by
  simp [boxes]

theorem outlooks_of_change
    {change : ActorId → Actor σ μ → Actor σ μ}
    (actors : ∀ other, after.actors.get? other = (machine.actors.get? other).map (change other))
    (stages : ∀ other actor, (change other actor).stage.prospect = actor.stage.prospect) :
    after.outlooks = machine.outlooks := by
  apply List.ext_getElem?
  intro index
  rw [getElem?_outlooks, getElem?_outlooks, actors, Option.map_map]
  congr 1
  funext actor
  exact stages _ actor

@[simp] theorem outlooks_modifyRecord
    (machine : Machine σ μ) (id : ActorId) (change : Record → Record) :
    (machine.modifyRecord id change).outlooks = machine.outlooks := by
  apply outlooks_of_change (get?_modifyRecord machine id · change)
  intro other actor
  split <;> rfl

@[simp] theorem outlooks_setStage (machine : Machine σ μ) (id : ActorId) (stage : Stage σ μ) :
    (machine.setStage id stage).outlooks = machine.outlooks.set id.index stage.prospect := by
  apply List.ext_getElem?
  intro index
  rw [getElem?_outlooks, get?_setStage, Option.map_map, List.getElem?_set]
  by_cases same : id.index = index
  · subst same
    rw [if_pos rfl, ActorId.eta, length_outlooks]
    cases there : machine.actors.get? id with
    | none =>
        have outside : ¬ id.index < machine.actors.size := by
          intro inside
          obtain ⟨actor, here⟩ := exists_get? inside
          cases there.symm.trans here
        rw [if_neg outside]
        rfl
    | some actor =>
        rw [if_pos (index_lt there)]
        simp
  · have differs : (⟨index⟩ : ActorId) ≠ id := by
      rintro rfl
      exact same rfl
    rw [if_neg same, getElem?_outlooks]
    simp only [if_neg differs]
    rfl

@[simp] theorem outlooks_pass (machine : Machine σ μ) (control : Control σ μ) :
    (machine.pass control).outlooks = machine.outlooks := rfl

@[simp] theorem outlooks_releaseBlocked (machine : Machine σ μ) :
    machine.releaseBlocked.outlooks = machine.outlooks := by
  obtain ⟨change, -, actors⟩ := exists_release machine
  exact outlooks_of_change actors fun _ _ => rfl

end Machine

end Interleave
