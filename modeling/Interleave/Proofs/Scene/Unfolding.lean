import Interleave.Proofs.Scene.Clean
import Interleave.Proofs.Scene.Steps

namespace Interleave

variable {σ μ : Type}

def Control.rank : Control σ μ → Nat
  | .resuming .. => 2
  | .choosing _ | .closing .. => 1
  | .returning _ | .finished => 0

theorem Control.rank_le (control : Control σ μ) : control.rank ≤ 2 := by
  cases control <;> simp [rank]

namespace Scene

variable {scene after : Scene σ μ} {id : ActorId} {call : Call σ μ} {reply : Reply μ}

@[simp] theorem place_place
    (scene : Scene σ μ) (id : ActorId) (first second : Prospect σ μ) :
    (scene.place id first).place id second = scene.place id second := by
  simp [place]

theorem getElem?_place_self
    (scene : Scene σ μ) (present : id.index < scene.prospects.length)
    (prospect : Prospect σ μ) :
    (scene.place id prospect).prospects[id.index]? = some prospect := by
  simp [place, present]

theorem Retort.place
    (retort : scene.Retort id call reply after) (other : ActorId) (prospect : Prospect σ μ) :
    (scene.place other prospect).Retort id call reply (after.place other prospect) := by
  cases retort with
  | mailbox => exact .mailbox
  | answer answers => exact .answer answers

/-- Whoever has ended has succeeded, and nobody waits for an actor that does not exist. -/
structure Tame (scene : Scene σ μ) : Prop where
  ends : ∀ (index : Nat) result, scene.prospects[index]? = some (.ends result) → result = .ok ()
  joins : ∀ (index : Nat) other strict body,
    scene.prospects[index]? = some (.awaits (.join other strict) body) →
      other.index < scene.prospects.length

end Scene

namespace Machine

variable {program : Program σ μ} {machine after : Machine σ μ} {id other : ActorId}
  {actor : Actor σ μ} {record : Record} {body : σ} {call : Call σ μ} {pending : Pending σ μ}
  {operation : Operation} {answer : Reply μ}

def backdrop (machine : Machine σ μ) : Scene σ μ := ⟨machine.outlooks, machine.boxes⟩

theorem scene_of_returning (program : Program σ μ) (control : machine.control = .returning id) :
    machine.scene program = machine.backdrop := by
  unfold scene prospects
  rw [control]
  rfl

theorem scene_of_choosing (program : Program σ μ) (control : machine.control = .choosing id) :
    machine.scene program = machine.backdrop := by
  unfold scene prospects
  rw [control]
  rfl

theorem scene_of_resuming
    {reply : Reply μ} (control : machine.control = .resuming id body reply) :
    machine.scene program = machine.backdrop.place id
      (.ofAction id (program.resume ((machine.setStage id .running).view id) body reply)) := by
  unfold scene prospects
  rw [control]
  rfl

theorem scene_of_closing
    {result : Except ActorError Unit} (program : Program σ μ)
    (control : machine.control = .closing id result) :
    machine.scene program = machine.backdrop.place id (.ends result) := by
  unfold scene prospects
  rw [control]
  rfl

theorem boxes_modifyMailbox
    {slot : Nat} {box : Mailbox μ} {change : Mailbox μ → Mailbox μ}
    (found : machine.mailboxes[slot]? = some box) (owner : (change box).owner = box.owner) :
    (machine.modifyMailbox slot change).boxes =
      machine.boxes.set slot ⟨box.owner, (change box).messages.map Envelope.message⟩ := by
  apply List.ext_getElem?
  intro position
  rw [getElem?_boxes, getElem?_modifyMailbox, Option.map_map, List.getElem?_set]
  by_cases here : slot = position
  · subst here
    have inside : slot < machine.mailboxes.size := (Array.getElem?_eq_some_iff.mp found).1
    rw [found, if_pos rfl, length_boxes, if_pos inside]
    simp [owner]
  · have elsewhere : position ≠ slot := fun same => here same.symm
    rw [if_neg here, getElem?_boxes]
    simp only [if_neg elsewhere]
    rfl

theorem boxes_modifyMailbox_same
    {slot : Nat} {change : Mailbox μ → Mailbox μ}
    (kept : ∀ box, (change box).owner = box.owner ∧ (change box).messages = box.messages) :
    (machine.modifyMailbox slot change).boxes = machine.boxes := by
  apply List.ext_getElem?
  intro position
  rw [getElem?_boxes, getElem?_boxes, getElem?_modifyMailbox, Option.map_map]
  congr 1
  funext box
  by_cases here : position = slot
  · simp [here, (kept box).1, (kept box).2]
  · simp [here]

theorem boxes_reach
    (going : machine.ended = false) (id : ActorId) (operation : Operation) (stage : Stage σ μ) :
    (machine.reach id operation stage).boxes = machine.boxes := by
  obtain ⟨enabled, same⟩ := reach_eq going id operation stage
  rw [same]
  change (machine.announce id operation stage).releaseBlocked.boxes = _
  unfold boxes
  rw [mailboxes_releaseBlocked]
  rfl

theorem outlooks_reach
    (going : machine.ended = false) (id : ActorId) (operation : Operation) (stage : Stage σ μ) :
    (machine.reach id operation stage).outlooks =
      machine.outlooks.set id.index stage.prospect := by
  obtain ⟨enabled, same⟩ := reach_eq going id operation stage
  rw [same]
  change (machine.announce id operation stage).releaseBlocked.outlooks = _
  rw [outlooks_releaseBlocked]
  change ((machine.setStage id stage).modifyRecord id _).outlooks = _
  rw [outlooks_modifyRecord, outlooks_setStage]

theorem scene_reach
    (program : Program σ μ) (going : machine.ended = false) (id : ActorId) (operation : Operation)
    (stage : Stage σ μ) :
    (machine.reach id operation stage).scene program =
      machine.backdrop.place id stage.prospect := by
  obtain ⟨enabled, same⟩ := reach_eq going id operation stage
  have control : (machine.reach id operation stage).control = .choosing id := by rw [same]
  rw [scene_of_choosing program control, backdrop, outlooks_reach going, boxes_reach going]
  rfl

theorem backdrop_of_prepares (prepares : Prepares machine id call pending operation after) :
    call.pending? id = some pending ∧ after.backdrop = machine.backdrop := by
  cases prepares with
  | create | send | joinOver => exact ⟨rfl, rfl⟩
  | ready =>
      refine ⟨if_pos rfl, ?_⟩
      unfold backdrop
      rw [outlooks_modifyRecord]
      rfl
  | park =>
      refine ⟨if_pos rfl, ?_⟩
      unfold backdrop park
      congr 1
      · exact outlooks_modifyRecord machine id fun record =>
          { record with enabled := false, sendStep := none }
      · exact boxes_modifyMailbox_same fun _ => ⟨rfl, rfl⟩
  | join =>
      refine ⟨rfl, ?_⟩
      unfold backdrop
      rw [outlooks_modifyRecord, outlooks_modifyRecord]
      rfl
  | yield | awaitDeadlock =>
      refine ⟨rfl, ?_⟩
      unfold backdrop
      rw [outlooks_modifyRecord]
      rfl

theorem boxes_withMailbox (machine : Machine σ μ) (owner : ActorId) :
    (machine.withMailbox owner).boxes = machine.boxes ++ [⟨owner, []⟩] := by
  simp [boxes, withMailbox]

theorem retort_of_replies (replies : Replies machine id call answer after) :
    call.pending? id = none ∧ machine.backdrop.Retort id call answer after.backdrop := by
  cases replies with
  | mailbox =>
      refine ⟨rfl, ?_⟩
      have new : (machine.withMailbox id).backdrop = machine.backdrop.withBox id := by
        unfold backdrop Scene.withBox
        rw [boxes_withMailbox]
        rfl
      rw [new, ← length_boxes]
      exact .mailbox
  | refuse foreign => exact ⟨if_neg foreign, .answer (if_neg foreign)⟩
  | rename name =>
      have same : (machine.modifyRecord id fun record =>
          { record with name := some name }).backdrop = machine.backdrop := by
        unfold backdrop
        rw [outlooks_modifyRecord]
        rfl
      rw [same]
      exact ⟨rfl, .answer rfl⟩
  | note | noteStatuses | cancel | stray | pause => exact ⟨rfl, .answer rfl⟩

theorem backdrop_withActor (machine : Machine σ μ) (name : Option String) (child : σ) :
    (machine.withActor name child).backdrop = machine.backdrop.withActor child := by
  have fresh : machine.backdrop.fresh = ⟨machine.actors.nextKey, machine.mailboxes.size⟩ := by
    simp [Scene.fresh, backdrop, Roster.nextKey]
  unfold Scene.withActor Scene.withBox
  rw [fresh]
  unfold backdrop
  congr 1
  · simp only [withActor, outlooks, Roster.toList, Roster.push, Array.toList_push, List.map_append]
    rfl
  · exact boxes_withMailbox machine _

theorem prospect_of_terminated
    {current : ActorId} (coherent : machine.Coherent current)
    (there : machine.actors.get? id = some actor) (terminated : actor.record.terminated = true) :
    actor.stage.prospect = .gone := by
  have stopped : actor.stage.isOver = true := by
    cases coherent.proper id actor there with
    | gone flags announced stopped => exact stopped
    | free flags | parked flags | joining flags | yielding flags | awaiting flags =>
        rw [flags.terminated] at terminated
        cases terminated
  cases placed : actor.stage with
  | ending announced =>
      rw [placed] at stopped
      cases stopped
      rfl
  | ended => rfl
  | running | waiting =>
      rw [placed] at stopped
      cases stopped

theorem effect_of_completes
    {current : ActorId} (completes : Completes machine pending answer after)
    (coherent : machine.Coherent current) (clean : machine.Clean) :
    machine.backdrop.Effect pending answer after.backdrop := by
  have seen : ∀ {address : Address} {box : Mailbox μ},
      machine.mailboxes[address.slot]? = some box → box.owner = address.owner →
      machine.backdrop.boxes[address.slot]? =
        some ⟨address.owner, box.messages.map Envelope.message⟩ := by
    intro address box found owned
    change machine.boxes[address.slot]? = _
    rw [getElem?_boxes, found, Option.map_some, owned]
  have posted : ∀ {address : Address} {box : Mailbox μ} (message : μ),
      machine.mailboxes[address.slot]? = some box → box.owner = address.owner →
      (machine.post address message).backdrop =
        machine.backdrop.fill address (box.messages.map Envelope.message ++ [message]) := by
    intro address box message found owned
    unfold backdrop post Scene.fill
    congr 1
    rw [boxes_modifyMailbox found rfl, owned, List.map_append]
    rfl
  cases completes with
  | start answer => exact .start answer
  | create name child =>
      rw [backdrop_withActor]
      have fresh : (⟨machine.actors.nextKey, machine.mailboxes.size⟩ : Address) =
          machine.backdrop.fresh := by simp [Scene.fresh, backdrop, Roster.nextKey]
      rw [fresh]
      exact .create name child
  | send message found owned free =>
      rw [posted message found owned]
      exact .send message (seen found owned)
  | @wake address box message found owned parked =>
      have woken : ((machine.post address message).wakeReceiver address).backdrop =
          (machine.post address message).backdrop := by
        unfold backdrop wakeReceiver
        congr 1
        · exact outlooks_modifyRecord _ address.owner _
        · exact boxes_modifyMailbox_same fun _ => ⟨rfl, rfl⟩
      rw [woken, posted message found owned]
      exact .send message (seen found owned)
  | @receive address box head rest found owned queue =>
      have dropped : (machine.drop address).backdrop =
          machine.backdrop.fill address (rest.map Envelope.message) := by
        unfold backdrop drop Scene.fill
        congr 1
        rw [boxes_modifyMailbox found rfl, owned, queue]
        rfl
      rw [dropped]
      have full := seen found owned
      rw [queue] at full
      exact .receive full
  | @join other target strict there terminated =>
      rw [clean.faults other target there, List.isEmpty_nil, Bool.not_true, Bool.and_false]
      apply Scene.Effect.join strict
      change machine.outlooks[other.index]? = _
      rw [getElem?_outlooks_of_get? there, prospect_of_terminated coherent there terminated]
  | pass => exact .pass

theorem backdrop_setStage (machine : Machine σ μ) (id : ActorId) (stage : Stage σ μ) :
    (machine.setStage id stage).backdrop = machine.backdrop.place id stage.prospect := by
  unfold backdrop
  rw [outlooks_setStage]
  rfl

@[simp] theorem outlooks_enableAll (machine : Machine σ μ) (waiters : List ActorId) :
    (machine.enableAll waiters).outlooks = machine.outlooks := by
  apply outlooks_of_change (get?_enableAll machine waiters)
  intro other actor
  split <;> rfl

theorem backdrop_finish (there : machine.actors.get? id = some actor) :
    (machine.finish id).backdrop = machine.backdrop := by
  rw [finish_eq there]
  unfold backdrop boxes
  rw [outlooks_enableAll, outlooks_modifyRecord, mailboxes_enableAll]
  rfl

def deed? (machine after : Machine σ μ) : Option (Deed σ μ) :=
  match machine.control, after.control with
  | .returning id, .resuming _ _ reply =>
      match machine.actors.get? id with
      | some ⟨_, .waiting pending _⟩ => some ⟨id, pending, reply⟩
      | _ => none
  | _, _ => none

theorem deed?_of_elsewhere (elsewhere : ∀ id, machine.control ≠ .returning id) :
    machine.deed? after = none := by
  unfold deed?
  split
  · exact absurd ‹_› (elsewhere _)
  · rfl

theorem deed?_of_unanswered
    (unanswered : ∀ id body reply, after.control ≠ .resuming id body reply) :
    machine.deed? after = none := by
  unfold deed?
  split
  · exact absurd ‹_› (unanswered _ _ _)
  · rfl

/-- What a transition of a clean execution does: a step of its scene, or one towards the next. -/
inductive Goes (program : Program σ μ) (machine after : Machine σ μ) : Prop
  | step (step : (machine.scene program).Step program (machine.deed? after) (after.scene program)) :
      Goes program machine after
  | still (silent : machine.deed? after = none)
      (same : after.scene program = machine.scene program)
      (closer : after.control.rank < machine.control.rank) : Goes program machine after

section Going

variable (clean : machine.Clean)

include clean

/-- What a body calls announces what it waits for, or is answered at once. -/
theorem goes_of_performs
    {reply : Reply μ} (control : machine.control = .resuming id body reply)
    (present : id.index < machine.backdrop.prospects.length) {next : σ}
    (acts : program.resume ((machine.setStage id .running).view id) body reply = .call call next)
    (performs : Performs (machine.setStage id .running) id next call after) :
    after.Clean ∧ Goes program machine after := by
  have running := clean.setStage id .running
  have elsewhere : ∀ id, machine.control ≠ .returning id := by
    rw [control]
    nofun
  have shown : machine.scene program = _ := scene_of_resuming control
  rw [acts] at shown
  cases performs with
  | announce prepares =>
      obtain ⟨pends, same⟩ := backdrop_of_prepares prepares
      have prepared := running.prepares prepares
      refine ⟨prepared.reach id _ _, .still (deed?_of_elsewhere elsewhere) ?_ ?_⟩
      · rw [scene_reach program prepared.going, same, shown, backdrop_setStage,
          Scene.place_place, Prospect.ofAction, pends]
        rfl
      · obtain ⟨enabled, same⟩ := reach_eq prepared.going id _ (.waiting _ next)
        rw [same, control]
        exact Nat.lt_succ_self _
  | @reply answer after replies =>
      obtain ⟨pends, retort⟩ := retort_of_replies replies
      have retort := retort.place id (.calls call next)
      rw [backdrop_setStage, Scene.place_place] at retort
      rw [Prospect.ofAction, pends] at shown
      refine ⟨(running.replies replies).pass _, .step ?_⟩
      rw [deed?_of_elsewhere elsewhere, shown, scene_of_resuming rfl]
      have acts : Scene.Acts program _ id (.calls call next) none _ :=
        .reply (((after.pass (.resuming id next answer)).setStage id .running).view id) retort
      rw [Scene.place_place] at acts
      exact ⟨id, _, machine.backdrop.getElem?_place_self present (.calls call next), acts⟩

theorem goes_of_resuming
    {reply : Reply μ} (control : machine.control = .resuming id body reply)
    (ready : machine.Ready id) (honest : machine.Honest program)
    (tame : (machine.scene program).Tame) :
    (machine.next program).Clean ∧ Goes program machine (machine.next program) := by
  obtain ⟨record, there, flags⟩ := ready.exists_running
  have running := clean.setStage id .running
  have present : id.index < machine.backdrop.prospects.length := by
    change id.index < machine.outlooks.length
    rw [length_outlooks]
    simpa [setStage] using index_lt there
  have shown : machine.scene program = _ := scene_of_resuming control
  have placed := machine.backdrop.getElem?_place_self present
  rw [next_of_resuming control]
  cases acts : program.resume ((machine.setStage id .running).view id) body reply with
  | call call next =>
      rw [acts] at shown
      have known : ∀ other strict, call = .join other strict →
          ∃ target, (machine.setStage id .running).actors.get? other = some target := by
        rintro other strict rfl
        have joins := tame.joins id.index other strict next (by rw [shown, placed]; rfl)
        rw [shown] at joins
        apply exists_get?
        simpa [Scene.place, backdrop, setStage] using joins
      obtain ⟨after, performs, gives⟩ := exists_performs_of_call running.going there flags.enabled
        next call (fun address => honest.called id body reply call next address control acts) known
      rw [show ((workFor id (act id (.call call next)) _).run _).1 = after from
        run_workFor_of_gives gives _]
      exact goes_of_performs clean control present acts performs
  | «return» result =>
      rw [acts] at shown
      have silent : machine.deed? ((machine.setStage id .running).pass (.closing id result)) =
          none := by
        apply deed?_of_unanswered
        rintro id body reply ⟨⟩
      refine ⟨running.pass _, .still silent ?_ ?_⟩
      · change ((machine.setStage id .running).pass (.closing id result)).scene program = _
        rw [shown, scene_of_closing program rfl]
        change (machine.setStage id .running).backdrop.place id _ = _
        rw [backdrop_setStage, Scene.place_place]
        rfl
      · rw [control]
        exact Nat.lt_succ_self _
  | panic payload =>
      rw [acts] at shown
      have ends := tame.ends id.index _ (by rw [shown, placed]; rfl)
      cases ends

theorem goes_of_returning
    (control : machine.control = .returning id) (coherent : machine.Coherent id)
    (there : machine.actors.get? id = some actor) (enabled : actor.record.enabled = true)
    (placed : actor.stage ≠ .running) (honest : machine.Honest program) :
    (machine.next program).Clean ∧ Goes program machine (machine.next program) := by
  have proceeds := proceeds_next control coherent there enabled placed clean.going honest
  have shown := scene_of_returning program control
  have found : machine.backdrop.prospects[id.index]? = some actor.stage.prospect :=
    getElem?_outlooks_of_get? there
  generalize machine.next program = next at proceeds ⊢
  cases proceeds with
  | @complete record pending body answer after known completes =>
      cases there.symm.trans known
      refine ⟨(clean.completes completes).pass _, .step ?_⟩
      have effect := effect_of_completes completes coherent clean
      have deed : machine.deed? (after.pass (.resuming id body answer)) =
          some ⟨id, pending, answer⟩ := by
        unfold deed?
        rw [control]
        simp only [pass, known]
      rw [deed, shown, scene_of_resuming rfl]
      exact ⟨id, _, found, .complete _ effect⟩
  | @finish record known =>
      cases there.symm.trans known
      have finished := clean.finish known
      refine ⟨finished.reach id _ _, .step ?_⟩
      have silent : machine.deed? ((machine.finish id).reach id (.stop id) (.ending true)) =
          none := by
        obtain ⟨enabled, same⟩ := reach_eq finished.going id (.stop id) (.ending true)
        rw [same]
        unfold deed?
        rw [control]
      rw [silent, shown, scene_reach program finished.going, backdrop_finish known]
      exact ⟨id, _, found, .vanish⟩

theorem goes_of_closing
    {result : Except ActorError Unit} (control : machine.control = .closing id result)
    (present : id.index < machine.actors.size) (tame : (machine.scene program).Tame) :
    (machine.next program).Clean ∧ Goes program machine (machine.next program) := by
  have shown := scene_of_closing program control
  have placed : ∀ prospect, (machine.backdrop.place id prospect).prospects[id.index]? =
      some prospect := machine.backdrop.getElem?_place_self <| by
    change id.index < machine.outlooks.length
    rwa [length_outlooks]
  have ends := tame.ends id.index result (by rw [shown, placed])
  subst ends
  have next : machine.next program = machine.reach id (.stop id) (.ending false) := by
    unfold Machine.next tick
    rw [control]
    rfl
  have elsewhere : ∀ id, machine.control ≠ .returning id := by
    rw [control]
    nofun
  rw [next]
  refine ⟨clean.reach id _ _, .step ?_⟩
  rw [deed?_of_elsewhere elsewhere, shown, scene_reach program clean.going]
  refine ⟨id, _, placed (.ends (.ok ())), ?_⟩
  have left := Scene.place_place machine.backdrop id (.ends (.ok ())) .leaves
  rw [show (.leaves : Prospect σ μ) = Stage.prospect (.ending false) from rfl] at left
  rw [← left]
  exact .leave

/-- As long as nothing has gone wrong, nothing goes wrong in the next transition. -/
theorem goes_next
    (consistent : machine.Consistent) (sane : machine.Sane) (honest : machine.Honest program)
    (tame : (machine.scene program).Tame) (undecided : ∀ id, machine.control ≠ .choosing id) :
    (machine.next program).Clean ∧ Goes program machine (machine.next program) := by
  cases consistent with
  | resuming control ready => exact goes_of_resuming clean control ready honest tame
  | choosing control => exact absurd control (undecided _)
  | returning control coherent there enabled placed =>
      exact goes_of_returning clean control coherent there enabled placed honest
  | closing control | panicking control =>
      exact goes_of_closing clean control (sane.present _ (by rw [control]; rfl)) tame

end Going

theorem outlooks_advance (machine : Machine σ μ) (next : ActorId) (chosen : Record) :
    (machine.advance next chosen).outlooks = machine.outlooks := by
  apply outlooks_of_change (get?_advance machine next · chosen)
  intro other actor
  split <;> rfl

theorem outlooks_switch (machine : Machine σ μ) (id next : ActorId) :
    (machine.switch id next).outlooks = machine.outlooks := by
  by_cases same : next = id
  · rw [switch, if_pos same, outlooks_pass]
  · apply outlooks_of_change (get?_switch same)
    intro other actor
    unfold Actor.switching
    split
    · rcases retired_or { actor with record := actor.record.hold false } with same | stopped
      · rw [same]
      · obtain ⟨stage, same⟩ := stopped
        rw [same, show actor.stage = _ from stage]
        rfl
    · split <;> rfl

theorem scene_run
    (program : Program σ μ) (control : machine.control = .choosing id) (next : ActorId)
    (chosen : Record) :
    ((machine.advance next chosen).switch id next).scene program = machine.scene program := by
  have returning : ((machine.advance next chosen).switch id next).control = .returning next := by
    unfold switch
    split <;> rfl
  rw [scene_of_choosing program control, scene_of_returning program returning]
  unfold backdrop boxes
  rw [outlooks_switch, outlooks_advance, mailboxes_switch, mailboxes_advance]

end Machine

end Interleave
