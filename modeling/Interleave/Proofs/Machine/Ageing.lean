import Interleave.Proofs.Machine.Lifetimes

namespace Interleave

variable {σ μ : Type}

/-- The actor whose body goes on or has just ended. -/
def Control.body? : Control σ μ → Option ActorId
  | .resuming actor _ _ | .closing actor _ => some actor
  | .choosing _ | .returning _ | .finished => none

theorem Stage.age_of_inBody {stage : Stage σ μ} (inBody : stage.inBody = true) :
    stage.age = .body := by
  cases stage with
  | running | waiting => rfl
  | ending | ended => cases inBody

structure Record.Settles (before after : Record) : Prop where
  terminated : after.terminated = before.terminated
  fair : before.cancelled = false → before.faults = [] → Fair after.cancelled after.faults

namespace Machine

variable {program : Program σ μ} {machine before middle after : Machine σ μ} {id other : ActorId}
  {actor : Actor σ μ}

structure Due (machine : Machine σ μ) (id : ActorId) : Prop where
  going : machine.ended = false
  control : machine.control = .returning id
  ending : ∃ record, machine.actors.get? id = some ⟨record, .ending false⟩

def prospect (machine : Machine σ μ) (id : ActorId) : Life.Prospect where
  due := machine.Due id
  closing := ∃ result, machine.control = .closing id result
  parting := machine.ended = true

/-- What becomes of the actors in one transition. A new one comes only before the end. -/
structure Ages (before after : Machine σ μ) : Prop where
  kept : ∀ id life, before.life? id = some life →
    ∃ later, after.life? id = some later ∧ Life.Ages (before.prospect id) life later
  fresh : ∀ id life, before.life? id = none → after.life? id = some life →
    before.ended = false ∧ life.terminated = false ∧ life.Proper

/-- The machine accounts for its actors. -/
structure Accounted (machine : Machine σ μ) : Prop where
  proper : ∀ id life, machine.life? id = some life → life.Proper
  embodied : ∀ id, machine.control.body? = some id → machine.Embodied id
  finished : machine.control = .finished →
    machine.ended = true ∧ ∀ id life, machine.life? id = some life → life.age = .gone

structure Advances (before after : Machine σ μ) : Prop where
  ages : before.Ages after
  accounted : after.Accounted
  deadlocked : after.deadlocked = before.deadlocked

section Ages

theorem Calm.ages_of_change
    {change : ActorId → Actor σ μ → Actor σ μ} (calm : Calm before middle)
    (actors : ∀ other, after.actors.get? other = (middle.actors.get? other).map (change other))
    (ages : ∀ other actor, middle.actors.get? other = some actor →
      Life.Ages (before.prospect other) (actor.life middle.ended)
        ((change other actor).life after.ended)) : before.Ages after where
  kept id life lives := by
    rw [← calm.lives] at lives
    obtain ⟨actor, there, same⟩ := exists_of_life? lives
    rw [← same]
    refine ⟨_, life?_of_get? ?_, ages id actor there⟩
    rw [actors, there, Option.map_some]
  fresh id life absent lives := by
    rw [← calm.lives] at absent
    have none : middle.actors.get? id = none := Option.map_eq_none_iff.mp absent
    rw [life?, actors, none] at lives
    cases lives

theorem ages_of_change
    {change : ActorId → Actor σ μ → Actor σ μ}
    (actors : ∀ other, after.actors.get? other = (machine.actors.get? other).map (change other))
    (ages : ∀ other actor, machine.actors.get? other = some actor →
      Life.Ages (machine.prospect other) (actor.life machine.ended)
        ((change other actor).life after.ended)) : machine.Ages after :=
  (calm_same rfl rfl rfl : Calm machine machine).ages_of_change actors ages

theorem Calm.ages (calm : Calm before after) : before.Ages after where
  kept id life lives := ⟨life, (calm.lives id).trans lives, .same life⟩
  fresh id life absent lives := by
    rw [calm.lives, absent] at lives
    cases lives

theorem Ages.calm (ages : before.Ages middle) (calm : Calm middle after) : before.Ages after where
  kept id life lives := by
    obtain ⟨later, present, aged⟩ := ages.kept id life lives
    exact ⟨later, (calm.lives id).trans present, aged⟩
  fresh id life absent lives := by
    rw [calm.lives] at lives
    exact ages.fresh id life absent lives

theorem Ages.proper
    (ages : before.Ages after) (proper : ∀ id life, before.life? id = some life → life.Proper) :
    ∀ id life, after.life? id = some life → life.Proper := by
  intro id life lives
  cases known : before.life? id with
  | none => exact (ages.fresh id life known lives).2.2
  | some early =>
      obtain ⟨later, present, aged⟩ := ages.kept id early known
      cases lives.symm.trans present
      exact aged.proper (proper id early known)

/-- The actor that has control goes on, or hands control on. -/
theorem Accounted.advances
    (accounted : machine.Accounted) (ages : machine.Ages after)
    (embodied : ∀ other, after.control.body? = some other → after.Embodied other)
    (unfinished : after.control ≠ .finished)
    (deadlocked : after.deadlocked = machine.deadlocked) : Advances machine after where
  ages := ages
  accounted := ⟨ages.proper accounted.proper, embodied, fun finished => absurd finished unfinished⟩
  deadlocked := deadlocked

end Ages

section Crash

theorem pass_of_uncrashed
    {fault : Fault} {log : Log} (uncrashed : ((machine.crash id fault).run log).1.crashes = []) :
    ((machine.crash id fault).run log).1 =
        machine.pass (.closing id (.error (.panicked fault.text))) ∧
      machine.Embodied id := by
  have stopped : ({ machine with
      crashes := (id, fault) :: machine.crashes }.setStage id .ended).terminate.handOn.crashes ≠
      [] := by
    rw [handOn_eq]
    exact List.cons_ne_nil _ _
  revert uncrashed
  simp only [crash]
  split
  · rename_i mild
    intro _
    refine ⟨rfl, ?_⟩
    rw [Bool.and_eq_true, Option.any_eq_true] at mild
    obtain ⟨⟨actor, there, inBody⟩, -⟩ := mild
    exact ⟨actor, there, Stage.age_of_inBody inBody⟩
  · split
    · exact fun uncrashed => absurd uncrashed stopped
    · exact fun uncrashed => absurd uncrashed stopped

end Crash

theorem calm_next
    {body : σ} {reply : Reply μ} (control : machine.control = .resuming id body reply)
    (embodied : machine.Embodied id) (uncrashed : (machine.next program).crashes = []) :
    Calm machine (machine.next program) ∧ (machine.next program).control.actor? = some id := by
  have running : Calm machine (machine.setStage id .running) := by
    obtain ⟨actor, there, aged⟩ := embodied
    apply calm_setStage
    intro found present
    cases there.symm.trans present
    exact aged.symm
  have acts : Within (Acts id) (act id _) (machine.setStage id .running) :=
    within_act (gentle_acts id) (program.resume ((machine.setStage id .running).view id) body reply)
  have acts := acts (.empty .trace) (running.embodied embodied)
  rw [next_of_resuming control, run_workFor] at uncrashed ⊢
  generalize (act id _).outcome _ = outcome at acts uncrashed
  obtain ⟨⟨result, between⟩, written⟩ := outcome
  obtain ⟨calm, kept⟩ := acts
  cases result with
  | error fault =>
      obtain ⟨same, -⟩ := pass_of_uncrashed uncrashed
      rw [same]
      exact ⟨(running.trans calm).trans (calm_same rfl rfl rfl), rfl⟩
  | ok value =>
      have holds : (machine.setStage id .running).control.actor? = some id :=
        congrArg Control.actor? control
      exact ⟨running.trans calm, kept holds⟩

section Settle

structure Settling (id : ActorId) (machine after : Machine σ μ) : Prop where
  records : ∃ change : ActorId → Record → Record,
    (∀ other, after.actors.get? other = (machine.actors.get? other).map fun actor =>
      { actor with record := change other actor.record }) ∧
    (∀ record : Record, record.Settles (change id record)) ∧
    ∀ other, other ≠ id → ∀ record : Record, record.SameEnding (change other record)
  ended : machine.ended = true → after.ended = true
  deadlocked : after.deadlocked = machine.deadlocked

theorem settling_bug (machine : Machine σ μ) (id : ActorId) (bug : Option ActorError) :
    Settling id machine { machine with bug := bug } where
  records := by
    refine ⟨fun _ record => record, fun _ => Option.map_id'.symm, ?_, ?_⟩
    · exact fun record => ⟨rfl, fun uncancelled faultless => by
        rw [uncancelled, faultless]
        exact fair_nil⟩
    · exact fun _ _ _ => ⟨rfl, rfl, rfl, rfl⟩
  ended ended := ended
  deadlocked := rfl

theorem settling_modifyRecord
    {change : Record → Record} (machine : Machine σ μ) (id : ActorId)
    (settles : ∀ record : Record, record.Settles (change record)) :
    Settling id machine (machine.modifyRecord id change) where
  records := by
    refine ⟨fun other record => if other = id then change record else record, ?_, ?_, ?_⟩
    · intro other
      rw [get?_modifyRecord]
      congr 1
      funext actor
      by_cases same : other = id
      · simp only [same, if_true]
      · simp only [same, if_false]
    · intro record
      simp only [if_true]
      exact settles record
    · intro other differs record
      simp only [differs, if_false]
      exact ⟨rfl, rfl, rfl, rfl⟩
  ended ended := ended
  deadlocked := rfl

theorem Settling.bug (settling : Settling id machine after) (bug : Option ActorError) :
    Settling id machine { after with bug := bug } :=
  ⟨settling.records, settling.ended, settling.deadlocked⟩

theorem Settling.terminate (settling : Settling id machine after) :
    Settling id machine after.terminate where
  records := by
    obtain ⟨change, actors, settles, others⟩ := settling.records
    refine ⟨fun other record => (change other record).wake, ?_, ?_, ?_⟩
    · intro other
      rw [Machine.terminate, get?_modifyRecords]
      change (after.actors.get? other).map _ = _
      rw [actors, Option.map_map]
      rfl
    · exact fun record => ⟨(settles record).terminated, (settles record).fair⟩
    · intro other differs record
      have same := others other differs record
      exact ⟨same.terminated, same.cancelled, same.faults, same.waiters⟩
  ended _ := rfl
  deadlocked := settling.deadlocked

theorem exists_reportBug_eq (machine : Machine σ μ) (error : ActorError) (log : Log) :
    ∃ bug, ((machine.reportBug error).run log).1 = { machine with bug := bug } := by
  unfold reportBug
  split
  · exact ⟨machine.bug, rfl⟩
  · exact ⟨some error, rfl⟩

theorem settling_settle
    (machine : Machine σ μ) (id : ActorId) (result : Except ActorError Unit) (log : Log) :
    Settling id machine ((settle id result machine).run log).1 := by
  unfold settle
  split
  · exact settling_bug machine id machine.bug
  · split
    · obtain ⟨bug, same⟩ := exists_reportBug_eq machine .deadlock log
      rw [same]
      exact settling_bug machine id bug
    · exact settling_bug machine id machine.bug
  · change Settling id machine (machine.modifyRecord id fun record =>
      { record.addFault .cancelled with cancelled := true })
    apply settling_modifyRecord
    intro record
    refine ⟨rfl, fun _ faultless => ?_⟩
    simp only [Record.addFault, faultless]
    exact ⟨Nat.le_refl 1, by simp⟩
  · rename_i error _ failed
    have settling : Settling id machine (machine.modifyRecord id (Record.addFault error)) := by
      apply settling_modifyRecord
      intro record
      refine ⟨rfl, fun uncancelled faultless => ?_⟩
      simp only [Record.addFault, faultless, uncancelled]
      exact ⟨Nat.le_refl 1, by simpa using failed⟩
    split
    · obtain ⟨bug, same⟩ :=
        exists_reportBug_eq (machine.modifyRecord id (Record.addFault error)) error log
      change Settling id machine (((machine.modifyRecord id _).reportBug error).run log).1.terminate
      rw [same]
      exact (settling.bug bug).terminate
    · exact settling

end Settle

section Closing

theorem body?_reach
    (machine : Machine σ μ) (id : ActorId) (operation : Operation) (stage : Stage σ μ) :
    (machine.reach id operation stage).control.body? = none := by
  unfold reach
  split <;> rfl

theorem reach_unfinished
    (machine : Machine σ μ) (id : ActorId) (operation : Operation) (stage : Stage σ μ) :
    (machine.reach id operation stage).control ≠ .finished := by
  intro finished
  have holds := actor?_reach_of_actor? machine id operation stage
  rw [finished] at holds
  cases holds

/-- A body has ended with at most one fault. -/
theorem Accounted.closing
    {result : Except ActorError Unit} (accounted : machine.Accounted)
    (control : machine.control = .closing id result) :
    Advances machine (machine.next program) := by
  have next : machine.next program =
      ((settle id result machine).run (.empty .trace)).1.reach id (.stop id) (.ending false) := by
    unfold Machine.next tick
    rw [control]
    rfl
  rw [next]
  have settling := settling_settle machine id result (.empty .trace)
  generalize ((settle id result machine).run (.empty .trace)).1 = settled at settling ⊢
  obtain ⟨change, actors, settles, others⟩ := settling.records
  have placed : machine.Ages (settled.setStage id (.ending false)) := by
    refine ages_of_change (fun other => by rw [get?_setStage, actors, Option.map_map]) ?_
    intro other actor there
    have proper := accounted.proper other _ (life?_of_get? there)
    by_cases same : other = id
    · subst same
      obtain ⟨found, present, aged⟩ := accounted.embodied other (by rw [control]; rfl)
      cases there.symm.trans present
      have blank := proper.eq_blank aged
      simp only [Function.comp, if_true]
      have living : (change other actor.record).terminated = false :=
        (settles actor.record).terminated.trans (congrArg Life.terminated blank)
      have fair := (settles actor.record).fair (congrArg Life.cancelled blank)
        (congrArg Life.faults blank)
      have ends (ended : Bool) : (Actor.mk (change other actor.record)
          (.ending false : Stage σ μ)).life ended = ⟨.ending, false,
            (change other actor.record).cancelled, (change other actor.record).faults,
            if ended then some (change other actor.record).waiters.length else none⟩ := by
        simp only [Actor.life, Record.life, living, Bool.or_false]
        rfl
      rw [blank, ends]
      have closes : (machine.prospect other).closing := ⟨result, control⟩
      exact .settled closes _ _ fair
    · simp only [Function.comp, if_neg same]
      exact Record.ages_of_sameEnding (others other same actor.record) proper settling.ended
  apply accounted.advances (placed.calm (calm_placed settled id (.stop id) (.ending false)))
  · intro other busy
    rw [body?_reach] at busy
    cases busy
  · exact reach_unfinished _ _ _ _
  · exact (calm_placed settled id (.stop id) (.ending false)).deadlocked.trans settling.deadlocked

end Closing

section Returning

variable {pending : Pending σ μ} {answer : Reply μ} {record : Record} {body : σ}

theorem Accounted.completes
    (accounted : machine.Accounted) (going : machine.ended = false)
    (there : machine.actors.get? id = some ⟨record, .waiting pending body⟩)
    (completes : Completes machine pending answer after) :
    Advances machine (after.pass (.resuming id body answer)) := by
  have embodied : machine.Embodied id := ⟨_, there, rfl⟩
  have calmly (calm : Calm machine after) :
      Advances machine (after.pass (.resuming id body answer)) := by
    have passed : Calm machine (after.pass (.resuming id body answer)) :=
      calm.trans (calm_same rfl rfl rfl)
    refine accounted.advances passed.ages ?_ nofun passed.deadlocked
    intro other busy
    cases busy
    exact passed.embodied embodied
  cases completes with
  | start | join | pass => exact calmly (calm_same rfl rfl rfl)
  | send | receive => exact calmly (calm_same rfl rfl rfl)
  | @wake address box message found owned parked =>
      apply calmly
      have posted : Calm machine ((machine.post address message).modifyMailbox address.slot
          fun mailbox => { mailbox with receiverParked := false }) := calm_same rfl rfl rfl
      exact posted.trans (calm_modifyRecord _ _ fun _ => ⟨rfl, rfl, rfl, rfl⟩)
  | create name child =>
      have created : machine.Ages
          ((machine.withActor name child).pass (.resuming id body (.ok (.mailbox
            ⟨machine.actors.nextKey, machine.mailboxes.size⟩)))) := by
        constructor
        · intro other life lives
          obtain ⟨actor, known, same⟩ := exists_of_life? lives
          rw [← same]
          exact ⟨_, life?_of_get? (get?_settled rfl known), .same _⟩
        · intro other life absent lives
          obtain ⟨actor, found, same⟩ := exists_of_life? lives
          rcases newcomer_or_settled rfl found with ⟨-, rfl⟩ | settled
          · have blank : life = ⟨.body, false, false, [], none⟩ := by
              rw [← same]
              change Actor.life _ machine.ended = _
              rw [going]
              rfl
            rw [blank]
            exact ⟨going, rfl, .body none⟩
          · rw [life?_of_get? settled] at absent
            cases absent
      refine accounted.advances created ?_ nofun rfl
      intro other busy
      cases busy
      exact ⟨_, get?_settled rfl there, rfl⟩

theorem Accounted.finishes
    (accounted : machine.Accounted) (going : machine.ended = false)
    (control : machine.control = .returning id)
    (there : machine.actors.get? id = some ⟨record, .ending false⟩) :
    Advances machine ((machine.finish id).reach id (.stop id) (.ending true)) := by
  have ended : (machine.finish id).ended = machine.ended := ended_finish there
  have deadlocked : (machine.finish id).deadlocked = machine.deadlocked := by
    obtain ⟨actors, same⟩ :=
      exists_enableAll_eq (machine.modifyRecord id Record.finish) record.waiters
    rw [finish_eq there, same]
    rfl
  have placed : machine.Ages ((machine.finish id).setStage id (.ending true)) := by
    refine ages_of_change (fun other => by rw [get?_setStage, finish_eq there, get?_enableAll,
      get?_modifyRecord, Option.map_map, Option.map_map]) ?_
    intro other actor known
    have proper := accounted.proper other _ (life?_of_get? known)
    by_cases same : other = id
    · subst same
      cases there.symm.trans known
      have living : record.terminated = false := proper.terminated_of_ending rfl
      have before : (Actor.mk record (.ending false : Stage σ μ)).life machine.ended =
          ⟨.ending, false, record.cancelled, record.faults,
            if machine.ended then some record.waiters.length else none⟩ := by
        simp only [Actor.life, Record.life, living, Bool.or_false]
        rfl
      have after (changed : Record) (ended : Bool) (same : record.finish.SameEnding changed) :
          (Actor.mk changed (.ending true : Stage σ μ)).life ended =
            ⟨.stopped, true, record.cancelled, record.faults, some 0⟩ := by
        rw [Actor.life, Record.life_congr same]
        simp [Record.life, Record.finish, Stage.age]
      simp only [Function.comp, if_true]
      have due : (machine.prospect other).due := ⟨going, control, record, there⟩
      rw [before, after]
      · exact .finished due _
      · split <;> exact ⟨rfl, rfl, rfl, rfl⟩
    · simp only [Function.comp, if_neg same]
      have lasting : machine.ended = true → (machine.finish id).ended = true := ended.trans
      split
      · exact Record.ages_of_sameEnding ⟨rfl, rfl, rfl, rfl⟩ proper lasting
      · exact Record.ages_of_sameEnding ⟨rfl, rfl, rfl, rfl⟩ proper lasting
  have reached := calm_placed (machine.finish id) id (.stop id) (.ending true)
  apply accounted.advances (placed.calm reached)
  · intro other busy
    rw [body?_reach] at busy
    cases busy
  · exact reach_unfinished _ _ _ _
  · exact reached.deadlocked.trans deadlocked

end Returning

section Unwinding

theorem Accounted.leaves
    (accounted : machine.Accounted) (ended : machine.ended = true) (id : ActorId) :
    Advances machine (machine.leave id) := by
  have still : (machine.leave id).ended = true := by
    rw [leave, handOn_eq]
    exact ended
  have control : (machine.leave id).control = heir (machine.leave id).actors := by
    rw [leave, handOn_eq]
    exact if_pos ended
  have ages : machine.Ages (machine.leave id) := by
    apply ages_of_change (get?_leave machine id)
    intro other actor there
    rw [still, ended]
    split
    · exact .left (.inl ended) _
    · exact .same _
  refine ⟨ages, ⟨ages.proper accounted.proper, ?_, ?_⟩, ?_⟩
  · intro other busy
    rw [control] at busy
    rcases heir_cases (machine.leave id).actors with ⟨next, actor, same, -⟩ | ⟨same, -⟩
    · rw [same] at busy
      cases busy
    · rw [same] at busy
      cases busy
  · intro finished
    refine ⟨still, fun other life lives => ?_⟩
    rcases heir_cases (machine.leave id).actors with ⟨next, actor, same, -⟩ | ⟨-, gone⟩
    · rw [control, same] at finished
      cases finished
    · obtain ⟨actor, there, rfl⟩ := exists_of_life? lives
      have gone := gone other actor there
      change actor.stage.age = .gone
      cases stage : actor.stage with
      | ended => rfl
      | running | waiting | ending =>
          rw [stage] at gone
          cases gone
  · rw [leave, handOn_eq]
    rfl

theorem Accounted.dismissed
    (accounted : machine.Accounted) (ended : machine.ended = true) (id : ActorId) :
    Advances machine (machine.dismissed id) := by
  have goes (control : Control σ μ) (unfinished : control ≠ .finished)
      (embodied : ∀ other, control.body? = some other → machine.Embodied other) :
      Advances machine (machine.pass control) :=
    accounted.advances (calm_same rfl rfl rfl : Calm machine (machine.pass control)).ages embodied
      unfinished rfl
  unfold Machine.dismissed
  split
  · rename_i waits
    obtain ⟨actor, there, same⟩ := Option.map_eq_some_iff.mp waits
    refine goes _ nofun fun other busy => ?_
    cases busy
    exact ⟨actor, there, by rw [same]; rfl⟩
  · rename_i waits
    obtain ⟨actor, there, same⟩ := Option.map_eq_some_iff.mp waits
    refine goes _ nofun fun other busy => ?_
    cases busy
    exact ⟨actor, there, by rw [same]; rfl⟩
  · exact accounted.leaves ended id

end Unwinding

end Machine

end Interleave
