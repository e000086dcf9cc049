import Interleave.Proofs.Machine.Consistency
import Interleave.Proofs.Machine.Unwinding

namespace Interleave

/-- Both records tell the same about how the actor has ended and who waits for that. -/
structure Record.SameEnding (before after : Record) : Prop where
  terminated : after.terminated = before.terminated
  cancelled : after.cancelled = before.cancelled
  faults : after.faults = before.faults
  waiters : after.waiters = before.waiters

namespace Machine

open Attempt

variable {σ μ : Type} {program : Program σ μ} {machine after : Machine σ μ} {id : ActorId}
  {R : Machine σ μ → Machine σ μ → Prop}

structure Tacit (before after : Machine σ μ) : Prop where
  mailboxes : after.mailboxes = before.mailboxes
  trace : after.trace = before.trace

structure Coarse (R : Machine σ μ → Machine σ μ → Prop) : Prop where
  tacit : ∀ {before after}, Tacit before after → R before after
  trans : ∀ {first second third}, R first second → R second third → R first third
  mailbox : ∀ machine owner, R machine (machine.withMailbox owner)
  parked : ∀ machine slot parked,
    R machine (machine.modifyMailbox slot fun box => { box with receiverParked := parked })

theorem tacit_reach (machine : Machine σ μ) (id : ActorId) (operation : Operation)
    (stage : Stage σ μ) : Tacit machine (machine.reach id operation stage) := by
  have released : ∀ machine : Machine σ μ, Tacit machine machine.releaseBlocked := by
    intro machine
    simp only [releaseBlocked]
    split
    · exact ⟨rfl, rfl⟩
    · split <;> exact ⟨rfl, rfl⟩
  simp only [reach]
  split
  · exact ⟨rfl, rfl⟩
  · exact ⟨(released _).mailboxes, (released _).trace⟩

theorem tacit_handOn (machine : Machine σ μ) : Tacit machine machine.handOn := by
  obtain ⟨control, same, -⟩ := exists_handOn_eq machine
  rw [same]
  exact ⟨rfl, rfl⟩

theorem tacit_crash (machine : Machine σ μ) (id : ActorId) (fault : Fault) (log : Log) :
    Tacit machine ((machine.crash id fault).run log).1 := by
  have stopped := tacit_handOn
    ({ machine with crashes := (id, fault) :: machine.crashes }.setStage id .ended).terminate
  simp only [crash]
  split
  · exact ⟨rfl, rfl⟩
  · split
    · exact ⟨stopped.mailboxes, stopped.trace⟩
    · exact ⟨stopped.mailboxes, stopped.trace⟩

theorem crashes_crash
    {fault : Fault} (machine : Machine σ μ) (id : ActorId) (engine : fault.isEngine = true)
    (log : Log) : ((machine.crash id fault).run log).1.crashes = (id, fault) :: machine.crashes := by
  simp only [crash, engine, Bool.not_true, Bool.and_false, if_true]
  change (handOn _).crashes = _
  rw [handOn_eq]
  rfl

theorem tacit_settle
    (machine : Machine σ μ) (id : ActorId) (result : Except ActorError Unit) (log : Log) :
    Tacit machine ((settle id result machine).run log).1 := by
  unfold settle
  split
  · exact ⟨rfl, rfl⟩
  · split
    · unfold reportBug
      split <;> exact ⟨rfl, rfl⟩
    · exact ⟨rfl, rfl⟩
  · exact ⟨rfl, rfl⟩
  · split
    · unfold reportBug
      dsimp only
      split <;> exact ⟨rfl, rfl⟩
    · exact ⟨rfl, rfl⟩

theorem tacit_finish (machine : Machine σ μ) (id : ActorId) :
    Tacit machine (machine.finish id) := by
  obtain ⟨actors, same⟩ := exists_enableAll_eq (machine.modifyRecord id Record.finish)
    (((machine.actors.get? id).map fun actor => actor.record.waiters).getD [])
  have finished : machine.finish id = (machine.modifyRecord id Record.finish).enableAll _ := rfl
  rw [finished, same]
  exact ⟨rfl, rfl⟩

theorem get?_leave (machine : Machine σ μ) (id other : ActorId) :
    (machine.leave id).actors.get? other = (machine.actors.get? other).map fun actor =>
      if other = id then ⟨{ actor.record with waiters := [] }, .ended⟩ else actor := by
  have left : (machine.leave id).actors = ((machine.setStage id .ended).modifyRecord id
      fun record => { record with waiters := [] }).actors := by
    rw [leave, handOn_eq]
    rfl
  rw [left, get?_modifyRecord, get?_setStage, Option.map_map]
  congr 1
  funext actor
  by_cases same : other = id
  · simp [same]
  · simp [same]

theorem tacit_dismissed (machine : Machine σ μ) (id : ActorId) :
    Tacit machine (machine.dismissed id) := by
  obtain ⟨actors, control, same, -⟩ := exists_dismissed_eq machine id
  rw [same]
  exact ⟨rfl, rfl⟩

theorem tacit_decided
    {decision : Decision} (machine : Machine σ μ) (id : ActorId)
    (stops : ∀ next, decision ≠ .run next) : Tacit machine (machine.decided id decision) := by
  obtain ⟨blocked, limited, deadlocked, same, -⟩ := exists_decided_eq machine id stops
  rw [same]
  exact ⟨rfl, rfl⟩

/-- A relation that can be followed from one part of an attempt to the next. -/
structure Chained (R : Machine σ μ → Machine σ μ → Prop) : Prop where
  refl : ∀ machine, R machine machine
  trans : ∀ {first second third}, R first second → R second third → R first third

/-- A relation that the first half of a call keeps: an actor gets its reply or waits, its flags and
its name change, and it may join another actor that has not terminated. -/
structure Gentle (id : ActorId) (R : Machine σ μ → Machine σ μ → Prop) : Prop extends
    Chained R where
  pass : ∀ {machine} {control : Control σ μ}, control.actor? = some id →
    R machine (machine.pass control)
  reach : ∀ machine operation pending body,
    R machine (machine.reach id operation (.waiting pending body))
  record : ∀ machine other {change : Record → Record},
    (∀ record : Record, record.SameEnding (change record)) →
    R machine (machine.modifyRecord other change)
  join : ∀ {machine other actor}, machine.ended = false →
    machine.actors.get? other = some actor → actor.record.terminated = false →
    R machine (machine.modifyRecord other fun record =>
      { record with waiters := record.waiters ++ [id] })
  mailbox : ∀ machine, R machine (machine.withMailbox id)
  parked : ∀ machine slot parked,
    R machine (machine.modifyMailbox slot fun box => { box with receiverParked := parked })
  note : ∀ machine note, R machine (machine.takeNote note)

theorem Coarse.chained (coarse : Coarse R) : Chained R :=
  ⟨fun _ => coarse.tacit ⟨rfl, rfl⟩, coarse.trans⟩

theorem Coarse.gentle (coarse : Coarse R) (id : ActorId) : Gentle id R where
  toChained := coarse.chained
  pass _ := coarse.tacit ⟨rfl, rfl⟩
  reach machine operation _ _ := coarse.tacit (tacit_reach machine id operation _)
  record _ _ _ _ := coarse.tacit ⟨rfl, rfl⟩
  join _ _ _ := coarse.tacit ⟨rfl, rfl⟩
  mailbox machine := coarse.mailbox machine id
  parked := coarse.parked
  note _ _ := coarse.tacit ⟨rfl, rfl⟩

section Within

variable {α β : Type}

/-- Whatever comes of the attempt from this machine, it is related to the machine. -/
def Within (R : Machine σ μ → Machine σ μ → Prop) (attempt : Attempt (Machine σ μ) α)
    (machine : Machine σ μ) : Prop :=
  ∀ log, R machine (attempt.outcome (machine, log)).1.2

theorem within_of_gives
    {attempt : Attempt (Machine σ μ) α} {value : α} (gives : attempt.Gives machine value after)
    (related : R machine after) : Within R attempt machine := by
  intro log
  obtain ⟨written, returned⟩ := gives log
  rw [show attempt.outcome (machine, log) = _ from returned]
  exact related

theorem within_get_bind
    {next : Machine σ μ → Attempt (Machine σ μ) β} (rest : Within R (next machine) machine) :
    Within R (get >>= next) machine := by
  intro log
  rw [outcome_get_bind]
  exact rest log

section Chained

variable (chained : Chained R)

include chained

theorem within_throw (fault : Fault) : Within R (throw fault : Attempt (Machine σ μ) α) machine :=
  fun _ => chained.refl _

theorem within_pure (value : α) : Within R (pure value : Attempt (Machine σ μ) α) machine :=
  fun _ => chained.refl _

theorem within_bind
    {first : Attempt (Machine σ μ) α} {next : α → Attempt (Machine σ μ) β}
    (within : Within R first machine) (rest : ∀ value between, Within R (next value) between) :
    Within R (first >>= next) machine := by
  intro log
  have related := within log
  rw [outcome_bind]
  cases ran : first.outcome (machine, log) with
  | mk result written =>
      obtain ⟨result, between⟩ := result
      rw [ran] at related
      cases result with
      | error fault => exact related
      | ok value => exact chained.trans related (rest value between written)

theorem within_lift (value : Except Fault α) :
    Within R (liftM value : Attempt (Machine σ μ) α) machine := by
  cases value with
  | error fault => exact within_throw chained fault
  | ok value => exact within_pure chained value

/-- What follows a look into the machine starts from the same machine. -/
theorem within_lift_bind
    {value : Except Fault α} {next : α → Attempt (Machine σ μ) β}
    (rest : ∀ found, Within R (next found) machine) : Within R (liftM value >>= next) machine := by
  cases value with
  | error fault => exact fun _ => chained.refl _
  | ok found => exact rest found

theorem within_log (event : Event) : Within R (Attempt.log event) machine :=
  fun _ => chained.refl _

theorem within_record (id : ActorId) : Within R (record id) machine :=
  within_get_bind (within_bind chained (within_lift chained _) fun _ _ => within_pure chained _)

theorem within_mailbox (address : Address) : Within R (mailbox address) machine :=
  within_get_bind (within_lift chained _)

theorem within_mailbox_bind
    {address : Address} {next : Mailbox μ → Attempt (Machine σ μ) β}
    (rest : ∀ box, machine.mailboxes[address.slot]? = some box → Within R (next box) machine) :
    Within R (mailbox address >>= next) machine := by
  intro log
  rw [outcome_bind, mailbox, outcome_get_bind]
  cases found : Checked.get machine.mailboxes address.slot with
  | error fault => exact chained.refl machine
  | ok box => exact rest box (Checked.get_eq_ok_iff.mp found) log

end Chained

section Gentle

variable (gentle : Gentle id R)

include gentle

theorem within_annotate
    {change : Record → Record} (other : ActorId)
    (endings : ∀ record : Record, record.SameEnding (change record)) :
    Within R (changeRecord other change) machine :=
  fun _ => gentle.record machine other endings

theorem within_await (operation : Operation) (pending : Pending σ μ) (body : σ) :
    Within R (await id operation pending body) machine :=
  fun _ => gentle.reach machine operation pending body

theorem within_reply (body : σ) (answer : Reply μ) :
    Within R (reply id body answer) machine :=
  fun _ => gentle.pass rfl

theorem within_prepareReceive (address : Address) : Within R (prepareReceive address) machine := by
  have chained := gentle.toChained
  apply within_bind chained (within_mailbox chained address)
  intro box _
  split
  · exact within_annotate gentle address.owner fun _ => ⟨rfl, rfl, rfl, rfl⟩
  · apply within_bind chained (within_record chained address.owner)
    intro owner _
    have park : ∀ between, Within R (do
        changeRecord address.owner fun record => { record with enabled := false, sendStep := none }
        changeMailbox address fun mailbox => { mailbox with receiverParked := true }) between := by
      intro between
      apply within_bind chained
      · exact within_annotate gentle address.owner fun _ => ⟨rfl, rfl, rfl, rfl⟩
      · exact fun _ between _ => gentle.parked between address.slot true
    split
    · exact within_bind chained (within_throw chained _) fun _ => park
    · exact park _

theorem within_prepareJoin (going : machine.ended = false) (other : ActorId) :
    Within R (prepareJoin id other) machine := by
  have chained := gentle.toChained
  apply within_get_bind
  split
  · exact within_throw chained _
  · rename_i actor there
    split
    · rename_i living
      apply within_bind chained
      · exact fun _ => gentle.join going there (by simpa using living)
      · exact fun _ _ => within_annotate gentle id fun _ => ⟨rfl, rfl, rfl, rfl⟩
    · exact within_pure chained _

theorem within_perform (body : σ) (call : Call σ μ) :
    Within R (perform id body call) machine := by
  have chained := gentle.toChained
  cases call with
  | create name child => exact within_await gentle _ _ body
  | mailbox =>
      apply within_bind chained
      · exact within_of_gives (gives_addMailbox id) (gentle.mailbox machine)
      · exact fun _ _ => within_reply gentle body _
  | send address message => exact within_await gentle _ _ body
  | receive address =>
      simp only [perform]
      split
      · exact within_reply gentle body _
      · apply within_bind chained (within_prepareReceive gentle address)
        exact fun _ _ => within_await gentle _ _ body
  | join other strict =>
      apply within_get_bind
      split
      · exact within_reply gentle body _
      · rename_i going
        apply within_bind chained (within_prepareJoin gentle (by simpa using going) other)
        exact fun _ _ => within_await gentle _ _ body
  | yield | awaitDeadlock =>
      apply within_bind chained
      · exact within_annotate gentle id fun _ => ⟨rfl, rfl, rfl, rfl⟩
      · exact fun _ _ => within_await gentle _ _ body
  | rename name =>
      apply within_bind chained
      · exact within_annotate gentle id fun _ => ⟨rfl, rfl, rfl, rfl⟩
      · exact fun _ _ => within_reply gentle body _
  | cancel | stray =>
      apply within_bind chained (within_log chained _)
      exact fun _ _ => within_reply gentle body _
  | note | noteStatuses =>
      apply within_bind chained
      · exact fun _ => gentle.note machine _
      · exact fun _ _ => within_reply gentle body _
  | pause => exact within_reply gentle body _

theorem within_act (action : Action σ μ) : Within R (act id action) machine := by
  cases action with
  | call call next => exact within_perform gentle next call
  | «return» | panic => exact fun _ => gentle.pass rfl

end Gentle

variable (coarse : Coarse R)

include coarse

theorem related_workFor
    {work : Attempt (Machine σ μ) Unit} (within : Within R work machine) (id : ActorId)
    (log : Log) : R machine ((workFor id work machine).run log).1 := by
  have related := within log
  rw [run_workFor]
  cases ran : work.outcome (machine, log) with
  | mk result written =>
      obtain ⟨result, between⟩ := result
      rw [ran] at related
      cases result with
      | error fault => exact coarse.trans related (coarse.tacit (tacit_crash _ id fault written))
      | ok value => exact related

/-- It remains to look at an actor that goes on with control. -/
theorem Coarse.related_next
    (program : Program σ μ)
    (returns : ∀ id, machine.control = .returning id → R machine (machine.next program)) :
    R machine (machine.next program) := by
  cases control : machine.control with
  | resuming id body reply =>
      rw [next_of_resuming control]
      have within : Within R (act id _) (machine.setStage id .running) :=
        within_act (coarse.gentle id)
          (program.resume ((machine.setStage id .running).view id) body reply)
      have running : R machine (machine.setStage id .running) := coarse.tacit ⟨rfl, rfl⟩
      exact coarse.trans running (related_workFor coarse within id (.empty .trace))
  | choosing id | finished =>
      unfold next tick
      rw [control]
      exact coarse.tacit ⟨rfl, rfl⟩
  | returning id => exact returns id control
  | closing id result =>
      unfold next tick
      rw [control]
      exact coarse.trans (coarse.tacit (tacit_settle machine id result _))
        (coarse.tacit (tacit_reach _ id _ _))

end Within

section Trace

structure SameCourse (before after : Machine σ μ) : Prop where
  trace : after.trace = before.trace
  ended : after.ended = before.ended

theorem SameCourse.refl (machine : Machine σ μ) : SameCourse machine machine := ⟨rfl, rfl⟩

theorem chained_sameCourse : Chained (@SameCourse σ μ) where
  refl := .refl
  trans first second := ⟨second.trace.trans first.trace, second.ended.trans first.ended⟩

theorem sameCourse_reach (machine : Machine σ μ) (id : ActorId) (operation : Operation)
    (stage : Stage σ μ) : SameCourse machine (machine.reach id operation stage) := by
  refine ⟨(tacit_reach machine id operation stage).trace, ?_⟩
  simp only [reach]
  split
  · rfl
  · exact ended_releaseBlocked _

theorem gentle_sameCourse (id : ActorId) : Gentle id (@SameCourse σ μ) where
  toChained := chained_sameCourse
  pass _ := ⟨rfl, rfl⟩
  reach machine operation _ _ := sameCourse_reach machine id operation _
  record _ _ _ _ := ⟨rfl, rfl⟩
  join _ _ _ := ⟨rfl, rfl⟩
  mailbox _ := ⟨rfl, rfl⟩
  parked _ _ _ := ⟨rfl, rfl⟩
  note _ _ := ⟨rfl, rfl⟩

theorem within_changeRecord (id : ActorId) (change : Record → Record) :
    Within SameCourse (changeRecord id change : Attempt (Machine σ μ) Unit) machine :=
  fun _ => ⟨rfl, rfl⟩

theorem within_changeMailbox (address : Address) (change : Mailbox μ → Mailbox μ) :
    Within SameCourse (changeMailbox address change : Attempt (Machine σ μ) Unit) machine :=
  fun _ => ⟨rfl, rfl⟩

theorem within_deliver (address : Address) (message : μ) :
    Within SameCourse (deliver address message) machine := by
  apply within_get_bind
  apply within_bind chained_sameCourse (within_mailbox chained_sameCourse address)
  intro mailbox _
  apply within_bind chained_sameCourse (within_changeMailbox address _)
  intro _ _
  apply within_bind chained_sameCourse (within_log chained_sameCourse _)
  intro _ _
  split
  · apply within_bind chained_sameCourse (within_changeMailbox address _)
    intro _ _
    apply within_bind chained_sameCourse
      (within_record chained_sameCourse address.owner)
    intro record _
    split
    · apply within_bind chained_sameCourse (within_throw chained_sameCourse _)
      intro _ _
      exact within_changeRecord address.owner _
    · exact within_changeRecord address.owner _
  · exact within_pure chained_sameCourse _

theorem within_takeMessage (address : Address) :
    Within SameCourse (takeMessage address) machine := by
  apply within_bind chained_sameCourse (within_mailbox chained_sameCourse address)
  intro mailbox _
  split
  · apply within_bind chained_sameCourse (within_changeMailbox address _)
    intro _ _
    apply within_bind chained_sameCourse (within_log chained_sameCourse _)
    intro _ _
    exact within_pure chained_sameCourse _
  · exact within_throw chained_sameCourse _

theorem within_joined (other : ActorId) (strict : Bool) :
    Within SameCourse (joined other strict) machine := by
  apply within_bind chained_sameCourse (within_record chained_sameCourse other)
  intro record _
  by_cases unfinished : (!record.terminated) = true
  · simp only [unfinished, if_true]
    apply within_bind chained_sameCourse (within_throw chained_sameCourse _)
    intro _ _
    exact within_pure chained_sameCourse _
  · simp only [unfinished]
    exact within_pure chained_sameCourse _

theorem within_complete (pending : Pending σ μ) :
    Within SameCourse (complete pending) machine := by
  cases pending with
  | start | pass => exact within_pure chained_sameCourse _
  | create name body =>
      apply within_bind chained_sameCourse
      · exact within_of_gives (gives_addActor name body) ⟨rfl, rfl⟩
      · intro _ _
        exact within_pure chained_sameCourse _
  | send address message =>
      apply within_bind chained_sameCourse (within_deliver address message)
      intro _ _
      exact within_pure chained_sameCourse _
  | receive address =>
      apply within_bind chained_sameCourse (within_takeMessage address)
      intro _ _
      exact within_pure chained_sameCourse _
  | join other strict => exact within_joined other strict

theorem within_proceed (id : ActorId) : Within SameCourse (proceed id) machine := by
  have left : Within SameCourse (set (machine.leave id) : Attempt (Machine σ μ) PUnit) machine := by
    obtain ⟨actors, control, same, -⟩ := exists_leave_eq machine id
    rw [same]
    exact fun _ => ⟨rfl, rfl⟩
  have finished : SameCourse machine (machine.finish id) := by
    obtain ⟨actors, same⟩ := exists_enableAll_eq (machine.modifyRecord id Record.finish)
      (((machine.actors.get? id).map fun actor => actor.record.waiters).getD [])
    rw [show machine.finish id = (machine.modifyRecord id Record.finish).enableAll _ from rfl, same]
    exact ⟨rfl, rfl⟩
  apply within_get_bind
  apply within_lift_bind chained_sameCourse
  intro actor
  split
  · split
    · split
      · exact fun _ => ⟨rfl, rfl⟩
      · exact within_reply (gentle_sameCourse id) _ _
    · apply within_bind chained_sameCourse (within_complete _)
      intro _ _
      exact within_reply (gentle_sameCourse id) _ _
  · split
    · exact left
    · exact fun _ => chained_sameCourse.trans finished (sameCourse_reach _ id _ _)
  all_goals exact left

theorem within_switch (id next : ActorId) :
    Within SameCourse (do
      if next ≠ id then
        let released ← (← record id).deactivate id
        changeRecord id fun _ => released
        let activated ← (← record next).activate next
        changeRecord next fun _ => activated
        modify fun machine =>
          match machine.actors.get? id with
          | some ⟨_, .ending true⟩ => machine.setStage id .ended
          | _ => machine
      modify fun machine => machine.pass (.returning next)) machine := by
  by_cases same : next = id
  · simp only [same, ne_eq, not_true_eq_false, if_false]
    exact fun _ => ⟨rfl, rfl⟩
  · simp only [ne_eq, same, not_false_eq_true, if_true]
    apply within_bind chained_sameCourse (within_record chained_sameCourse id)
    intro _ _
    apply within_bind chained_sameCourse (within_lift chained_sameCourse _)
    intro _ _
    apply within_bind chained_sameCourse (within_changeRecord id _)
    intro _ _
    apply within_bind chained_sameCourse (within_record chained_sameCourse next)
    intro _ _
    apply within_bind chained_sameCourse (within_lift chained_sameCourse _)
    intro _ _
    apply within_bind chained_sameCourse (within_changeRecord next _)
    intro _ between
    apply within_bind chained_sameCourse
    · intro log
      change SameCourse between (match between.actors.get? id with
        | some ⟨_, .ending true⟩ => between.setStage id .ended
        | _ => between)
      split <;> exact ⟨rfl, rfl⟩
    · exact fun _ _ _ => ⟨rfl, rfl⟩

theorem sameCourse_handTo (id next : ActorId) (machine : Machine σ μ) (log : Log) :
    SameCourse { machine with trace := machine.trace.push next }
      ((handTo id next).outcome (machine, log)).1.2 := by
  suffices rest : Within SameCourse (do
      let chosen ← record next
      if chosen.operation.kind.isProgress then
        modify fun machine => machine.releaseYielded next
      _) { machine with trace := machine.trace.push next } from rest log
  apply within_bind chained_sameCourse (within_record chained_sameCourse next)
  intro chosen between
  by_cases progress : chosen.operation.kind.isProgress = true
  · simp only [progress, if_true]
    apply within_bind chained_sameCourse
    · exact fun _ => ⟨rfl, rfl⟩
    · intro _ _
      exact within_switch id next
  · simp only [progress]
    exact within_switch id next

theorem sameCourse_follow (id next : ActorId) (machine : Machine σ μ) (log : Log) :
    SameCourse { machine with trace := machine.trace.push next }
      ((follow id (.run next)).outcome (machine, log)).1.2 := by
  unfold follow
  rw [outcome_get_bind, outcome_bind]
  exact sameCourse_handTo id next machine _

def SameTrace (before after : Machine σ μ) : Prop := after.trace = before.trace

theorem coarse_sameTrace : Coarse (@SameTrace σ μ) where
  tacit tacit := tacit.trace
  trans first second := second.trans first
  mailbox _ _ := rfl
  parked _ _ _ := rfl

theorem trace_next (program : Program σ μ) (machine : Machine σ μ) :
    (machine.next program).trace = machine.trace := by
  apply coarse_sameTrace.related_next program
  intro id control
  have within : Within SameTrace (proceed id) machine :=
    fun log => (within_proceed id log).trace
  unfold next tick
  rw [control]
  exact related_workFor coarse_sameTrace within id (.empty .trace)

theorem trace_decided_run (machine : Machine σ μ) (id next : ActorId) :
    (machine.decided id (.run next)).trace = machine.trace.push next := by
  have pushed := (sameCourse_follow id next machine (.empty .trace)).trace
  unfold decided decide
  rw [run_workFor]
  cases ran : (follow id (.run next)).outcome (machine, .empty .trace) with
  | mk result written =>
      obtain ⟨result, between⟩ := result
      rw [ran] at pushed
      cases result with
      | error fault => exact (tacit_crash between id fault written).trace.trans pushed
      | ok value => exact pushed

end Trace

end Machine

end Interleave
