import Interleave.Proofs.Attempt
import Interleave.Proofs.Machine.Onward

namespace Interleave

/-- The result does not depend on the log. -/
def Log.Unread {α : Type} (work : StateM Log α) : Prop :=
  ∀ first second : Log, (work.run first).1 = (work.run second).1

namespace Log.Unread

variable {α β : Type}

theorem pure (value : α) : Log.Unread (Pure.pure value : StateM Log α) := by
  intro first second
  rfl

theorem modify (change : Log → Log) : Log.Unread (modifyThe Log change : StateM Log PUnit) := by
  intro first second
  rfl

theorem bind
    {work : StateM Log α} {next : α → StateM Log β} (unread : Log.Unread work)
    (onward : ∀ value, Log.Unread (next value)) : Log.Unread (work >>= next) := by
  intro first second
  change ((next (work.run first).1).run (work.run first).2).1 =
    ((next (work.run second).1).run (work.run second).2).1
  rw [unread first second]
  exact onward _ _ _

end Log.Unread

namespace Machine

variable {σ μ : Type} {machine before after : Machine σ μ} {id : ActorId}

/-- From this machine on, the attempt goes its way whatever is in the log, and only onward. -/
structure Regular {α : Type} (attempt : Attempt (Machine σ μ) α) (machine : Machine σ μ) : Prop where
  unread : ∀ first second : Log,
    (attempt.outcome (machine, first)).1 = (attempt.outcome (machine, second)).1
  onward : ∀ log : Log, Onward machine (attempt.outcome (machine, log)).1.2

section Regular

variable {α β : Type}

theorem regular_pure (value : α) : Regular (pure value : Attempt (Machine σ μ) α) machine :=
  ⟨fun _ _ => rfl, fun _ => .refl machine⟩

theorem regular_throw (fault : Fault) : Regular (throw fault : Attempt (Machine σ μ) α) machine :=
  ⟨fun _ _ => rfl, fun _ => .refl machine⟩

theorem regular_get : Regular (get : Attempt (Machine σ μ) (Machine σ μ)) machine :=
  ⟨fun _ _ => rfl, fun _ => .refl machine⟩

theorem regular_log (event : Event) :
    Regular (Attempt.log event : Attempt (Machine σ μ) Unit) machine :=
  ⟨fun _ _ => rfl, fun _ => .refl machine⟩

theorem regular_modify
    {change : Machine σ μ → Machine σ μ} (onward : Onward machine (change machine)) :
    Regular (modify change : Attempt (Machine σ μ) PUnit) machine :=
  ⟨fun _ _ => rfl, fun _ => onward⟩

theorem regular_set (onward : Onward machine after) :
    Regular (set after : Attempt (Machine σ μ) PUnit) machine :=
  ⟨fun _ _ => rfl, fun _ => onward⟩

theorem regular_change
    {step : Machine σ μ → α × Machine σ μ} (onward : Onward machine (step machine).2) :
    Regular (Attempt.change step) machine :=
  ⟨fun _ _ => rfl, fun _ => onward⟩

theorem regular_lift (value : Except Fault α) :
    Regular (liftM value : Attempt (Machine σ μ) α) machine := by
  cases value with
  | error fault => exact regular_throw fault
  | ok value => exact regular_pure value

theorem regular_bind
    {first : Attempt (Machine σ μ) α} {next : α → Attempt (Machine σ μ) β}
    (regular : Regular first machine)
    (rest : ∀ value between, Onward machine between →
      (∃ log written, first.Returns (machine, log) value (between, written)) →
      Regular (next value) between) :
    Regular (first >>= next) machine := by
  constructor
  · intro one other
    have same := regular.unread one other
    rw [Attempt.outcome_bind, Attempt.outcome_bind]
    cases ran : first.outcome (machine, one) with
    | mk result written =>
        cases again : first.outcome (machine, other) with
        | mk result' written' =>
            rw [ran, again] at same
            change result = result' at same
            subst same
            cases result with
            | mk result between =>
                cases result with
                | error fault => rfl
                | ok value =>
                    have onward := regular.onward one
                    rw [ran] at onward
                    exact (rest value between onward ⟨one, written, ran⟩).unread written written'
  · intro log
    have onward := regular.onward log
    rw [Attempt.outcome_bind]
    cases ran : first.outcome (machine, log) with
    | mk result written =>
        rw [ran] at onward
        cases result with
        | mk result between =>
            cases result with
            | error fault => exact onward
            | ok value =>
                exact onward.trans ((rest value between onward ⟨log, written, ran⟩).onward written)

theorem regular_get_bind
    {next : Machine σ μ → Attempt (Machine σ μ) β} (rest : Regular (next machine) machine) :
    Regular (get >>= next) machine := by
  apply regular_bind regular_get
  intro value between _ ran
  obtain ⟨log, written, ran⟩ := ran
  obtain ⟨rfl, same⟩ := Attempt.returns_get_iff.mp ran
  cases same
  exact rest

theorem regular_lift_bind
    {value : Except Fault α} {next : α → Attempt (Machine σ μ) β}
    (rest : ∀ found, value = .ok found → Regular (next found) machine) :
    Regular (liftM value >>= next) machine := by
  apply regular_bind (regular_lift value)
  intro found between _ ran
  obtain ⟨log, written, ran⟩ := ran
  obtain ⟨ok, same⟩ := Attempt.returns_lift_iff.mp ran
  cases same
  exact rest found ok

end Regular

theorem regular_record (id : ActorId) : Regular (record id) machine := by
  apply regular_get_bind
  apply regular_lift_bind
  intro actor _
  exact regular_pure actor.record

theorem returns_record
    {found : Record} {log written : Log}
    (returned : (record id).Returns (machine, log) found (after, written)) :
    id.index < machine.actors.size ∧ machine = after := by
  simp only [record, Attempt.returns_bind_iff, Attempt.returns_get_iff, Attempt.returns_lift_iff,
    Attempt.returns_pure_iff] at returned
  obtain ⟨_, _, ⟨rfl, rfl⟩, actor, _, ⟨there, rfl⟩, -, same⟩ := returned
  obtain ⟨inside, -⟩ := Array.getElem?_eq_some_iff.mp (Checked.get_eq_ok_iff.mp there)
  exact ⟨inside, congrArg Prod.fst same⟩

theorem regular_changeRecord (id : ActorId) (change : Record → Record) :
    Regular (changeRecord id change) machine :=
  regular_modify (onward_modifyRecord machine id change)

theorem regular_mailbox (address : Address) : Regular (mailbox address) machine := by
  apply regular_get_bind
  exact regular_lift _

theorem regular_changeMailbox (address : Address) (change : Mailbox μ → Mailbox μ) :
    Regular (changeMailbox address change) machine := by
  apply regular_modify
  exact .of_kept rfl rfl (fun cut => cut) rfl (Nat.le_refl _) rfl

theorem regular_addMailbox (owner : ActorId) : Regular (addMailbox owner) machine := by
  apply regular_change
  exact .of_kept rfl rfl (fun cut => cut) rfl (Nat.le_refl _) rfl

theorem regular_addActor (name : Option String) (body : σ) :
    Regular (addActor name body) machine := by
  apply regular_get_bind
  apply regular_bind (regular_addMailbox _)
  intro address between _ _
  apply regular_bind
  · apply regular_modify
    refine .of_kept rfl rfl (fun cut => cut) rfl ?_ rfl
    simp
  · intro _ _ _ _
    apply regular_bind (regular_log _)
    intro _ _ _ _
    exact regular_pure address

theorem regular_deliver (address : Address) (message : μ) :
    Regular (deliver address message) machine := by
  apply regular_get_bind
  apply regular_bind (regular_mailbox address)
  intro mailbox _ _ _
  apply regular_bind (regular_changeMailbox address _)
  intro _ _ _ _
  apply regular_bind (regular_log _)
  intro _ _ _ _
  split
  · apply regular_bind (regular_changeMailbox address _)
    intro _ _ _ _
    apply regular_bind (regular_record address.owner)
    intro record _ _ _
    split
    · apply regular_bind (regular_throw _)
      intro _ _ _ _
      exact regular_changeRecord address.owner _
    · exact regular_changeRecord address.owner _
  · exact regular_pure _

theorem regular_prepareReceive (address : Address) :
    Regular (prepareReceive address) machine := by
  apply regular_bind (regular_mailbox address)
  intro mailbox _ _ _
  split
  · exact regular_changeRecord address.owner _
  · apply regular_bind (regular_record address.owner)
    intro record _ _ _
    split
    · apply regular_bind (regular_throw _)
      intro _ _ _ _
      apply regular_bind (regular_changeRecord address.owner _)
      intro _ _ _ _
      exact regular_changeMailbox address _
    · apply regular_bind (regular_changeRecord address.owner _)
      intro _ _ _ _
      exact regular_changeMailbox address _

theorem regular_takeMessage (address : Address) : Regular (takeMessage address) machine := by
  apply regular_bind (regular_mailbox address)
  intro mailbox _ _ _
  split
  · apply regular_bind (regular_changeMailbox address _)
    intro _ _ _ _
    apply regular_bind (regular_log _)
    intro _ _ _ _
    exact regular_pure _
  · exact regular_throw _

theorem regular_prepareJoin (id other : ActorId) : Regular (prepareJoin id other) machine := by
  apply regular_get_bind
  split
  · exact regular_throw _
  · split
    · apply regular_bind (regular_changeRecord other _)
      intro _ _ _ _
      exact regular_changeRecord id _
    · exact regular_pure _

theorem regular_joined (other : ActorId) (strict : Bool) :
    Regular (joined other strict) machine := by
  apply regular_bind (regular_record other)
  intro record _ _ _
  by_cases unfinished : (!record.terminated) = true
  · simp only [unfinished, if_true]
    apply regular_bind (regular_throw _)
    intro _ _ _ _
    exact regular_pure _
  · simp only [unfinished]
    exact regular_pure _

theorem regular_complete (pending : Pending σ μ) : Regular (complete pending) machine := by
  cases pending with
  | start answer => exact regular_pure _
  | create name body =>
      apply regular_bind (regular_addActor name body)
      intro _ _ _ _
      exact regular_pure _
  | send address message =>
      apply regular_bind (regular_deliver address message)
      intro _ _ _ _
      exact regular_pure _
  | receive address =>
      apply regular_bind (regular_takeMessage address)
      intro _ _ _ _
      exact regular_pure _
  | join other strict => exact regular_joined other strict
  | pass => exact regular_pure _

section Present

variable (present : id.index < machine.actors.size)

include present

theorem regular_await (operation : Operation) (pending : Pending σ μ) (body : σ) :
    Regular (await id operation pending body) machine :=
  regular_modify (onward_reach present operation _)

theorem regular_reply (body : σ) (reply : Reply μ) :
    Regular (Machine.reply id body reply) machine :=
  regular_modify (onward_pass (passable_resuming present body reply))

theorem regular_perform (body : σ) (call : Call σ μ) : Regular (perform id body call) machine := by
  cases call with
  | create name child => exact regular_await present _ _ _
  | mailbox =>
      apply regular_bind (regular_addMailbox id)
      intro address between onward _
      exact regular_reply (Nat.lt_of_lt_of_le present onward.size) _ _
  | send address message => exact regular_await present _ _ _
  | receive address =>
      simp only [perform]
      split
      · exact regular_reply present _ _
      · apply regular_bind (regular_prepareReceive address)
        intro _ between onward _
        exact regular_await (Nat.lt_of_lt_of_le present onward.size) _ _ _
  | join other strict =>
      apply regular_get_bind
      split
      · exact regular_reply present _ _
      · apply regular_bind (regular_prepareJoin id other)
        intro _ between onward _
        exact regular_await (Nat.lt_of_lt_of_le present onward.size) _ _ _
  | yield =>
      apply regular_bind (regular_changeRecord id _)
      intro _ between onward _
      exact regular_await (Nat.lt_of_lt_of_le present onward.size) _ _ _
  | awaitDeadlock =>
      apply regular_bind (regular_changeRecord id _)
      intro _ between onward _
      exact regular_await (Nat.lt_of_lt_of_le present onward.size) _ _ _
  | rename name =>
      apply regular_bind (regular_changeRecord id _)
      intro _ between onward _
      exact regular_reply (Nat.lt_of_lt_of_le present onward.size) _ _
  | cancel =>
      apply regular_bind (regular_log _)
      intro _ between onward _
      exact regular_reply (Nat.lt_of_lt_of_le present onward.size) _ _
  | stray =>
      apply regular_bind (regular_log _)
      intro _ between onward _
      exact regular_reply (Nat.lt_of_lt_of_le present onward.size) _ _
  | note value =>
      apply regular_bind
      · apply regular_modify
        exact .of_kept rfl rfl (fun cut => cut) rfl (Nat.le_refl _) rfl
      · intro _ between onward _
        exact regular_reply (Nat.lt_of_lt_of_le present onward.size) _ _
  | noteStatuses =>
      apply regular_bind
      · apply regular_modify
        exact .of_kept rfl rfl (fun cut => cut) rfl (Nat.le_refl _) rfl
      · intro _ between onward _
        exact regular_reply (Nat.lt_of_lt_of_le present onward.size) _ _
  | pause => exact regular_reply present _ _

theorem regular_act (action : Action σ μ) : Regular (act id action) machine := by
  cases action with
  | call call next => exact regular_perform present next call
  | «return» result => exact regular_modify (onward_pass (passable_closing present result))
  | panic payload => exact regular_modify (onward_pass (passable_closing present _))

theorem regular_proceed : Regular (proceed id) machine := by
  apply regular_get_bind
  apply regular_lift_bind
  intro actor _
  split
  · split
    · split
      · exact regular_set (onward_pass (passable_closing present _))
      · exact regular_reply present _ _
    · apply regular_bind (regular_complete _)
      intro answer between onward _
      exact regular_reply (Nat.lt_of_lt_of_le present onward.size) _ _
  · split
    · exact regular_set (onward_leave machine id)
    · have finished := onward_finish id machine
      exact regular_set (finished.trans
        (onward_reach (Nat.lt_of_lt_of_le present finished.size) _ _))
  all_goals exact regular_set (onward_leave machine id)

theorem onward_conclude
    {change : Machine σ μ → Machine σ μ} (onward : Onward machine (change machine)) :
    Onward machine ((change machine).terminate.pass (.returning id)) :=
  onward.trans (onward_terminate (passable_returning (Nat.lt_of_lt_of_le present onward.size)))

theorem regular_conclude
    {change : Machine σ μ → Machine σ μ} (onward : Onward machine (change machine))
    (event : Event) : Regular (conclude id change event) machine := by
  apply regular_bind (regular_log event)
  intro _ between _ ran
  obtain ⟨log, written, ran⟩ := ran
  have same := congrArg Prod.fst (Attempt.returns_log_iff.mp ran)
  change machine = between at same
  subst same
  exact regular_modify (onward_conclude present onward)

end Present

theorem regular_switch
    {next : ActorId} (present : next.index < machine.actors.size) :
    Regular (do
      if next ≠ id then
        let released ← (← record id).deactivate id
        changeRecord id fun _ => released
        let activated ← (← record next).activate next
        changeRecord next fun _ => activated
        modify fun machine =>
          match machine.actors.get? id with
          | some ⟨_, .ending true⟩ => machine.setStage id .ended
          | _ => machine
      modify fun machine => machine.pass (.returning next)) machine := by
  have last : ∀ {between : Machine σ μ}, Onward machine between →
      Regular (modify fun machine => machine.pass (.returning next)) between := by
    intro between onward
    exact regular_modify
      (onward_pass (passable_returning (Nat.lt_of_lt_of_le present onward.size)))
  by_cases same : next = id
  · simp only [same, ne_eq, not_true_eq_false, if_false] at last ⊢
    exact last (.refl machine)
  · simp only [ne_eq, same, not_false_eq_true, if_true]
    apply regular_bind (regular_record id)
    intro old first onward _
    apply regular_lift_bind
    intro released _
    apply regular_bind (regular_changeRecord id _)
    intro _ second deactivated _
    apply regular_bind (regular_record next)
    intro new third looked _
    apply regular_lift_bind
    intro activated _
    apply regular_bind (regular_changeRecord next _)
    intro _ fourth marked _
    apply regular_bind
    · apply regular_modify
      split
      · exact onward_setStage fourth id .ended
      · exact .refl fourth
    · intro _ fifth left _
      exact last ((((onward.trans deactivated).trans looked).trans marked).trans left)

theorem regular_handTo (id next : ActorId) : Regular (handTo id next) machine := by
  unfold handTo
  apply regular_bind (regular_modify ?_)
  · intro _ first _ _
    apply regular_bind (regular_record next)
    intro chosen second onward ran
    obtain ⟨log, written, ran⟩ := ran
    have present := Nat.lt_of_lt_of_le (returns_record ran).1 onward.size
    by_cases progress : chosen.operation.kind.isProgress = true
    · simp only [progress, if_true]
      apply regular_bind (regular_modify (onward_releaseYielded second next))
      intro _ third released _
      exact regular_switch (Nat.lt_of_lt_of_le present released.size)
    · simp only [progress]
      exact regular_switch present
  · exact .of_kept rfl rfl (fun cut => cut) rfl (Nat.le_refl _) rfl

theorem regular_follow (present : id.index < machine.actors.size) (decision : Decision) :
    Regular (follow id decision) machine := by
  apply regular_get_bind
  apply regular_bind (regular_log _)
  intro _ between _ ran
  obtain ⟨log, written, ran⟩ := ran
  have same := congrArg Prod.fst (Attempt.returns_log_iff.mp ran)
  change machine = between at same
  subst same
  cases decision with
  | run next => exact regular_handTo id next
  | deadlock =>
      simp only
      split
      · exact regular_conclude present (.refl machine) _
      · apply regular_conclude present
        exact .of_kept rfl rfl (fun cut => cut) rfl (Nat.le_refl _) rfl
  | sleepSetBlocked =>
      apply regular_conclude present
      exact .of_kept rfl rfl (fun _ => rfl) rfl (Nat.le_refl _) rfl
  | hitStepLimit =>
      apply regular_conclude present
      exact .of_kept rfl rfl (fun cut => cut) rfl (Nat.le_refl _) rfl

/-- A transition of a machine that is given a log: where it leads does not depend on the log, and
it leads onward. -/
structure Leads (work : StateM Log (Machine σ μ)) (machine : Machine σ μ) : Prop where
  unread : Log.Unread work
  onward : ∀ log : Log, Onward machine (work.run log).1

theorem leads_crash (present : id.index < machine.actors.size) (fault : Fault) :
    Leads (machine.crash id fault) machine := by
  have stopped : Onward machine (({ machine with
      crashes := (id, fault) :: machine.crashes }.setStage id .ended).terminate.handOn) := by
    obtain ⟨control, same, passable⟩ := exists_handOn_eq ({ machine with
      crashes := (id, fault) :: machine.crashes }.setStage id .ended).terminate
    rw [same]
    have crashed : Onward machine { machine with crashes := (id, fault) :: machine.crashes } := by
      refine ⟨fun ended => ended, fun _ found => found, fun cut => cut, ?_, Nat.le_refl _, ?_⟩
      · intro _ impossible
        cases impossible
      · intro sane
        exact ⟨sane.present, sane.decided⟩
    apply (crashed.trans (onward_setStage _ id .ended)).trans
    apply onward_terminate
    simpa [Passable, terminate, modifyRecords] using passable
  constructor
  · simp only [crash]
    split
    · exact .pure _
    · split
      · exact .bind (.modify _) fun _ => .pure _
      · exact .pure _
  · intro log
    simp only [crash]
    split
    · exact onward_pass (passable_closing present _)
    · split
      · exact stopped
      · exact stopped

theorem run_workFor
    (id : ActorId) (work : Attempt (Machine σ μ) Unit) (machine : Machine σ μ) (log : Log) :
    (workFor id work machine).run log =
      match work.outcome (machine, log) with
      | ((.ok (), next), written) => (next, written)
      | ((.error fault, next), written) => (next.crash id fault).run written := by
  unfold workFor Attempt.outcome
  rw [StateT.run_bind]
  change (match (work.runOn machine).run log with | (result, written) => _) = _
  cases (work.runOn machine).run log with
  | mk result written =>
      cases result with
      | mk result next =>
          cases result with
          | error fault => rfl
          | ok value => rfl

theorem leads_workFor
    {work : Attempt (Machine σ μ) Unit} (present : id.index < machine.actors.size)
    (regular : Regular work machine) : Leads (workFor id work machine) machine := by
  constructor
  · intro first second
    have same := regular.unread first second
    have onward := regular.onward first
    rw [run_workFor, run_workFor]
    cases ran : work.outcome (machine, first) with
    | mk result written =>
        cases again : work.outcome (machine, second) with
        | mk result' written' =>
            rw [ran, again] at same
            rw [ran] at onward
            change result = result' at same
            subst same
            cases result with
            | mk result next =>
                cases result with
                | error fault =>
                    have present := Nat.lt_of_lt_of_le present onward.size
                    exact (leads_crash present fault).unread written written'
                | ok value => rfl
  · intro log
    have onward := regular.onward log
    rw [run_workFor]
    cases ran : work.outcome (machine, log) with
    | mk result written =>
        rw [ran] at onward
        cases result with
        | mk result next =>
            cases result with
            | error fault =>
                have present := Nat.lt_of_lt_of_le present onward.size
                exact onward.trans ((leads_crash present fault).onward written)
            | ok value => exact onward

theorem leads_reportBug (error : ActorError) (machine : Machine σ μ) :
    Leads (machine.reportBug error) machine := by
  constructor
  · simp only [reportBug]
    split
    · exact .pure _
    · exact .bind (.modify _) fun _ => .pure _
  · intro log
    simp only [reportBug]
    split
    · exact .refl machine
    · rename_i first
      refine ⟨fun ended => ended, ?_, fun cut => cut, fun crashed => crashed, Nat.le_refl _, ?_⟩
      · intro other found
        rw [found] at first
        exact absurd rfl first
      · intro sane
        exact ⟨sane.present, sane.decided⟩

theorem Leads.map
    {work : StateM Log (Machine σ μ)} {change : Machine σ μ → Machine σ μ}
    (leads : Leads work machine)
    (onward : ∀ between, Onward machine between → Onward between (change between)) :
    Leads (do return change (← work)) machine where
  unread := leads.unread.bind fun _ => .pure _
  onward := by
    intro log
    have first := leads.onward log
    exact first.trans (onward _ first)

theorem onward_terminate_reach
    (present : id.index < machine.actors.size) (operation : Operation) (stage : Stage σ μ) :
    Onward machine (machine.terminate.reach id operation stage) := by
  change Onward machine ((machine.terminate.setStage id stage).pass (.returning id))
  have ended := onward_terminate (passable_returning present)
  refine ⟨ended.ended, ended.bug, ended.cut, ended.crashes, ?_, ?_⟩
  · exact Nat.le_trans ended.size (onward_setStage machine.terminate id stage).size
  · intro sane
    constructor
    · intro actor placed
      have inside := (ended.sane sane).present actor placed
      exact Nat.lt_of_lt_of_le inside (onward_setStage machine.terminate id stage).size
    · intro _ actor impossible
      cases impossible

/-- After the body of an actor has ended, the actor announces that. -/
theorem leads_closing
    (present : id.index < machine.actors.size) (result : Except ActorError Unit) :
    Leads (do return (← settle id result machine).reach id (.stop id) (.ending false)) machine := by
  have announced : ∀ between, Onward machine between →
      Onward between (between.reach id (.stop id) (.ending false)) := by
    intro between onward
    exact onward_reach (Nat.lt_of_lt_of_le present onward.size) _ _
  have kept : Leads (pure machine : StateM Log (Machine σ μ)) machine :=
    ⟨.pure _, fun _ => .refl machine⟩
  unfold settle
  split
  · exact kept.map announced
  · split
    · exact (leads_reportBug _ machine).map announced
    · exact kept.map announced
  · have cancelled := onward_modifyRecord machine id fun record =>
      { record.addFault .cancelled with cancelled := true }
    exact Leads.map ⟨.pure _, fun _ => cancelled⟩ announced
  · rename_i error _ _
    have faulty := onward_modifyRecord machine id (Record.addFault error)
    split
    · have reported := leads_reportBug error (machine.modifyRecord id (Record.addFault error))
      refine ⟨(reported.unread.bind fun _ => .pure _).bind fun _ => .pure _, ?_⟩
      intro log
      have first := faulty.trans (reported.onward log)
      exact first.trans (onward_terminate_reach (Nat.lt_of_lt_of_le present first.size)
        (.stop id) (.ending false))
    · refine ⟨((Log.Unread.modify _).bind fun _ => .pure _).bind fun _ => .pure _, ?_⟩
      intro log
      exact faulty.trans (onward_reach (Nat.lt_of_lt_of_le present faulty.size)
        (.stop id) (.ending false))

theorem leads_tick (program : Program σ μ) (sane : machine.Sane) :
    Leads (machine.tick program) machine := by
  have here : Leads (pure machine : StateM Log (Machine σ μ)) machine :=
    ⟨.pure _, fun _ => .refl machine⟩
  unfold tick
  cases control : machine.control with
  | resuming id body reply =>
      have present := sane.present id (by rw [control]; rfl)
      have running := onward_setStage machine id .running
      have present := Nat.lt_of_lt_of_le present running.size
      have work := leads_workFor present (regular_act present
        (program.resume ((machine.setStage id .running).view id) body reply))
      exact ⟨work.unread, fun log => running.trans (work.onward log)⟩
  | choosing id => exact here
  | returning id =>
      have present := sane.present id (by rw [control]; rfl)
      exact leads_workFor present (regular_proceed present)
  | closing id result =>
      have present := sane.present id (by rw [control]; rfl)
      exact leads_closing present result
  | finished => exact here

theorem leads_decide (present : id.index < machine.actors.size) (decision : Decision) :
    Leads (machine.decide id decision) machine :=
  leads_workFor present (regular_follow present decision)

end Machine

end Interleave
