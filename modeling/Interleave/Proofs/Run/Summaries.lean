import Interleave.Policy.Search
import Interleave.Proofs.Run.Endings
import Interleave.Proofs.Run.Replay

namespace Interleave

variable {σ μ : Type}

namespace Machine

variable {program : Program σ μ} {machine : Machine σ μ} {id other : ActorId} {strict : Bool}
  {answer : Reply μ}

theorem mem_statuses_iff {status : Status} :
    status ∈ machine.statuses ↔ ∃ actor, machine.actors.get? status.id = some actor ∧
      actor.record.status status.id = status := by
  constructor
  · intro member
    obtain ⟨⟨id, actor⟩, listed, rfl⟩ := List.mem_map.mp member
    exact ⟨actor, Roster.mem_entries_iff.mp listed, rfl⟩
  · rintro ⟨actor, there, same⟩
    exact List.mem_map.mpr ⟨⟨status.id, actor⟩, Roster.mem_entries_iff.mpr there, same⟩

theorem numbered_statuses
    {machine : Machine σ μ} {index : Nat} {status : Status}
    (there : machine.statuses[index]? = some status) : status.id = ⟨index⟩ := by
  simp only [statuses, Roster.entries, List.getElem?_map, List.getElem?_mapIdx, Option.map_map,
    Option.map_eq_some_iff] at there
  obtain ⟨actor, -, rfl⟩ := there
  rfl

theorem live_eq_statuses (machine : Machine σ μ) :
    machine.live = (machine.statuses.filter fun status => !status.terminated).map Status.id := by
  rw [statuses, List.filter_map, List.map_map]
  rfl

/-- After its scheduling point a join is refused, if the execution has ended, or it tells how the
actor has ended. -/
theorem told_of_join
    {handles : Handles σ μ} {record : Record} {body next : σ}
    (sound : machine.Sound handles) (discreet : program.Discreet handles)
    (control : machine.control = .returning id)
    (waits : machine.actors.get? id = some ⟨record, .waiting (.join other strict) body⟩)
    (answered : (machine.next program).control = .resuming id next answer) :
    answer = .error .terminated ∨ machine.ended = false ∧
      ∃ target, machine.actors.get? other = some target ∧ target.record.terminated = true ∧
        answer = if strict && !target.record.faults.isEmpty then
          .error (.joined other target.record.faults) else .ok .done := by
  cases ended : machine.ended with
  | true =>
      left
      have present := sound.sane.present id (by rw [control]; rfl)
      rw [next_of_ended program control ended present, dismissed, waits] at answered
      cases answered
      rfl
  | false =>
      right
      obtain ⟨consistent, guarded⟩ := sound.going ended
      obtain ⟨coherent, actor, there, enabled, placed⟩ := consistent.of_returning control
      have proceeds := proceeds_next control coherent there enabled placed ended
        (guarded.honest discreet)
      generalize machine.next program = after at proceeds answered
      cases proceeds with
      | finish ending => cases waits.symm.trans ending
      | complete found completes =>
          cases waits.symm.trans found
          cases answered
          cases completes with
          | @join _ target _ known terminated => exact ⟨rfl, target, known, terminated, rfl⟩

/-- Before the end of the execution a join has no reply before its scheduling point. -/
theorem not_answered_of_join
    {body next : σ} {log : Log} (going : machine.ended = false)
    (answered : ((workFor id (perform id body (.join other strict)) machine).run log).1.control =
      .resuming id next answer) :
    ((workFor id (perform id body (.join other strict)) machine).run log).1.crashes ≠ [] := by
  intro uncrashed
  have reached {prepared : Machine σ μ} (gives : (prepareJoin id other).Gives machine () prepared) :
      False := by
    have performs : (perform id body (.join other strict)).Gives machine ()
        (prepared.reach id (.join other) (.waiting (.join other strict) body)) := by
      apply Attempt.gives_get_bind
      rw [going]
      exact .bind gives (gives_await id _ _ body)
    rw [run_workFor_of_gives performs] at answered
    have busy := body?_reach prepared id (.join other) (.waiting (.join other strict) body)
    rw [answered] at busy
    cases busy
  cases present : machine.actors.get? other with
  | none =>
      rw [run_workFor, outcome_of_unknown going present] at answered uncrashed
      have stopped := (pass_of_uncrashed uncrashed).1
      rw [show (StateT.run (machine.crash id _) _).1 = _ from stopped] at answered
      cases answered
  | some target =>
      cases terminated : target.record.terminated with
      | true => exact reached (gives_prepareJoin_over present terminated id)
      | false => exact reached (gives_prepareJoin_living present terminated id)

theorem refused_of_join
    {body after next : σ} {reply : Reply μ} (control : machine.control = .resuming id body reply)
    (acts : program.resume ((machine.setStage id .running).view id) body reply =
      .call (.join other strict) after)
    (answered : (machine.next program).control = .resuming id next answer)
    (uncrashed : (machine.next program).crashes = []) : answer = .error .terminated := by
  rw [next_of_resuming control, acts] at answered uncrashed
  change ((workFor id (perform id after (.join other strict)) _).run _).1.control = _ at answered
  cases ended : machine.ended with
  | true =>
      have gives : (perform id after (.join other strict)).Gives (machine.setStage id .running) ()
          ((machine.setStage id .running).pass (.resuming id after (.error .terminated))) := by
        apply Attempt.gives_get_bind
        rw [show (machine.setStage id .running).ended = true from ended]
        exact gives_reply id after _
      rw [run_workFor_of_gives gives] at answered
      cases answered
      rfl
  | false =>
      have going : (machine.setStage id .running).ended = false := ended
      exact absurd uncrashed (not_answered_of_join going answered)

end Machine

namespace Run

open Machine

variable {π : Type} {program : Program σ μ} {handles : Handles σ μ}
  {run middle next first : Run π σ μ} {number late : Nat} {policy : π} {id other : ActorId}
  {strict : Bool} {answer : Reply μ} {log : Log} {execution : Execution}

inductive Joins (program : Program σ μ) (run next : Run π σ μ) (id other : ActorId) (strict : Bool)
    (answer : Reply μ) : Prop
  | refuse {body after : σ} {reply : Reply μ}
      (control : run.machine.control = .resuming id body reply)
      (acts : program.resume ((run.machine.setStage id .running).view id) body reply =
        .call (.join other strict) after)
      (answered : next.machine.control = .resuming id after answer) :
      Joins program run next id other strict answer
  | complete {record : Record} {body : σ} (control : run.machine.control = .returning id)
      (waits : run.machine.actors.get? id = some ⟨record, .waiting (.join other strict) body⟩)
      (answered : next.machine.control = .resuming id body answer) :
      Joins program run next id other strict answer

/-- The actor was joined after its end was chosen, and the answer is how it has ended. -/
structure Joined (run : Run π σ μ) (late : Nat) (id other : ActorId) (strict : Bool)
    (answer : Reply μ) : Prop where
  selected : run.SelectsFor late id (.join other)
  stopped : ∃ early < late, run.SelectsFor early other (.stop other)
  told : ∃ status ∈ run.machine.statuses, status.id = other ∧
    answer = if strict && !status.faults.isEmpty then .error (.joined other status.faults)
      else .ok .done

/-- The summary tells what has happened in the run. -/
structure Summarizes [Scheduler π] (program : Program σ μ) (first run : Run π σ μ)
    (execution : Execution) : Prop where
  trace : execution.trace.steps = run.turns.toList.filterMap fun turn => turn.decision.actor?
  numbered : ∀ (index : Nat) (status : Status), execution.statuses[index]? = some status →
    status.id = ⟨index⟩
  listed : ∀ turn ∈ run.turns, ∀ snapshot ∈ turn.actors,
    ∃ status ∈ execution.statuses, status.id = snapshot.id
  terminated : ∀ status ∈ execution.statuses,
    (status.terminated = true ↔ ∃ step, run.SelectsFor step status.id (.stop status.id))
  deadlocked : execution.deadlocked =
    if run.turns.back?.map Turn.decision = some .deadlock then
      (execution.statuses.filter fun status => !status.terminated).map Status.id
    else []
  waiters : ∀ status ∈ execution.statuses, status.waiters = 0
  faults : ∀ status ∈ execution.statuses, status.faults.length ≤ 1 ∧
    (status.cancelled = true ↔ status.faults = [.cancelled])
  joins : ∀ middle log, Reached program first middle →
    Reached program ((middle.step program).run log).1 run →
    ∀ id other strict answer,
      Joins program middle ((middle.step program).run log).1 id other strict answer →
      answer ≠ .error .terminated → run.Joined middle.turns.size id other strict answer

structure Outlasts (run later : Run π σ μ) : Prop where
  selects : ∀ step snapshot, run.Selects step snapshot → later.Selects step snapshot
  faults : ∀ id life, run.machine.life? id = some life → life.terminated = true →
    ∃ kept, later.machine.life? id = some kept ∧ kept.terminated = true ∧
      kept.faults = life.faults

theorem Outlasts.trans (first : run.Outlasts middle) (rest : middle.Outlasts next) :
    run.Outlasts next where
  selects step snapshot selects := rest.selects step snapshot (first.selects step snapshot selects)
  faults id life lives terminated := by
    obtain ⟨between, known, gone, same⟩ := first.faults id life lives terminated
    obtain ⟨kept, found, still, also⟩ := rest.faults id between known gone
    exact ⟨kept, found, still, also.trans same⟩

variable [Scheduler π]

theorem Steps.outlasts
    (steps : Steps program run log next) (ages : run.machine.Ages next.machine) :
    run.Outlasts next where
  selects := steps.selects
  faults id life lives terminated := by
    obtain ⟨kept, found, aged⟩ := ages.kept id life lives
    exact ⟨kept, found, aged.terminated terminated⟩

theorem Reached.outlasts
    (discreet : program.Discreet handles)
    (before : Reached program (start program number policy) middle)
    (reached : Reached program middle run) (legal : ∀ turn ∈ run.turns, turn.Legal)
    (uncrashed : run.machine.crashes = []) : middle.Outlasts run := by
  induction reached with
  | here => exact ⟨fun _ _ selects => selects, fun _ life lives gone => ⟨life, lives, gone, rfl⟩⟩
  | @step run reached log induction =>
      have whole := before.trans reached
      have sane := whole.sane (sane_start (program.root number))
      have steps : Steps program run log _ := steps_step sane log
      have early : ∀ turn ∈ run.turns, turn.Legal :=
        fun turn member => legal turn (steps.mem_turns member)
      have earlier : run.machine.crashes = [] := steps.uncrashed sane uncrashed
      have sound := whole.sound (sound_start discreet number policy) discreet early
      have ages := (steps.reports (whole.reports discreet early earlier)
        (whole.lives discreet early).2 (whole.punctual discreet early) sound discreet legal
        uncrashed).1
      exact (induction early earlier).trans (steps.outlasts ages)

theorem tick_of_joins
    (steps : Steps program middle log next)
    (joins : Joins program middle next id other strict answer) :
    next.machine = middle.machine.next program := by
  cases steps with
  | tick => rfl
  | decide choosing | fail choosing =>
      cases joins with
      | refuse control | complete control => cases choosing.symm.trans control

theorem Reached.mem_turns
    {turn : Turn} (reached : Reached program first run) (sane : first.machine.Sane)
    (member : turn ∈ first.turns) : turn ∈ run.turns := by
  induction reached with
  | here => exact member
  | @step run reached log induction =>
      have steps : Steps program run log _ := steps_step (reached.sane sane) log
      exact steps.mem_turns induction

theorem joined_of_joins
    (discreet : program.Discreet handles)
    (before : Reached program (start program number policy) middle)
    (after : Reached program ((middle.step program).run log).1 run)
    (legal : ∀ turn ∈ run.turns, turn.Legal) (uncrashed : run.machine.crashes = [])
    (joins : Joins program middle ((middle.step program).run log).1 id other strict answer)
    (granted : answer ≠ .error .terminated) :
    run.Joined middle.turns.size id other strict answer := by
  have sane := before.sane (sane_start (program.root number))
  have steps : Steps program middle log _ := steps_step sane log
  have whole : Reached program middle run := (Reached.step .here log).trans after
  have outlasts := before.outlasts discreet whole legal uncrashed
  have legal : ∀ turn ∈ middle.turns, turn.Legal :=
    fun turn member => legal turn (whole.mem_turns sane member)
  have sound := before.sound (sound_start discreet number policy) discreet legal
  have calm : ((middle.step program).run log).1.machine.crashes = [] := by
    by_contra crashed
    exact (after.onward ((steps.onward sane).sane sane)).crashes crashed uncrashed
  generalize ((middle.step program).run log).1 = next at steps calm joins
  have ticks := tick_of_joins steps joins
  cases joins with
  | refuse control acts answered =>
      rw [ticks] at answered calm
      exact absurd (refused_of_join control acts answered calm) granted
  | complete control waits answered =>
      rw [ticks] at answered
      obtain ⟨going, target, there, terminated, told⟩ :=
        (told_of_join sound discreet control waits answered).resolve_left granted
      have reports := before.reports discreet legal (steps.uncrashed sane calm)
      obtain ⟨coherent, actor, present, enabled, -⟩ := (sound.going going).1.of_returning control
      cases waits.symm.trans present
      have announced : _ = Operation.join other := coherent.announces_of_enabled waits enabled
      have selects := (before.punctual discreet legal going).selected id _ control waits
      refine ⟨⟨_, outlasts.selects _ _ selects, rfl, announced⟩, ?_, ?_⟩
      · obtain ⟨early, snapshot, stops, same, stop⟩ :=
          reports.stopped other ⟨target, there, terminated⟩
        refine ⟨early, Nat.lt_of_le_of_ne stops.le ?_, snapshot, outlasts.selects _ _ stops, same,
          stop⟩
        -- The end and the join cannot be the choice of one turn.
        rintro rfl
        have numbered := (before.lives discreet legal).1.numbered
        rw [← stops.unique numbered selects] at stop
        cases announced.symm.trans stop
      · obtain ⟨kept, lives, -, faults⟩ :=
          outlasts.faults other _ (life?_of_get? there) terminated
        obtain ⟨actor, found, rfl⟩ := exists_of_life? lives
        refine ⟨actor.record.status other, mem_statuses_iff.mpr ⟨actor, found, rfl⟩, rfl, ?_⟩
        have same : (actor.record.status other).faults = target.record.faults := faults
        rw [told, same]

theorem Steps.shown
    (steps : Steps program run log next) (sane : run.machine.Sane)
    (shown : ∀ turn ∈ run.turns, ∀ snapshot ∈ turn.actors,
      snapshot.id.index < run.machine.actors.size) :
    ∀ turn ∈ next.turns, ∀ snapshot ∈ turn.actors,
      snapshot.id.index < next.machine.actors.size := by
  have size := (steps.onward sane).size
  intro turn member snapshot listed
  refine Nat.lt_of_lt_of_le ?_ size
  cases steps with
  | tick | fail => exact shown turn member snapshot listed
  | decide =>
      rcases Array.mem_push.mp member with old | rfl
      · exact shown turn old snapshot listed
      · obtain ⟨actor, there, -⟩ := mem_snapshots_iff.mp listed
        exact index_lt there

theorem Reached.shown
    (reached : Reached program (start program number policy) run) :
    ∀ turn ∈ run.turns, ∀ snapshot ∈ turn.actors,
      snapshot.id.index < run.machine.actors.size := by
  induction reached with
  | here => nofun
  | @step run reached log induction =>
      have sane := reached.sane (sane_start (program.root number))
      exact (steps_step sane log).shown sane induction

/-- An execution in which only enabled actors were run, and which is over. -/
theorem summarizes_of_reached
    (discreet : program.Discreet handles)
    (reached : Reached program (start program number policy) run)
    (legal : ∀ turn ∈ run.turns, turn.Legal) (finished : run.machine.control = .finished)
    (uncrashed : run.machine.crashes = []) :
    Summarizes program (start program number policy) run run.machine.summary := by
  have reports := reached.reports discreet legal uncrashed
  obtain ⟨ended, gone⟩ := reports.accounted.finished finished
  have lives (id : ActorId) (actor : Actor σ μ) (there : run.machine.actors.get? id = some actor) :
      (actor.life true).Proper ∧ (actor.life true).age = .gone := by
    have known := life?_of_get? there
    rw [ended] at known
    exact ⟨reports.accounted.proper id _ known, gone id _ known⟩
  constructor
  case trace => exact reports.traced
  case numbered => exact fun index status there => numbered_statuses there
  case listed =>
    intro turn member snapshot shown
    obtain ⟨actor, there⟩ := exists_get? (reached.shown turn member snapshot shown)
    exact ⟨actor.record.status snapshot.id, mem_statuses_iff.mpr ⟨actor, there, rfl⟩, rfl⟩
  case terminated =>
    intro status member
    obtain ⟨actor, there, same⟩ := mem_statuses_iff.mp member
    rw [← reports.over_iff_stopped ended, ← same]
    constructor
    · exact fun terminated => ⟨actor, there, terminated⟩
    · rintro ⟨found, present, terminated⟩
      cases there.symm.trans present
      exact terminated
  case deadlocked =>
    change run.machine.deadlocked = _
    rw [reports.deadlocked, live_eq_statuses]
    rfl
  case waiters =>
    intro status member
    obtain ⟨actor, there, same⟩ := mem_statuses_iff.mp member
    obtain ⟨proper, aged⟩ := lives status.id actor there
    have alone : some actor.record.waiters.length = some 0 := proper.waiters_of_gone aged
    rw [← same]
    exact Option.some.inj alone
  case faults =>
    intro status member
    obtain ⟨actor, there, same⟩ := mem_statuses_iff.mp member
    have fair := (lives status.id actor there).1.fair
    rw [← same]
    exact ⟨fair.few, fair.cancelled_iff⟩
  case joins =>
    intro middle log before after id other strict answer joins granted
    exact joined_of_joins discreet before after legal uncrashed joins granted

end Run

/-- The root creates an actor that cancels itself, and fails because it joins it. -/
inductive Mishap
  | begun
  | created
  | invited
  | cancelling
  | joined

namespace Mishap

def program : Program Mishap Unit where
  root _ := .begun
  resume _
    | _, .error error => .return (.error error)
    | .begun, .ok _ => .call (.create none .invited) .created
    | .created, .ok (.mailbox address) => .call (.join address.owner true) .joined
    | .invited, .ok _ => .call .cancel .cancelling
    | .cancelling, .ok _ => .return (.error .cancelled)
    | _, .ok _ => .return (.ok ())

def handles : Handles Mishap Unit where
  held _ _ := False
  carried _ _ := False

theorem discreet_program : program.Discreet handles where
  root _ _ held := held
  resume := by
    intro view body reply address used
    cases reply with
    | error error => exact False.elim used
    | ok answer =>
        cases body <;> cases answer <;>
          simp_all [program, Handles.inAction, Handles.inCall, handles]

end Mishap

namespace Launcher

variable {π : Type} {program : Program σ μ} {handles : Handles σ μ} {allowance : Allowance}
  {execution : Execution} {launcher : Launcher π μ} {log : Log} {after : Launcher π μ × Log}
  [Scheduler π]

/-- What an execution comes to within the allowance. -/
def run (launcher : Launcher π μ) (program : Program σ μ) (allowance : Allowance) (log : Log) :
    Run π σ μ :=
  (((Run.start program launcher.executions launcher.policy).complete program
    allowance.ticks).run log).1

theorem executes_mishap :
    ∃ after, (execute Mishap.program ⟨40, 1⟩).Returns
      ((.ofPolicy false (.ofSettings {}) : Launcher Policy.Search Unit), .empty .error)
      ⟨.bug (.joined ⟨1⟩ [.cancelled]), ⟨[⟨0⟩, ⟨1⟩, ⟨1⟩, ⟨0⟩]⟩,
        [⟨⟨0⟩, some "main", false, false, [.joined ⟨1⟩ [.cancelled]], 0⟩,
          ⟨⟨1⟩, none, true, true, [.cancelled], 0⟩], [], 1⟩ after :=
  ⟨_, Attempt.returns_of_ok (by decide +kernel)⟩

/-- The summary of an execution in which only enabled actors were run agrees with what happened. -/
theorem summarizes_of_executed
    (discreet : program.Discreet handles)
    (executed : (execute program allowance).Returns (launcher, log) execution after)
    (legal : ∀ turn ∈ (launcher.run program allowance log).turns, turn.Legal) :
    Run.Summarizes program (.start program launcher.executions launcher.policy)
      (launcher.run program allowance log) execution := by
  obtain ⟨run, written, ran, finished, uncrashed, rfl, -⟩ := execute_returns_iff.mp executed
  have reached := Run.reached_complete program allowance.ticks
    (Run.start program launcher.executions launcher.policy) log
  have same : launcher.run program allowance log = run := congrArg Prod.fst ran
  rw [same] at legal ⊢
  rw [show (((Run.start program launcher.executions launcher.policy).complete program
    allowance.ticks).run log).1 = run from same] at reached
  exact Run.summarizes_of_reached discreet reached legal finished uncrashed

theorem summarizes_of_executed_mishap :
    let launcher : Launcher Policy.Search Unit := .ofPolicy false (.ofSettings {})
    ∃ execution after,
      (execute Mishap.program ⟨40, 1⟩).Returns (launcher, .empty .error) execution after ∧
        execution.statuses.map Status.faults = [[.joined ⟨1⟩ [.cancelled]], [.cancelled]] ∧
        (∀ turn ∈ (launcher.run Mishap.program ⟨40, 1⟩ (.empty .error)).turns, turn.Legal) ∧
        Run.Summarizes Mishap.program (.start Mishap.program launcher.executions launcher.policy)
          (launcher.run Mishap.program ⟨40, 1⟩ (.empty .error)) execution := by
  intro launcher
  obtain ⟨after, executed⟩ := executes_mishap
  have legal : ∀ turn ∈ (launcher.run Mishap.program ⟨40, 1⟩ (.empty .error)).turns,
      turn.Legal := by
    decide +kernel
  exact ⟨_, after, executed, rfl, legal, summarizes_of_executed Mishap.discreet_program executed legal⟩

end Launcher

end Interleave
