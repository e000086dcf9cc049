import Interleave.Proofs.Machine.Ageing
import Interleave.Proofs.Run.Lives

namespace Interleave

variable {σ μ : Type}

namespace Machine

variable {program : Program σ μ} {handles : Handles σ μ} {machine after : Machine σ μ}
  {id other : ActorId} {decision : Decision}

section Decide

theorem calm_advance (machine : Machine σ μ) (next : ActorId) (chosen : Record) :
    Calm machine (machine.advance next chosen) := by
  refine calm_of_change (get?_advance machine next · chosen) ?_ ?_ ?_
  · intro other actor _
    split
    · apply Actor.life_congr
      · rfl
      · unfold Record.releaseYielded
        split <;> exact ⟨rfl, rfl, rfl, rfl⟩
    · rfl
  · unfold advance
    split <;> rfl
  · unfold advance
    split <;> rfl

theorem ages_switching
    {actor : Actor σ μ} {ended : Bool} {prospect : Life.Prospect} (proper : (actor.life ended).Proper)
    (id next known : ActorId) :
    Life.Ages prospect (actor.life ended) ((actor.switching id next known).life ended) := by
  unfold Actor.switching
  split
  · rcases retired_or { actor with record := actor.record.hold false } with
      still | ⟨stopped, gone⟩
    · rw [still]
      exact .same _
    · have after : ({ actor with record := actor.record.hold false } : Actor σ μ).retired.life
          ended = { actor.life ended with age := .gone } := by
        rw [gone]
        rfl
      rw [after, proper.eq_stopped (congrArg Stage.age stopped)]
      exact .left (.inr rfl) _
  · split
    · exact .same _
    · exact .same _

theorem Accounted.run
    (accounted : machine.Accounted) (id next : ActorId) (chosen : Record) :
    Advances machine ((machine.advance next chosen).switch id next) := by
  obtain ⟨actors, same⟩ := exists_run_eq machine id next chosen
  have released := calm_advance machine next chosen
  have ages : machine.Ages ((machine.advance next chosen).switch id next) := by
    by_cases self : next = id
    · rw [switch, if_pos self]
      exact released.ages.calm (calm_same rfl rfl rfl)
    · have ended : ((machine.advance next chosen).switch id next).ended =
          (machine.advance next chosen).ended := by
        rw [same, released.ended]
      apply released.ages_of_change (get?_switch self)
      intro other actor there
      rw [ended]
      exact ages_switching (accounted.proper other _
        ((released.lives other).symm.trans (life?_of_get? there))) id next other
  apply accounted.advances ages
  · intro other busy
    rw [same] at busy
    cases busy
  · intro finished
    rw [same] at finished
    cases finished
  · rw [same]

theorem Accounted.stop
    (accounted : machine.Accounted) (id : ActorId) (stops : ∀ next, decision ≠ .run next) :
    machine.Ages (machine.decided id decision) ∧ (machine.decided id decision).Accounted := by
  obtain ⟨blocked, limited, deadlocked, same, -⟩ := exists_decided_eq machine id stops
  have ages : machine.Ages (machine.decided id decision) := by
    rw [same]
    refine ages_of_change (get?_modifyRecords machine · fun _ record => record.wake) ?_
    intro other actor there
    exact Record.ages_of_sameEnding ⟨rfl, rfl, rfl, rfl⟩
      (accounted.proper other _ (life?_of_get? there)) fun _ => rfl
  refine ⟨ages, ages.proper accounted.proper, ?_, ?_⟩
  · intro other busy
    rw [same] at busy
    cases busy
  · intro finished
    rw [same] at finished
    cases finished

theorem deadlocked_decided
    (fresh : machine.deadlocked = []) (id : ActorId) (stops : ∀ next, decision ≠ .run next) :
    (machine.decided id decision).deadlocked =
      if decision = .deadlock then machine.live else [] := by
  cases decision with
  | run next => exact absurd rfl (stops next)
  | deadlock =>
      rw [decided_deadlock, if_pos rfl, fresh]
      change (if machine.live.isEmpty then [] else machine.live) = machine.live
      split
      · rename_i alone
        exact (List.isEmpty_iff.mp alone).symm
      · rfl
  | sleepSetBlocked =>
      rw [decided_sleepSetBlocked, if_neg nofun]
      exact fresh
  | hitStepLimit =>
      rw [decided_hitStepLimit, if_neg nofun]
      exact fresh

end Decide

theorem Accounted.crash
    {fault : Fault} {log : Log} (accounted : machine.Accounted)
    (uncrashed : ((machine.crash id fault).run log).1.crashes = []) :
    Advances machine ((machine.crash id fault).run log).1 := by
  obtain ⟨same, embodied⟩ := pass_of_uncrashed uncrashed
  rw [same]
  have calm : Calm machine (machine.pass (.closing id (.error (.panicked fault.text)))) :=
    calm_same rfl rfl rfl
  refine accounted.advances calm.ages ?_ nofun rfl
  intro other busy
  cases busy
  exact embodied

theorem Accounted.next
    (accounted : machine.Accounted) (sound : machine.Sound handles)
    (discreet : program.Discreet handles) (undecided : ∀ id, machine.control ≠ .choosing id)
    (uncrashed : (machine.next program).crashes = []) :
    Advances machine (machine.next program) := by
  cases control : machine.control with
  | resuming id body reply =>
      have embodied := accounted.embodied id (by rw [control]; rfl)
      obtain ⟨calm, holds⟩ := calm_next control embodied uncrashed
      refine accounted.advances calm.ages ?_ ?_ calm.deadlocked
      · intro other busy
        cases holder : (machine.next program).control with
        | resuming | closing =>
            rw [holder] at holds busy
            cases holds
            cases busy
            exact calm.embodied embodied
        | choosing | returning | finished =>
            rw [holder] at busy
            cases busy
      · intro finished
        rw [finished] at holds
        cases holds
  | choosing id => exact absurd control (undecided id)
  | returning id =>
      cases ended : machine.ended with
      | true =>
          rw [next_of_ended program control ended (sound.sane.present id (by rw [control]; rfl))]
          exact accounted.dismissed ended id
      | false =>
          obtain ⟨consistent, guarded⟩ := sound.going ended
          obtain ⟨coherent, actor, there, enabled, placed⟩ := consistent.of_returning control
          have proceeds := proceeds_next control coherent there enabled placed ended
            (guarded.honest discreet)
          generalize machine.next program = after at proceeds ⊢
          cases proceeds with
          | complete waits completes => exact accounted.completes ended waits completes
          | finish ending => exact accounted.finishes ended control ending
  | closing id result => exact accounted.closing control
  | finished =>
      rw [next_of_finished program control]
      exact ⟨(calm_same rfl rfl rfl : Calm machine machine).ages, accounted, rfl⟩

section Live

theorem over_iff :
    machine.Over id ↔ ∃ life, machine.life? id = some life ∧ life.terminated = true := by
  constructor
  · rintro ⟨actor, there, terminated⟩
    exact ⟨_, life?_of_get? there, terminated⟩
  · rintro ⟨life, lives, terminated⟩
    obtain ⟨actor, there, rfl⟩ := exists_of_life? lives
    exact ⟨actor, there, terminated⟩

theorem Ages.over (ages : machine.Ages after) (gone : machine.Over id) : after.Over id := by
  obtain ⟨life, lives, terminated⟩ := over_iff.mp gone
  obtain ⟨later, present, aged⟩ := ages.kept id life lives
  exact over_iff.mpr ⟨later, present, (aged.terminated terminated).1⟩

theorem Ages.due_of_over (ages : machine.Ages after) (gone : after.Over id) :
    machine.Over id ∨ machine.Due id := by
  obtain ⟨later, lives, terminated⟩ := over_iff.mp gone
  cases known : machine.life? id with
  | none =>
      obtain ⟨-, living, -⟩ := ages.fresh id later known lives
      cases terminated.symm.trans living
  | some life =>
      obtain ⟨found, present, aged⟩ := ages.kept id life known
      cases lives.symm.trans present
      exact (aged.due_of_terminated terminated).imp_left fun terminated =>
        over_iff.mpr ⟨life, known, terminated⟩

theorem live_congr
    (same : ∀ id, (after.actors.get? id).map (fun actor => actor.record.terminated) =
      (machine.actors.get? id).map fun actor => actor.record.terminated) :
    after.live = machine.live := by
  have told (machine : Machine σ μ) : machine.live =
      ((machine.actors.entries.map fun entry => (entry.1, entry.2.record.terminated)).filter
        fun entry => !entry.2).map Prod.fst := by
    rw [List.filter_map, List.map_map]
    rfl
  rw [told, told]
  congr 2
  apply List.ext_getElem?
  intro index
  have here (machine : Machine σ μ) : (machine.actors.entries.map fun entry =>
      (entry.1, entry.2.record.terminated))[index]? =
        ((machine.actors.get? ⟨index⟩).map fun actor => actor.record.terminated).map
          fun terminated => (⟨index⟩, terminated) := by
    simp only [Roster.entries, Roster.toList, Roster.get?, List.getElem?_map, List.getElem?_mapIdx,
      Array.getElem?_toList, Option.map_map]
    rfl
  rw [here, here, same]

theorem Ages.live (ages : machine.Ages after) (ended : machine.ended = true) :
    after.live = machine.live := by
  apply live_congr
  intro id
  have undue : ¬ machine.Due id := fun due => by
    rw [due.going] at ended
    cases ended
  cases known : machine.actors.get? id with
  | none =>
      cases found : after.actors.get? id with
      | none => rfl
      | some actor =>
          have absent : machine.life? id = none := by rw [life?, known, Option.map_none]
          have going := (ages.fresh id _ absent (life?_of_get? found)).1
          cases ended.symm.trans going
  | some actor =>
      obtain ⟨later, lives, aged⟩ := ages.kept id _ (life?_of_get? known)
      obtain ⟨changed, present, rfl⟩ := exists_of_life? lives
      rw [present, Option.map_some, Option.map_some]
      congr 1
      apply Bool.eq_iff_iff.mpr
      constructor
      · exact fun terminated => (aged.due_of_terminated terminated).resolve_right undue
      · exact fun terminated => (aged.terminated terminated).1

theorem live_decided (id : ActorId) (stops : ∀ next, decision ≠ .run next) :
    (machine.decided id decision).live = machine.live := by
  obtain ⟨blocked, limited, deadlocked, same, -⟩ := exists_decided_eq machine id stops
  rw [same]
  apply live_congr
  intro other
  have woken : ((machine.terminate.pass (.returning id)).recast blocked limited
      deadlocked).actors.get? other = (machine.actors.get? other).map fun actor =>
        { actor with record := actor.record.wake } :=
    get?_modifyRecords machine other fun _ record => record.wake
  rw [woken, Option.map_map]
  rfl

end Live

end Machine

namespace Run

open Machine

variable {π : Type} {program : Program σ μ} {handles : Handles σ μ} {run next first : Run π σ μ}
  {number step : Nat} {policy : π} {snapshot : Snapshot} {id : ActorId} {log : Log}

def SelectsFor (run : Run π σ μ) (step : Nat) (id : ActorId) (operation : Operation) : Prop :=
  ∃ snapshot, run.Selects step snapshot ∧ snapshot.id = id ∧ snapshot.operation = operation

/-- What a run tells about its turns. -/
structure Reports (run : Run π σ μ) : Prop where
  accounted : run.machine.Accounted
  traced : run.machine.trace.toList = run.turns.toList.filterMap fun turn => turn.decision.actor?
  stopped : ∀ id, run.machine.Over id → ∃ step, run.SelectsFor step id (.stop id)
  settled : run.machine.ended = true → ∀ step id, run.SelectsFor step id (.stop id) →
    run.machine.Over id
  deadlocked : run.machine.deadlocked =
    if run.turns.back?.map Turn.decision = some .deadlock then run.machine.live else []
  undecided : run.machine.ended = false → run.turns.back?.map Turn.decision ≠ some .deadlock

theorem Reports.over_iff_stopped (reports : run.Reports) (ended : run.machine.ended = true) :
    run.machine.Over id ↔ ∃ step, run.SelectsFor step id (.stop id) :=
  ⟨reports.stopped id, fun ⟨step, selects⟩ => reports.settled ended step id selects⟩

theorem SelectsFor.mono
    {operation : Operation} (selects : run.SelectsFor step id operation)
    (grows : ∀ step snapshot, run.Selects step snapshot → next.Selects step snapshot) :
    next.SelectsFor step id operation := by
  obtain ⟨snapshot, chosen, rest⟩ := selects
  exact ⟨snapshot, grows _ _ chosen, rest⟩

theorem selectsFor_congr_iff {operation : Operation} (turns : next.turns = run.turns) :
    next.SelectsFor step id operation ↔ run.SelectsFor step id operation :=
  ⟨(·.mono fun _ _ selects => selects.congr turns.symm),
    (·.mono fun _ _ selects => selects.congr turns)⟩

theorem selectsFor_of_due
    (consistent : run.machine.Consistent) (punctual : run.Punctual) (due : run.machine.Due id) :
    run.SelectsFor run.turns.size id (.stop id) := by
  obtain ⟨going, control, record, there⟩ := due
  obtain ⟨coherent, actor, present, enabled, -⟩ := consistent.of_returning control
  cases there.symm.trans present
  exact ⟨_, punctual.selected id _ control there, rfl,
    coherent.announces_of_enabled there enabled⟩

theorem going_of_due
    (consistent : run.machine.Consistent) (honest : run.machine.Honest program)
    (due : run.machine.Due id) : (run.machine.next program).ended = false := by
  obtain ⟨going, control, record, there⟩ := due
  obtain ⟨coherent, actor, present, enabled, placed⟩ := consistent.of_returning control
  cases there.symm.trans present
  have proceeds := proceeds_next control coherent there enabled placed going honest
  generalize run.machine.next program = after at proceeds ⊢
  cases proceeds with
  | complete waits => cases there.symm.trans waits
  | finish ending =>
      have reached := calm_placed (run.machine.finish id) id (.stop id) (.ending true)
      exact reached.ended.trans ((ended_finish ending).trans going)

section Step

variable (reports : run.Reports)

include reports

theorem Reports.advance
    (advances : Advances run.machine next.machine) (onward : Onward run.machine next.machine)
    (turns : next.turns = run.turns) (trace : next.machine.trace = run.machine.trace)
    (due : ∀ id, run.machine.Due id → ∃ step, run.SelectsFor step id (.stop id))
    (ends : run.machine.ended = false → next.machine.ended = true →
      ∀ step id, run.SelectsFor step id (.stop id) → run.machine.Over id) : next.Reports where
  accounted := advances.accounted
  traced := by
    rw [trace, turns]
    exact reports.traced
  stopped id gone := by
    simp only [selectsFor_congr_iff turns]
    exact (advances.ages.due_of_over gone).elim (reports.stopped id) (due id)
  settled ended step id selects := by
    rw [selectsFor_congr_iff turns] at selects
    apply advances.ages.over
    cases before : run.machine.ended with
    | true => exact reports.settled before step id selects
    | false => exact ends before ended step id selects
  deadlocked := by
    rw [advances.deadlocked, reports.deadlocked, turns]
    cases before : run.machine.ended with
    | true => rw [advances.ages.live before]
    | false => rw [if_neg (reports.undecided before), if_neg (reports.undecided before)]
  undecided still := by
    rw [turns]
    exact reports.undecided (onward.going still)

variable {decision : Decision} (choosing : run.machine.control = .choosing id)
  (turns : next.turns = run.turns.push ⟨id, run.machine.snapshots, decision⟩)

include choosing turns

theorem Reports.stopped_push
    (ages : run.machine.Ages next.machine) (other : ActorId) (gone : next.machine.Over other) :
    ∃ step, next.SelectsFor step other (.stop other) := by
  have undue : ¬ run.machine.Due other := fun due => by cases choosing.symm.trans due.control
  obtain ⟨step, selects⟩ := reports.stopped other ((ages.due_of_over gone).resolve_right undue)
  exact ⟨step, selects.mono fun _ _ selects => (selects_push_iff turns).mpr (.inl selects)⟩

theorem Reports.decideRun
    {chosen : ActorId} {target : Actor σ μ} (runs : decision = .run chosen)
    (going : run.machine.ended = false) (advances : Advances run.machine next.machine)
    (machine : next.machine = (run.machine.advance chosen target.record).switch id chosen) :
    next.Reports := by
  obtain ⟨actors, same⟩ := exists_run_eq run.machine id chosen target.record
  have still : next.machine.ended = false := by
    rw [machine, same]
    exact going
  have last : next.turns.back?.map Turn.decision ≠ some .deadlock := by
    rw [turns, Array.back?_push, Option.map_some, runs]
    nofun
  refine ⟨advances.accounted, ?_, reports.stopped_push choosing turns advances.ages, ?_, ?_,
    fun _ => last⟩
  · rw [machine, same, turns, Array.toList_push, Array.toList_push, List.filterMap_append,
      ← reports.traced, runs]
    rfl
  · intro ended
    cases ended.symm.trans still
  · rw [if_neg last, advances.deadlocked, reports.deadlocked, if_neg (reports.undecided going)]

theorem Reports.decideStop
    (lives : run.Lives) (going : run.machine.ended = false)
    (stops : ∀ target, decision ≠ .run target) (ages : run.machine.Ages next.machine)
    (accounted : next.machine.Accounted)
    (machine : next.machine = run.machine.decided id decision) : next.Reports := by
  have fresh : run.machine.deadlocked = [] := by
    rw [reports.deadlocked, if_neg (reports.undecided going)]
  have unchosen : decision.actor? = none := by
    cases decision with
    | run target => exact absurd rfl (stops target)
    | deadlock | sleepSetBlocked | hitStepLimit => rfl
  refine ⟨accounted, ?_, reports.stopped_push choosing turns ages, ?_, ?_, ?_⟩
  · rw [machine, (tacit_decided run.machine id stops).trace, turns, Array.toList_push,
      List.filterMap_append, ← reports.traced]
    simp [unchosen]
  · rintro - step other ⟨snapshot, selects, rfl, stop⟩
    apply ages.over
    rcases (selects_push_iff turns).mp selects with selects | ⟨-, chosen, -⟩
    · exact lives.over_of_stopped choosing selects (congrArg Operation.kind stop)
    · exact absurd chosen (stops _)
  · rw [machine, deadlocked_decided fresh id stops, live_decided id stops, turns,
      Array.back?_push, Option.map_some]
    simp only [Option.some.injEq]
  · intro still
    rw [machine, ended_decided stops] at still
    cases still

end Step

theorem reports_start (program : Program σ μ) (number : Nat) (policy : π) :
    (start program number policy).Reports where
  accounted := by
    constructor
    · intro id life lives
      obtain ⟨actor, there, rfl⟩ := exists_of_life? lives
      obtain ⟨rfl, rfl⟩ := eq_of_get?_start there
      exact .body none
    · intro id busy
      cases busy
      exact ⟨_, rfl, rfl⟩
    · nofun
  traced := rfl
  stopped id gone := by
    obtain ⟨actor, there, terminated⟩ := gone
    obtain ⟨rfl, rfl⟩ := eq_of_get?_start there
    cases terminated
  settled ended := by cases ended
  deadlocked := rfl
  undecided _ := nofun

variable [Scheduler π]

theorem Steps.uncrashed
    (steps : Steps program run log next) (sane : run.machine.Sane)
    (uncrashed : next.machine.crashes = []) : run.machine.crashes = [] := by
  by_contra crashed
  exact (steps.onward sane).crashes crashed uncrashed

theorem Steps.selects
    (steps : Steps program run log next) (step : Nat) (snapshot : Snapshot)
    (selects : run.Selects step snapshot) : next.Selects step snapshot := by
  cases steps with
  | tick | fail => exact selects.congr rfl
  | decide => exact (selects_push_iff rfl).mpr (.inl selects)

theorem Steps.reports
    (steps : Steps program run log next) (reports : run.Reports)
    (lives : run.machine.ended = false → run.Lives)
    (punctual : run.machine.ended = false → run.Punctual)
    (sound : run.machine.Sound handles) (discreet : program.Discreet handles)
    (legal : ∀ turn ∈ next.turns, turn.Legal) (uncrashed : next.machine.crashes = []) :
    run.machine.Ages next.machine ∧ next.Reports := by
  have onward := steps.onward sound.sane
  cases steps with
  | tick undecided =>
      have advances := reports.accounted.next sound discreet undecided uncrashed
      refine ⟨advances.ages,
        reports.advance advances onward rfl (trace_next program run.machine) ?_ ?_⟩
      · intro id due
        exact ⟨_, selectsFor_of_due (sound.going due.going).1 (punctual due.going) due⟩
      · rintro going ended step id ⟨snapshot, selects, rfl, stop⟩
        obtain ⟨consistent, guarded⟩ := sound.going going
        rcases (lives going).stopped step snapshot selects (congrArg Operation.kind stop) with
          gone | ⟨control, ending⟩
        · exact gone
        · have still := going_of_due consistent (guarded.honest discreet) ⟨going, control, ending⟩
          cases still.symm.trans ended
  | @decide id decision policy written choosing chosen =>
      have going : run.machine.ended = false :=
        Bool.of_not_eq_true fun ended => sound.sane.decided ended id choosing
      by_cases runs : ∃ target, decision = .run target
      · obtain ⟨target, rfl⟩ := runs
        obtain ⟨coherent, -⟩ := (sound.going going).1.of_choosing choosing
        obtain ⟨actor, there, enabled, same⟩ :=
          decided_run coherent (legal _ Array.mem_push_self target rfl)
        have advances : Advances run.machine (run.machine.decided id (.run target)) := by
          rw [same]
          exact reports.accounted.run id target actor.record
        exact ⟨advances.ages, reports.decideRun choosing rfl rfl going advances same⟩
      · have stops : ∀ target, decision ≠ .run target := fun target same => runs ⟨target, same⟩
        obtain ⟨ages, accounted⟩ := reports.accounted.stop id stops
        exact ⟨ages, reports.decideStop choosing rfl (lives going) going stops ages accounted rfl⟩
  | @fail id fault policy choosing =>
      have advances : Advances run.machine (run.machine.crashed id fault) :=
        reports.accounted.crash uncrashed
      refine ⟨advances.ages,
        reports.advance advances onward rfl (tacit_crash run.machine id fault _).trace ?_ ?_⟩
      · intro other due
        cases choosing.symm.trans due.control
      · intro going ended
        have still : (run.machine.crashed id fault).ended = false := by
          rw [show run.machine.crashed id fault = _ from (pass_of_uncrashed uncrashed).1]
          exact going
        cases still.symm.trans ended

theorem Reached.reports
    (discreet : program.Discreet handles)
    (reached : Reached program (start program number policy) run)
    (legal : ∀ turn ∈ run.turns, turn.Legal) (uncrashed : run.machine.crashes = []) :
    run.Reports := by
  induction reached with
  | here => exact reports_start program number policy
  | @step run reached log induction =>
      have sane := reached.sane (sane_start (program.root number))
      have steps : Steps program run log _ := steps_step sane log
      have before : ∀ turn ∈ run.turns, turn.Legal :=
        fun turn member => legal turn (steps.mem_turns member)
      have sound := reached.sound (sound_start discreet number policy) discreet before
      have earlier := steps.uncrashed sane uncrashed
      exact (steps.reports (induction before earlier) (reached.lives discreet before).2
        (reached.punctual discreet before) sound discreet legal uncrashed).2

end Run

end Interleave
