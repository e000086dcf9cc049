import Interleave.Proofs.Run.Outcomes
import Interleave.Proofs.Run.Summaries

namespace Interleave

variable {σ μ : Type}

/-- A body says that the execution has ended only if it has learned that. -/
def Program.Candid (program : Program σ μ) : Prop :=
  ∀ view body reply, reply ≠ .error .terminated →
    program.resume view body reply ≠ .return (.error .terminated)

/-- A failure is a bug if it is a panic, or one of the root that was not cancelled. -/
def ActorError.Counts (error : ActorError) (id : ActorId) : Prop :=
  id = .root ∧ error ≠ .cancelled ∨ error.isPanic = true

/-- Nobody believes that the execution has ended. -/
def Control.Hopeful : Control σ μ → Prop
  | .resuming _ _ reply => reply ≠ .error .terminated
  | .closing _ result => result ≠ .error .terminated
  | .choosing _ | .returning _ | .finished => True

namespace Fate

variable {id : ActorId} {error : ActorError} {result : Except ActorError Unit}

theorem close_of_counts (counts : error.Counts id) (hopeful : error ≠ .terminated) :
    (going none).close id (.error error) = { going (some error) with ended := true } := by
  have loud : id = .root ∨ error.isPanic = true := counts.imp_left And.left
  have calm : error ≠ .cancelled := by
    rintro rfl
    exact counts.elim (fun root => root.2 rfl) nofun
  cases error with
  | terminated => exact absurd rfl hopeful
  | cancelled => exact absurd rfl calm
  | _ => exact if_pos loud

theorem close_of_mild
    (mild : ∀ error, result = .error error → ¬ error.Counts id)
    (hopeful : result ≠ .error .terminated) : (going none).close id result = going none := by
  cases result with
  | ok => rfl
  | error error =>
      have calm := mild error rfl
      cases error with
      | terminated => exact absurd rfl hopeful
      | cancelled => rfl
      | _ => exact if_neg fun loud => calm (loud.imp_left fun root => ⟨root, nofun⟩)

end Fate

namespace Machine

variable {program : Program σ μ} {machine after : Machine σ μ} {id : ActorId} {actor : Actor σ μ}
  {error : ActorError} {result : Except ActorError Unit}

structure Hopeful (machine : Machine σ μ) : Prop where
  fate : machine.fate = .going none
  control : machine.control.Hopeful

theorem control_reach
    (going : machine.ended = false) (id : ActorId) (operation : Operation) (stage : Stage σ μ) :
    (machine.reach id operation stage).control = .choosing id := by
  obtain ⟨enabled, same⟩ := reach_eq going id operation stage
  rw [same]

theorem Completes.hopeful
    {pending : Pending σ μ} {answer : Reply μ} (completes : Completes machine pending answer after) :
    answer ≠ .error .terminated := by
  cases completes with
  | join =>
      split
      · nofun
      · nofun
  | start | create | send | wake | receive | pass => nofun

theorem Moves.hopeful
    (moves : Moves program machine after) (candid : program.Candid)
    (hopeful : machine.control.Hopeful) (going : machine.ended = false)
    (still : after.ended = false) : after.control.Hopeful := by
  cases moves with
  | ends ended => cases still.symm.trans ended
  | call control acts performs =>
      cases performs with
      | announce prepares =>
          rw [control_reach ((going_of_prepares prepares).trans going)]
          trivial
      | reply replies =>
          change _ ≠ _
          cases replies <;> nofun
  | @close id body reply control result acts =>
      rw [control] at hopeful
      rintro rfl
      cases action : program.resume ((machine.setStage id .running).view id) body reply with
      | call => rw [action] at acts; cases acts
      | «return» result =>
          rw [action] at acts
          cases acts
          exact candid _ body reply hopeful action
      | panic => rw [action] at acts; cases acts
  | complete control there completes => exact completes.hopeful
  | finish control there =>
      rw [control_reach ((ended_finish there).trans going)]
      trivial
  | @settle id result settled control calm settles =>
      have same : settled.ended = machine.ended := by cases settles <;> rfl
      rw [control_reach (same.trans going)]
      trivial

/-- A failure that is a bug ends the execution. -/
theorem Hopeful.fate_of_counts
    (hopeful : machine.Hopeful) (control : machine.control = .closing id (.error error))
    (counts : error.Counts id) :
    (machine.next program).fate = { Fate.going (some error) with ended := true } := by
  have calm := hopeful.control
  rw [control] at calm
  rw [fate_of_closing program control, hopeful.fate]
  exact Fate.close_of_counts counts fun same => calm (by rw [same])

/-- Any other end of a body means nothing for the execution. -/
theorem Hopeful.fate_of_mild
    (hopeful : machine.Hopeful) (control : machine.control = .closing id result)
    (mild : ∀ error, result = .error error → ¬ error.Counts id) :
    (machine.next program).fate = .going none := by
  have calm := hopeful.control
  rw [control] at calm
  rw [fate_of_closing program control, hopeful.fate]
  exact Fate.close_of_mild mild calm

theorem Hopeful.fate_next
    (hopeful : machine.Hopeful) (moves : Moves program machine (machine.next program))
    (still : (machine.next program).ended = false) : (machine.next program).fate = .going none := by
  by_cases closes : ∃ id result, machine.control = .closing id result
  · obtain ⟨id, result, control⟩ := closes
    apply hopeful.fate_of_mild control
    rintro error rfl counts
    cases still.symm.trans (congrArg Fate.ended (hopeful.fate_of_counts control counts))
  · rw [moves.fate still fun id result control => closes ⟨id, result, control⟩]
    exact hopeful.fate

theorem faults_reach
    {operation : Operation} {stage : Stage σ μ} {life : Life}
    (there : machine.actors.get? id = some actor)
    (lives : (machine.reach id operation stage).life? id = some life) :
    life.faults = actor.record.faults := by
  rw [(calm_placed machine id operation stage).lives, life?, get?_setStage, there, Option.map_some,
    Option.map_some, if_pos rfl] at lives
  cases lives
  rfl

theorem faults_of_closing
    {life : Life} (control : machine.control = .closing id result)
    (there : machine.actors.get? id = some actor)
    (lives : (machine.next program).life? id = some life) :
    (result = .ok () → life.faults = actor.record.faults) ∧
      (result = .error .cancelled → life.faults = actor.record.faults ++ [.cancelled]) := by
  have next : machine.next program =
      ((settle id result machine).run (.empty .trace)).1.reach id (.stop id) (.ending false) := by
    unfold Machine.next tick
    rw [control]
    rfl
  rw [next] at lives
  constructor
  · rintro rfl
    exact faults_reach there lives
  · rintro rfl
    have noted := get?_modifyRecord machine id id fun record =>
      { record.addFault .cancelled with cancelled := true }
    rw [there, Option.map_some, if_pos rfl] at noted
    exact faults_reach noted lives

end Machine

namespace Run

open Machine

variable {π : Type} {program : Program σ μ} {handles : Handles σ μ} {run next first : Run π σ μ}
  {number : Nat} {policy : π} {id : ActorId} {log : Log}

section Hopeful

variable [Scheduler π]

theorem Steps.hopeful
    (steps : Steps program run log next) (sound : run.machine.Sound handles)
    (discreet : program.Discreet handles) (candid : program.Candid)
    (legal : ∀ turn ∈ next.turns, turn.Legal) (hopeful : run.machine.Hopeful)
    (still : next.machine.ended = false) : next.machine.Hopeful := by
  have going : run.machine.ended = false := congrArg Fate.ended hopeful.fate
  obtain ⟨consistent, guarded⟩ := sound.going going
  cases steps with
  | tick undecided =>
      have moves := moves_next consistent going (guarded.honest discreet) undecided
      exact ⟨hopeful.fate_next moves still, moves.hopeful candid hopeful.control going still⟩
  | @decide id decision policy written choosing chosen =>
      by_cases runs : ∃ target, decision = .run target
      · obtain ⟨target, rfl⟩ := runs
        obtain ⟨coherent, -⟩ := consistent.of_choosing choosing
        obtain ⟨actor, there, enabled, same⟩ :=
          decided_run coherent (legal _ Array.mem_push_self target rfl)
        obtain ⟨actors, control⟩ := exists_run_eq run.machine id target actor.record
        refine ⟨?_, ?_⟩
        · rw [same, fate_switch, fate_advance]
          exact hopeful.fate
        · rw [same, control]
          trivial
      · have ended : (run.machine.decided id decision).ended = true :=
          ended_decided fun target same => runs ⟨target, same⟩
        cases still.symm.trans ended
  | @fail id fault policy choosing =>
      rcases crashed_or run.machine id fault with same | ended
      · rw [same]
        exact ⟨hopeful.fate, nofun⟩
      · cases still.symm.trans ended

theorem Reached.hopeful
    (discreet : program.Discreet handles) (candid : program.Candid)
    (reached : Reached program (start program number policy) run)
    (legal : ∀ turn ∈ run.turns, turn.Legal) (going : run.machine.ended = false) :
    run.machine.Hopeful := by
  induction reached with
  | here => exact ⟨rfl, nofun⟩
  | @step run reached log induction =>
      have sane := reached.sane (sane_start (program.root number))
      have steps : Steps program run log _ := steps_step sane log
      have before : ∀ turn ∈ run.turns, turn.Legal :=
        fun turn member => legal turn (steps.mem_turns member)
      have sound := reached.sound (sound_start discreet number policy) discreet before
      have earlier := (steps.onward sane).going going
      exact steps.hopeful sound discreet candid legal (induction before earlier) going

end Hopeful

/-- How an execution ends that nothing crashes: a body fails, or the scheduler decides it. -/
inductive Ending (program : Program σ μ) (run next : Run π σ μ) : Prop
  | fails {id : ActorId} {error : ActorError}
      (control : run.machine.control = .closing id (.error error)) (counts : error.Counts id)
      (machine : next.machine = run.machine.next program) : Ending program run next
  | decides {id : ActorId} {decision : Decision} (choosing : run.machine.control = .choosing id)
      (stops : ∀ target, decision ≠ .run target)
      (turn : ⟨id, run.machine.snapshots, decision⟩ ∈ next.turns)
      (machine : next.machine = run.machine.decided id decision) : Ending program run next

theorem ending_next
    (hopeful : run.machine.Hopeful) (accounted : run.machine.Accounted)
    (sound : run.machine.Sound handles) (discreet : program.Discreet handles)
    (undecided : ∀ id, run.machine.control ≠ .choosing id)
    (ended : (run.machine.next program).ended = true)
    (uncrashed : (run.machine.next program).crashes = [])
    (machine : next.machine = run.machine.next program) : Ending program run next := by
  have going : run.machine.ended = false := congrArg Fate.ended hopeful.fate
  obtain ⟨consistent, guarded⟩ := sound.going going
  cases control : run.machine.control with
  | resuming id body reply =>
      have embodied := accounted.embodied id (by rw [control]; rfl)
      obtain ⟨calm, -⟩ := calm_next control embodied uncrashed
      cases (calm.ended.trans going).symm.trans ended
  | returning id =>
      obtain ⟨coherent, actor, there, enabled, placed⟩ := consistent.of_returning control
      have proceeds := proceeds_next control coherent there enabled placed going
        (guarded.honest discreet)
      have same : (run.machine.next program).fate = run.machine.fate := by
        generalize run.machine.next program = after at proceeds
        cases proceeds with
        | complete there completes => rw [fate_pass, completes.fate]
        | finish there => rw [fate_reach, fate_finish there]
      cases ended.symm.trans ((congrArg Fate.ended same).trans going)
  | closing id result =>
      by_cases counts : ∃ error, result = .error error ∧ error.Counts id
      · obtain ⟨error, rfl, counts⟩ := counts
        exact .fails control counts machine
      · have kept : (run.machine.next program).fate = .going none :=
          hopeful.fate_of_mild control fun error same counted => counts ⟨error, same, counted⟩
        cases ended.symm.trans (congrArg Fate.ended kept)
  | choosing id => exact absurd control (undecided id)
  | finished =>
      rw [next_of_finished program control] at ended
      cases ended.symm.trans going

variable [Scheduler π]

theorem Steps.ending
    (steps : Steps program run log next) (hopeful : run.machine.Hopeful)
    (accounted : run.machine.Accounted) (sound : run.machine.Sound handles)
    (discreet : program.Discreet handles) (legal : ∀ turn ∈ next.turns, turn.Legal)
    (ended : next.machine.ended = true) (uncrashed : next.machine.crashes = []) :
    Ending program run next := by
  have going : run.machine.ended = false := congrArg Fate.ended hopeful.fate
  cases steps with
  | tick undecided =>
      exact ending_next hopeful accounted sound discreet undecided ended uncrashed rfl
  | @decide id decision policy written choosing chosen =>
      by_cases runs : ∃ target, decision = .run target
      · obtain ⟨target, rfl⟩ := runs
        obtain ⟨coherent, -⟩ := (sound.going going).1.of_choosing choosing
        obtain ⟨actor, there, enabled, same⟩ :=
          decided_run coherent (legal _ Array.mem_push_self target rfl)
        have kept : (run.machine.decided id (.run target)).fate = run.machine.fate := by
          rw [same, fate_switch, fate_advance]
        cases ended.symm.trans ((congrArg Fate.ended kept).trans going)
      · exact .decides choosing (fun target same => runs ⟨target, same⟩) Array.mem_push_self rfl
  | @fail id fault policy choosing =>
      have passed : run.machine.crashed id fault = _ := (pass_of_uncrashed uncrashed).1
      have still : (run.machine.crashed id fault).ended = false := by
        rw [passed]
        exact going
      cases ended.symm.trans still

section Blames

def Closes (program : Program σ μ) (first : Run π σ μ) (log : Log) (id : ActorId)
    (result : Except ActorError Unit) : Prop :=
  ∃ step, (first.after program log step).machine.ended = false ∧
    (first.after program log step).machine.control = .closing id result

def Fails (program : Program σ μ) (first : Run π σ μ) (log : Log) (id : ActorId)
    (error : ActorError) : Prop :=
  first.Closes program log id (.error error) ∧ error.Counts id

/-- How the root has ended if nothing was wrong, with these faults. -/
inductive Absolved (program : Program σ μ) (first : Run π σ μ) (log : Log) :
    List ActorError → Prop
  | returned (closes : first.Closes program log .root (.ok ())) : Absolved program first log []
  | cancelled (closes : first.Closes program log .root (.error .cancelled)) :
      Absolved program first log [.cancelled]

/-- The outcome is the failure that is a bug if there is one. Where an execution was completed, the
root has terminated, and its body returned or was cancelled. -/
structure Blames (program : Program σ μ) (first : Run π σ μ) (log : Log) (execution : Execution) :
    Prop where
  fails : ∀ id error, first.Fails program log id error → execution.outcome = .bug error
  found : ∀ error, execution.outcome = .bug error → error ≠ .deadlock →
    ∃ id, first.Fails program log id error
  completed : execution.outcome = .completed → ∃ status ∈ execution.statuses,
    status.id = .root ∧ status.terminated = true ∧
      (status.cancelled = true ↔ status.faults = [.cancelled]) ∧
      first.Absolved program log status.faults

variable {late step : Nat}

theorem legal_of_fits {turn : Turn} (fits : Fits turn.actors (.ok turn.decision)) : turn.Legal := by
  intro next chosen
  cases decision : turn.decision with
  | run target =>
      rw [decision] at fits chosen
      cases chosen
      exact fits
  | deadlock | sleepSetBlocked | hitStepLimit =>
      rw [decision] at chosen
      cases chosen

variable (discreet : program.Discreet handles) (candid : program.Candid)

include discreet candid

/-- The faults of the root come from the end of its body, and stay. -/
theorem faults_of_steps
    {root : Actor σ μ} {life : Life} (reached : Reached program (start program number policy) run)
    (steps : Steps program run log next) (legal : ∀ turn ∈ next.turns, turn.Legal)
    (still : next.machine.ended = false) (there : run.machine.actors.get? .root = some root)
    (lives : next.machine.life? .root = some life) (aged : life.age ≠ .body) :
    root.stage.age ≠ .body ∧ life.faults = root.record.faults ∨
      run.machine.control = .closing .root (.ok ()) ∧ life.faults = [] ∨
      run.machine.control = .closing .root (.error .cancelled) ∧ life.faults = [.cancelled] := by
  have sane := reached.sane (sane_start (program.root number))
  have early : ∀ turn ∈ run.turns, turn.Legal :=
    fun turn member => legal turn (steps.mem_turns member)
  have going := (steps.onward sane).going still
  have hopeful := reached.hopeful discreet candid early going
  have sound := reached.sound (sound_start discreet number policy) discreet early
  have calm := (steps.hopeful sound discreet candid legal hopeful still).fate
  have reports := reached.reports discreet early (congrArg Fate.crashes hopeful.fate)
  have ages := (steps.reports reports (reached.lives discreet early).2
    (reached.punctual discreet early) sound discreet legal (congrArg Fate.crashes calm)).1
  obtain ⟨found, present, aging⟩ := ages.kept .root _ (life?_of_get? there)
  cases present.symm.trans lives
  by_cases closes : ∃ result, run.machine.control = .closing .root result
  · obtain ⟨result, control⟩ := closes
    have blank : root.record.faults = [] := by
      obtain ⟨actor, known, embodied⟩ := reports.accounted.embodied .root (by rw [control]; rfl)
      cases there.symm.trans known
      exact congrArg Life.faults
        ((reports.accounted.proper .root _ (life?_of_get? there)).eq_blank embodied)
    have tick : next.machine = run.machine.next program := by
      cases steps with
      | tick => rfl
      | decide choosing | fail choosing => cases choosing.symm.trans control
    rw [tick] at lives calm
    obtain ⟨returned, cancelled⟩ := faults_of_closing control there lives
    rw [blank] at returned cancelled
    cases result with
    | ok => exact .inr (.inl ⟨control, returned rfl⟩)
    | error error =>
        by_cases mild : error = .cancelled
        · subst mild
          exact .inr (.inr ⟨control, cancelled rfl⟩)
        · have ended : (run.machine.next program).fate = _ :=
            hopeful.fate_of_counts control (.inl ⟨rfl, mild⟩)
          cases calm.symm.trans ended
  · have running : ¬ (run.machine.prospect .root).parting := by
      change ¬ run.machine.ended = true
      rw [going]
      nofun
    obtain ⟨embodied, faults⟩ := aging.embodied_iff closes running
    exact .inl ⟨fun body => aged (embodied.mpr body), faults⟩

variable (origin : first = start program number policy)

omit discreet candid in
include origin in
theorem reached_of_origin (log : Log) (step : Nat) :
    Reached program (start program number policy) (first.after program log step) :=
  origin ▸ reached_after step

include origin

theorem absolved_of_after
    {life : Life} (legal : ∀ turn ∈ (first.after program log step).turns, turn.Legal)
    (going : (first.after program log step).machine.ended = false)
    (lives : (first.after program log step).machine.life? .root = some life)
    (aged : life.age ≠ .body) : first.Absolved program log life.faults := by
  induction step generalizing life with
  | zero =>
      have begun : first.after program log 0 = start program number policy := origin
      rw [begun] at lives
      obtain ⟨actor, there, rfl⟩ := exists_of_life? lives
      obtain ⟨-, rfl⟩ := eq_of_get?_start there
      exact absurd rfl aged
  | succ step induction =>
      by_cases finished : (first.after program log step).isFinished = true
      · rw [after_of_finished finished (Nat.le_succ step)] at lives going legal
        exact induction legal going lives aged
      have reached := reached_of_origin origin log step
      have sane := reached.sane (sane_start _)
      have steps := steps_after sane finished
      have before := (steps.onward sane).going going
      have early : ∀ turn ∈ (first.after program log step).turns, turn.Legal :=
        fun turn member => legal turn (steps.mem_turns member)
      obtain ⟨root, there⟩ := reached.rooted
      rcases faults_of_steps discreet candid reached steps legal going there lives aged with
        ⟨embodied, same⟩ | ⟨control, same⟩ | ⟨control, same⟩
      · rw [same]
        exact induction early before (life?_of_get? there) embodied
      · rw [same]
        exact .returned ⟨step, before, control⟩
      · rw [same]
        exact .cancelled ⟨step, before, control⟩

section Finished

variable (finished : (first.after program log late).machine.control = .finished)
  (fits : ∀ turn ∈ (first.after program log late).turns, Fits turn.actors (.ok turn.decision))

include finished fits

theorem outcome_of_fails {error : ActorError} (fails : first.Fails program log id error) :
    (first.after program log late).machine.outcome = .bug error := by
  obtain ⟨⟨step, going, control⟩, counts⟩ := fails
  have unfinished : ¬ (first.after program log step).isFinished = true := by
    rw [isFinished_iff, control]
    nofun
  have earlier : step < late := by
    refine Nat.lt_of_not_le fun le => unfinished ?_
    have halted := isFinished_iff.mpr finished
    rw [after_of_finished halted le]
    exact halted
  have reached := reached_of_origin origin log step
  have rest : Reached program (first.after program log step) (first.after program log late) :=
    reached_after_of_le (Nat.le_of_lt earlier)
  have sane := reached.sane (sane_start _)
  have hopeful := reached.hopeful discreet candid
    (fun turn member => legal_of_fits (fits turn (rest.mem_turns sane member))) going
  have undecided : ∀ other, (first.after program log step).machine.control ≠ .choosing other := by
    intro other choosing
    cases choosing.symm.trans control
  have steps := steps_after sane unfinished
  have tick : (first.after program log (step + 1)).machine =
      (first.after program log step).machine.next program := by
    generalize first.after program log (step + 1) = next at steps
    cases steps with
    | tick => rfl
    | decide choosing | fail choosing => exact absurd choosing (undecided _)
  have last : Reached program (first.after program log (step + 1)) (first.after program log late) :=
    reached_after_of_le earlier
  have bug : (first.after program log (step + 1)).machine.bug = some error := by
    rw [tick]
    exact congrArg Fate.bug (hopeful.fate_of_counts control counts)
  unfold Machine.outcome
  rw [(last.onward ((steps.onward sane).sane sane)).bug error bug]

/-- An execution that is over was ended by a failure that is a bug, or it was decided how it ends. -/
theorem fails_or_decides
    (unwinds : program.Unwinds)
    (uncrashed : (first.after program log late).machine.crashes = []) :
    (∃ id error, first.Fails program log id error) ∨
      ∃ step ≤ late, ∃ decision, (first.after program log step).machine.ended = false ∧
        (first.after program log step).machine.Decides decision
          (first.after program log late).machine.outcome := by
  have legal : ∀ turn ∈ (first.after program log late).turns, turn.Legal :=
    fun turn member => legal_of_fits (fits turn member)
  have whole := (reached_of_origin origin log late).reports discreet legal uncrashed
  have ended := (whole.accounted.finished finished).1
  obtain ⟨step, earlier, going, last⟩ := exists_ending_step (by rw [origin]; rfl) ended
  have reached := reached_of_origin origin log step
  have sane := reached.sane (sane_start _)
  have unfinished : ¬ (first.after program log step).isFinished = true := by
    intro halted
    rw [after_of_finished halted (Nat.le_succ step), going] at last
    cases last
  have steps := steps_after sane unfinished
  have rest : Reached program (first.after program log (step + 1)) (first.after program log late) :=
    reached_after_of_le earlier
  have later := (steps.onward sane).sane sane
  have soon : ∀ turn ∈ (first.after program log (step + 1)).turns, turn.Legal :=
    fun turn member => legal turn (rest.mem_turns later member)
  have early : ∀ turn ∈ (first.after program log step).turns, turn.Legal :=
    fun turn member => soon turn (steps.mem_turns member)
  have calm : (first.after program log (step + 1)).machine.crashes = [] := by
    by_contra crashed
    exact (rest.onward later).crashes crashed uncrashed
  have hopeful := reached.hopeful discreet candid early going
  have sound := reached.sound (sound_start discreet number policy) discreet early
  have reports := reached.reports discreet early (congrArg Fate.crashes hopeful.fate)
  cases steps.ending hopeful reports.accounted sound discreet soon last calm with
  | @fails id error control counts => exact .inl ⟨id, error, ⟨step, going, control⟩, counts⟩
  | @decides id decision choosing stops turn machine =>
      refine .inr ⟨step, Nat.le_of_lt earlier, decision, going, ?_⟩
      obtain ⟨coherent, -⟩ := (sound.going going).1.of_choosing choosing
      have afoot : (first.after program log step).machine.Afoot := by
        unfold Afoot
        rw [show (first.after program log step).machine.bug = none from
          congrArg Fate.bug hopeful.fate]
        exact hopeful.fate
      obtain ⟨more, rfl⟩ := Nat.exists_eq_add_of_le earlier
      have ends := machine_after_of_ended later last more
      rw [ends, machine] at finished ⊢
      exact decides_iterate unwinds sane afoot (congrArg Fate.bug hopeful.fate) choosing coherent
        reached.rooted stops (fits _ (rest.mem_turns later turn)) finished

theorem blames_of_after
    (unwinds : program.Unwinds)
    (uncrashed : (first.after program log late).machine.crashes = []) :
    first.Blames program log (first.after program log late).machine.summary := by
  have ending := fails_or_decides discreet candid origin finished fits unwinds uncrashed
  have blame {id : ActorId} {error : ActorError} (fails : first.Fails program log id error) :
      (first.after program log late).machine.outcome = .bug error :=
    outcome_of_fails discreet candid origin finished fits fails
  have legal : ∀ turn ∈ (first.after program log late).turns, turn.Legal :=
    fun turn member => legal_of_fits (fits turn member)
  constructor
  case fails => exact fun id error fails => blame fails
  case found =>
    intro error bug other
    change (first.after program log late).machine.outcome = _ at bug
    rcases ending with ⟨id, known, fails⟩ | ⟨step, -, decision, -, decides⟩
    · cases (blame fails).symm.trans bug
      exact ⟨id, fails⟩
    · rw [bug] at decides
      cases decides
      exact absurd rfl other
  case completed =>
    intro completed
    change (first.after program log late).machine.outcome = _ at completed
    rcases ending with ⟨id, error, fails⟩ | ⟨step, le, decision, going, decides⟩
    · cases (blame fails).symm.trans completed
    · rw [completed] at decides
      cases decides with
      | completed gone =>
          obtain ⟨root, there, terminated⟩ := gone
          have reached := reached_of_origin origin log step
          have rest : Reached program (first.after program log step)
            (first.after program log late) := reached_after_of_le le
          have sane := reached.sane (sane_start _)
          have early : ∀ turn ∈ (first.after program log step).turns, turn.Legal :=
            fun turn member => legal turn (rest.mem_turns sane member)
          have hopeful := reached.hopeful discreet candid early going
          have reports := reached.reports discreet early (congrArg Fate.crashes hopeful.fate)
          have lives := life?_of_get? there
          obtain ⟨kept, present, gone, faults⟩ :=
            (reached.outlasts discreet rest legal uncrashed).faults .root _ lives terminated
          obtain ⟨last, found, rfl⟩ := exists_of_life? present
          have whole := (reached_of_origin origin log late).reports discreet legal uncrashed
          have fair := (whole.accounted.proper .root _ present).fair
          have aged : (root.life (first.after program log step).machine.ended).age ≠ .body := by
            intro body
            have blank := (reports.accounted.proper .root _ lives).eq_blank body
            cases terminated.symm.trans (congrArg Life.terminated blank)
          have absolved := absolved_of_after discreet candid origin early going lives aged
          rw [← faults] at absolved
          exact ⟨last.record.status .root, mem_statuses_iff.mpr ⟨last, found, rfl⟩, rfl, gone,
            fair.cancelled_iff, absolved⟩

end Finished

end Blames

end Run

namespace Launcher

variable {π : Type} {program : Program σ μ} {handles : Handles σ μ} {allowance : Allowance}
  {execution : Execution} {launcher : Launcher π μ} {log : Log} {after : Launcher π μ × Log}
  [Scheduler π]

/-- The outcome of an execution of a candid program that unwinds is the first failure that is a bug,
and where it was completed the root has returned or was cancelled. -/
theorem blames_of_executed
    (discreet : program.Discreet handles) (unwinds : program.Unwinds) (candid : program.Candid)
    (executed : (execute program allowance).Returns (launcher, log) execution after)
    (fits : ∀ turn ∈ (launcher.run program allowance log).turns,
      Fits turn.actors (.ok turn.decision)) :
    (Run.start program launcher.executions launcher.policy).Blames program log execution := by
  obtain ⟨run, written, ran, finished, uncrashed, rfl, -⟩ := execute_returns_iff.mp executed
  have same : (Run.start program launcher.executions launcher.policy).after program log
    allowance.ticks = run := congrArg Prod.fst ran
  rw [show launcher.run program allowance log = run from same] at fits
  rw [← same] at finished fits uncrashed ⊢
  exact Run.blames_of_after discreet candid rfl finished fits unwinds uncrashed

theorem unwinds_mishap : Mishap.program.Unwinds := fun _ _ => rfl

theorem candid_mishap : Mishap.program.Candid := by
  intro view body reply unaware ends
  cases reply with
  | error error =>
      cases ends
      exact unaware rfl
  | ok answer => cases body <;> cases answer <;> cases ends

/-- The root fails because an actor that it joins has cancelled itself, which alone is no bug. -/
theorem blames_of_executed_mishap :
    let launcher : Launcher Policy.Search Unit := .ofPolicy false (.ofSettings {})
    ∃ execution after,
      (execute Mishap.program ⟨40, 1⟩).Returns (launcher, .empty .error) execution after ∧
        execution.outcome = .bug (.joined ⟨1⟩ [.cancelled]) ∧
        (∀ turn ∈ (launcher.run Mishap.program ⟨40, 1⟩ (.empty .error)).turns,
          Fits turn.actors (.ok turn.decision)) ∧
        (Run.start Mishap.program launcher.executions launcher.policy).Blames Mishap.program
          (.empty .error) execution := by
  intro launcher
  obtain ⟨after, executed⟩ := executes_mishap
  have fits : ∀ turn ∈ (launcher.run Mishap.program ⟨40, 1⟩ (.empty .error)).turns,
      Fits turn.actors (.ok turn.decision) := by
    decide +kernel
  exact ⟨_, after, executed, rfl, fits, blames_of_executed Mishap.discreet_program unwinds_mishap
    candid_mishap executed fits⟩

end Launcher

end Interleave
