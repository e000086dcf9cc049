import Interleave.Proofs.Run.Replay
import Interleave.Proofs.Search.Exploring

namespace Interleave

open TransitionSystem Policy.Search

variable {σ μ : Type} {program : Program σ μ} {machine point : Machine σ μ} {id : ActorId}

namespace Machine

open Classical in
/-- The machine at the next scheduling point, if it comes to one. -/
noncomputable def pause? (program : Program σ μ) (machine : Machine σ μ) :
    Option (Machine σ μ) :=
  if comes : ∃ point, Ticks program machine point ∧ ∃ id, point.control = .choosing id then
    some comes.choose
  else none

theorem pause?_eq_some_iff :
    machine.pause? program = some point ↔
      Ticks program machine point ∧ ∃ id, point.control = .choosing id := by
  unfold pause?
  split
  · rename_i comes
    obtain ⟨ticks, id, choosing⟩ := comes.choose_spec
    rw [Option.some.injEq]
    constructor
    · rintro rfl
      exact ⟨ticks, id, choosing⟩
    · rintro ⟨others, other, also⟩
      exact (ticks.unique others choosing also).symm
  · rename_i never
    constructor
    · intro impossible
      cases impossible
    · intro comes
      exact absurd ⟨point, comes⟩ never

theorem pause?_of_choosing (choosing : machine.control = .choosing id) :
    machine.pause? program = some machine :=
  pause?_eq_some_iff.mpr ⟨.here, id, choosing⟩

theorem pause?_of_finished (finished : machine.control = .finished) :
    machine.pause? program = none := by
  rw [Option.eq_none_iff_forall_ne_some]
  intro point comes
  obtain ⟨ticks, id, choosing⟩ := pause?_eq_some_iff.mp comes
  exact ticks.not_finished .here choosing finished

theorem pause?_next (undecided : ∀ id, machine.control ≠ .choosing id) :
    (machine.next program).pause? program = machine.pause? program := by
  by_cases finished : machine.control = .finished
  · rw [next_of_finished program finished]
  · ext point
    rw [pause?_eq_some_iff, pause?_eq_some_iff]
    constructor
    · rintro ⟨ticks, chooses⟩
      exact ⟨.tick undecided finished ticks, chooses⟩
    · rintro ⟨ticks, id, choosing⟩
      cases ticks with
      | here => exact absurd choosing (undecided id)
      | tick _ _ ticks => exact ⟨ticks, id, choosing⟩

end Machine

open Machine

noncomputable def Program.system (program : Program σ μ) (body : σ) : TransitionSystem where
  State := Option (Machine σ μ)
  initial := (Machine.start body).pause? program
  actors state := (state.map Machine.snapshots).getD []
  step state actor := state.bind fun machine =>
    match machine.control with
    | .choosing id => (machine.decided id (.run actor)).pause? program
    | _ => none

theorem numbered_system (program : Program σ μ) (body : σ) : (program.system body).Numbered := by
  intro state index snapshot there
  cases state with
  | none => cases there
  | some machine => exact numbered_snapshots machine index snapshot there

namespace Run

variable {body : σ} {settings : Settings} {rounds : List Round} {policy : Policy.Search}
  {run next first : Run Policy.Search σ μ} {log : Log} {number : Nat}

/-- The turns of a run so far are those of one more execution of the system, and the trace is what
they have run. -/
inductive Tracks (program : Program σ μ) (body : σ) (settings : Settings) (rounds : List Round)
    (policy : Policy.Search) (run : Run Policy.Search σ μ) : Prop
  | going
      (past : (program.system body).Past settings rounds policy run.turns.toList run.policy)
      (pauses : run.machine.pause? program =
        (program.system body).after (program.system body).initial (ran run.turns.toList))
      (traced : run.machine.trace.toList = ran run.turns.toList) :
      Tracks program body settings rounds policy run
  | stopped {turns : List Turn} {between : Policy.Search} {id : ActorId} {decision : Decision}
      {log written : Log}
      (past : (program.system body).Past settings rounds policy turns between)
      (chosen : (Policy.Search.choose ((program.system body).actors
        ((program.system body).after (program.system body).initial (ran turns))) id).Returns
          (between, log) decision (run.policy, written))
      (idle : decision.actor? = none)
      (asked : run.turns.toList = turns ++ [⟨id, (program.system body).actors
        ((program.system body).after (program.system body).initial (ran turns)), decision⟩])
      (traced : run.machine.trace.toList = ran turns) (ended : run.machine.ended = true) :
      Tracks program body settings rounds policy run

theorem tracks_start
    (past : (program.system (program.root number)).Past settings rounds policy [] policy) :
    Tracks program (program.root number) settings rounds policy (start program number policy) :=
  .going past rfl rfl

theorem shown_of_choosing
    {turns : List Turn} (choosing : run.machine.control = .choosing id)
    (pauses : run.machine.pause? program =
      (program.system body).after (program.system body).initial (ran turns)) :
    (program.system body).actors ((program.system body).after (program.system body).initial
      (ran turns)) = run.machine.snapshots := by
  rw [← pauses, pause?_of_choosing choosing]
  rfl

/-- Only so many actors that the numbers of any two can be added. More do not fit in a memory. -/
def Roomy (run : Run Policy.Search σ μ) : Prop := 2 * run.machine.actors.size ≤ wordSize

theorem Tracks.exists_choice
    (tracks : Tracks program body settings rounds policy run) (sane : run.machine.Sane)
    (roomy : run.Roomy) (choosing : run.machine.control = .choosing id) (log : Log) :
    ∃ decision after, (Policy.Search.choose run.machine.snapshots id).Returns (run.policy, log)
      decision after := by
  cases tracks with
  | stopped _ _ _ _ _ ended => exact absurd choosing (sane.decided ended id)
  | going past pauses traced =>
      have present := sane.present id (by rw [choosing]; rfl)
      have shown := shown_of_choosing choosing pauses
      rw [← shown]
      refine past.exists_choice (fun _ _ => ?_) log
      rw [shown, length_snapshots]
      unfold Roomy at roomy
      omega

theorem Steps.tracks
    (steps : Steps program run log next) (tracks : Tracks program body settings rounds policy run)
    (sane : run.machine.Sane) (roomy : run.Roomy) :
    Tracks program body settings rounds policy next := by
  cases steps with
  | tick undecided =>
      have traced := congrArg Array.toList (trace_next program run.machine)
      cases tracks with
      | going past pauses same =>
          exact .going past ((pause?_next undecided).trans pauses) (traced.trans same)
      | stopped past chosen idle asked same ended =>
          exact .stopped past chosen idle asked (traced.trans same)
            ((onward_next program sane).ended ended)
  | @decide id decision policy written choosing chosen =>
      cases tracks with
      | stopped _ _ _ _ _ ended => exact absurd choosing (sane.decided ended id)
      | going past pauses traced =>
          have shown := shown_of_choosing choosing pauses
          by_cases runs : ∃ actor, decision = .run actor
          · obtain ⟨actor, rfl⟩ := runs
            rw [← shown] at chosen
            have onward := past.snoc (numbered_system program body) chosen
            rw [shown] at onward
            refine .going ?_ ?_ ?_
            · rw [Array.toList_push]
              exact onward
            · rw [Array.toList_push, ran_append, after_append, ← pauses,
                pause?_of_choosing choosing]
              change _ = (match run.machine.control with | .choosing id => _ | _ => none)
              rw [choosing]
            · rw [Array.toList_push, ran_append, trace_decided_run, Array.toList_push, traced]
              rfl
          · have stops : ∀ actor, decision ≠ .run actor := fun actor same => runs ⟨actor, same⟩
            have idle : decision.actor? = none := by
              cases decision with
              | run actor => exact absurd rfl (stops actor)
              | _ => rfl
            rw [← shown] at chosen
            refine .stopped past chosen idle ?_ ?_ (ended_decided stops)
            · rw [Array.toList_push, shown]
            · rw [(tacit_decided run.machine id stops).trace, traced]
  | @fail id fault policy choosing failed =>
      obtain ⟨decision, after, chosen⟩ := tracks.exists_choice sane roomy choosing log
      exact absurd (congrArg Prod.fst failed) chosen.not_fails

theorem Reached.tracks
    (past : (program.system (program.root number)).Past settings rounds policy [] policy)
    (reached : Reached program (start program number policy) run) (roomy : run.Roomy) :
    Tracks program (program.root number) settings rounds policy run := by
  induction reached with
  | here => exact tracks_start past
  | @step run reached log induction =>
      have sane := reached.sane (sane_start (program.root number))
      have steps : Steps program run log _ := steps_step sane log
      have before : run.Roomy :=
        Nat.le_trans (Nat.mul_le_mul_left 2 (steps.onward sane).size) roomy
      exact steps.tracks (induction before) sane before

end Run

namespace TransitionSystem.Past

variable {system : TransitionSystem} {settings : Settings} {rounds : List Round}
  {policy between next : Policy.Search} {turns : List Turn} {log written : Log}
  {decision : Decision} (past : system.Past settings rounds policy turns between)
  (numbered : system.Numbered)

include past numbered

theorem exists_enabled
    {actor : ActorId}
    (chosen : (choose (system.actors (system.after system.initial (ran turns))) id).Returns
      (between, log) (.run actor) (next, written)) :
    ∃ snapshot ∈ system.actors (system.after system.initial (ran turns)),
      snapshot.id = actor ∧ snapshot.enabled = true := by
  have runs := (past.snoc numbered chosen).runs.1
  rw [ran_append, runs_append] at runs
  obtain ⟨operation, does⟩ := Option.isSome_iff_exists.mp runs.2.1
  obtain ⟨snapshot, there, enabled, -⟩ := exists_of_operation? does
  exact ⟨snapshot, List.mem_of_getElem? there, numbered _ _ _ there, enabled⟩

theorem fits
    (chosen : (choose (system.actors (system.after system.initial (ran turns))) id).Returns
      (between, log) decision (next, written)) :
    Interleave.Fits (system.actors (system.after system.initial (ran turns))) (.ok decision) := by
  cases decision with
  | run actor => exact past.exists_enabled numbered chosen
  | sleepSetBlocked | hitStepLimit => trivial
  | deadlock =>
      obtain ⟨kept, stack, -, along⟩ := past.exists_along
      cases along.chooses (numbered _) chosen with
      | @idle _ frame _ _ _ _ _ opened done _ judged =>
          intro snapshot member
          rw [← opened.actors] at member
          obtain ⟨entry, listed, rfl⟩ := List.mem_map.mp member
          cases enabled : entry.snapshot.enabled with
          | false => rfl
          | true =>
              obtain ⟨index, there⟩ := List.mem_iff_getElem?.mp listed
              have asleep := opened.asleep done index entry there enabled
              have disabled : entry.snapshot.enabled = false :=
                disabled_of_verdict judged.symm there asleep
              rw [enabled] at disabled
              cases disabled

/-- An execution that comes to no scheduling point any more has repeated all that it had to. -/
theorem beyond (nobody : system.actors (system.after system.initial (ran turns)) = []) :
    policy.schedule.length ≤ turns.length := by
  by_contra short
  obtain ⟨kept, stack, stays, along⟩ := past.exists_along
  rw [stays.stacked, Schedule.length_ofStack] at short
  have within : turns.length < kept.length := Nat.lt_of_not_le short
  have stands := along.stands
  rw [← along.kin.randomized] at stands
  obtain ⟨turn, there, -, -, agrees⟩ := stands.exists_former
    (by rw [along.length]; omega) (stays.free along within) along.stacked
    (system.actors (system.after system.initial (ran turns))) .root (.empty .error)
  have same := past.shown_former turns.length turn there
  rw [← stands.ran_eq (by rw [along.length]; omega)] at same
  obtain ⟨actor, after, chosen, -⟩ := agrees same
  obtain ⟨snapshot, member, -⟩ := past.exists_enabled numbered chosen
  rw [nobody] at member
  cases member

end TransitionSystem.Past

namespace Run

variable {body : σ} {settings : Settings} {rounds : List Round} {policy : Policy.Search}
  {run : Run Policy.Search σ μ} {log : Log} {number : Nat}

theorem Tracks.exists_over
    (tracks : Tracks program body settings rounds policy run)
    (finished : run.machine.control = .finished) :
    ∃ turns between, (program.system body).Past settings rounds policy turns between ∧
      Over policy turns between run.policy := by
  cases tracks with
  | stopped past chosen idle => exact ⟨_, _, past, .idle (numbered_system program body _) chosen idle⟩
  | going past pauses traced =>
      rw [pause?_of_finished finished] at pauses
      refine ⟨_, _, past, .stopped (past.beyond (numbered_system program body) ?_)⟩
      rw [← pauses]
      rfl

end Run

end Interleave
