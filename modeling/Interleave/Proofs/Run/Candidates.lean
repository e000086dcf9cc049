import Interleave.Proofs.Run.Awakenings
import Interleave.Proofs.Run.Stacks
import Interleave.Proofs.Search.Preparing

namespace Interleave

namespace Run

open Attempt Machine Policy.Search

variable {σ μ : Type} {program : Program σ μ} {handles : Handles σ μ} {settings : Settings}
  {policy : Policy.Search} {run : Run Policy.Search σ μ} {frame : Frame} {snapshot : Snapshot}
  {number step : Nat}

theorem visits_of_frame
    (whole : run.policy.schedule.position = run.policy.schedule.length)
    (found : run.policy.schedule.frame step = .ok frame) :
    ∃ index, step = index + 1 ∧ run.Visits index frame := by
  obtain ⟨positive, there⟩ := Schedule.frame_eq_ok_iff.mp found
  refine ⟨step - 1, (Nat.sub_add_cancel positive).symm, ?_, there⟩
  rw [whole]
  exact (Array.getElem?_eq_some_iff.mp there).1

section Stacked

variable (stacked : run.Stacked)

include stacked

theorem Stacked.position_le :
    run.policy.schedule.position ≤ run.machine.trace.size + 1 := by
  cases stacked with
  | settled schedule recorded _ _ traced =>
      rw [schedule, ← Array.length_toList, traced, recorded.follows.length_eq]
      exact Nat.le_succ _
  | idle schedule recorded _ _ _ _ _ traced =>
      rw [schedule, ← Array.length_toList, traced, recorded.follows.length_eq]
      exact Nat.le_refl _

theorem Stacked.selected?_eq_some_iff :
    run.policy.schedule.selected? step = some snapshot ↔ run.Selects step snapshot := by
  constructor
  · intro selected
    have acts : run.policy.schedule.ActsAt snapshot.id step := ⟨snapshot, selected, rfl⟩
    obtain ⟨index, rfl⟩ := Nat.exists_eq_succ_of_ne_zero (Nat.ne_of_gt acts.positive)
    have within := acts.le_position
    rw [Schedule.selected?, if_neg (by omega), Option.bind_eq_some_iff] at selected
    obtain ⟨frame, there, first⟩ := selected
    have visits : run.Visits index frame := ⟨within, there⟩
    rcases Nat.lt_or_ge index run.machine.trace.size with inside | beyond
    · obtain ⟨known, turn, entry, traces⟩ := stacked.exists_traces inside
      cases there.symm.trans traces.visits.2
      rw [traces.settles.single] at first
      cases first
      exact stacked.selects_of_takes visits ⟨_, traces.settles.single⟩
    · rw [(stacked.idle_of_untraced visits beyond).1] at first
      cases first
  · intro selects
    cases step with
    | zero => cases selects
    | succ index =>
        obtain ⟨frame, entry, visits, ⟨place, single⟩, rfl⟩ := stacked.exists_takes selects
        have found : run.policy.schedule.frame (index + 1) = .ok frame :=
          Schedule.frame_eq_ok_iff.mpr ⟨Nat.succ_pos _, visits.2⟩
        rw [Schedule.selected?_of_frame found visits.1, single]
        rfl

section Whole

variable (discreet : program.Discreet handles)
  (reached : Reached program (start program number policy) run)
  (whole : run.policy.schedule.position = run.policy.schedule.length)
  (short : run.machine.trace.size + 1 < 2 ^ 32)

theorem Stacked.numbered_schedule (whole : run.policy.schedule.position = run.policy.schedule.length) :
    run.policy.schedule.Numbered := by
  intro step frame found
  obtain ⟨index, rfl, visits⟩ := visits_of_frame whole found
  obtain ⟨turn, -, shown, numbered⟩ := stacked.exists_turn visits
  exact shown ▸ numbered

include discreet reached

theorem Stacked.exists_announces (selects : run.Selects step snapshot) :
    ∃ stage : Stage σ μ, stage.Announces snapshot.id snapshot.operation ∧ stage ≠ .running := by
  cases step with
  | zero => cases selects
  | succ index =>
      obtain ⟨before, after, current, target, choice⟩ :=
        reached.exists_choice discreet stacked.legal selects
      exact ⟨target.stage, choice.announces stacked.legal discreet⟩

include whole short in
theorem Stacked.wellFormed : run.policy.schedule.WellFormed where
  position_le := Nat.le_of_eq whole
  selects := by
    intro step frame below found
    obtain ⟨index, rfl, visits⟩ := visits_of_frame whole found
    have le := stacked.position_le
    obtain ⟨known, turn, entry, traces⟩ :=
      stacked.exists_traces (Nat.lt_of_succ_lt_succ (Nat.lt_of_lt_of_le below le))
    cases visits.2.symm.trans traces.visits.2
    rw [traces.settles.single]
    rfl
  selectsLast := by
    intro frame found
    obtain ⟨index, -, visits⟩ := visits_of_frame whole found
    rcases Nat.lt_or_ge index run.machine.trace.size with inside | beyond
    · obtain ⟨known, turn, entry, traces⟩ := stacked.exists_traces inside
      cases visits.2.symm.trans traces.visits.2
      rw [traces.settles.single]
      exact Nat.le_refl _
    · rw [(stacked.idle_of_untraced visits beyond).1]
      exact Nat.zero_le _
  valid := by
    intro step snapshot selected
    obtain ⟨stage, announced, placed⟩ := stacked.exists_announces discreet reached
      (stacked.selected?_eq_some_iff.mp selected)
    exact Stage.valid_of_announces announced placed
  short := Nat.lt_of_le_of_lt stacked.position_le short
  sent := by
    intro step snapshot sendStep selected receives isSent
    obtain ⟨services, recorded⟩ := reached.exists_recorded
    obtain ⟨address, envelope, rfl, -, earlier, -⟩ := (recorded.matched discreet stacked.legal).answered
      step snapshot (stacked.selected?_eq_some_iff.mp selected) receives
    cases isSent
    exact earlier

include short in
theorem Stacked.storable : run.policy.schedule.Storable := by
  intro step target touches
  obtain ⟨positive, within⟩ := Schedule.inside_of_touches touches
  have le := Nat.le_trans within stacked.position_le
  suffices target ≤ step by omega
  obtain ⟨index, rfl⟩ := Nat.exists_eq_succ_of_ne_zero (Nat.ne_of_gt positive)
  have known : (run.policy.schedule.selected? (index + 1)).isSome :=
    touches.elim Schedule.isSome_of_lifeTarget? Schedule.isSome_of_sendTarget?
  obtain ⟨snapshot, selected⟩ := Option.isSome_iff_exists.mp known
  obtain ⟨before, after, current, actor, choice⟩ := reached.exists_choice discreet stacked.legal
    (stacked.selected?_eq_some_iff.mp selected)
  obtain ⟨few, among⟩ := choice.index_le_of_target stacked.legal discreet
  have targets (found : snapshot.operation.target.map ActorId.index = some target) :
      target ≤ index + 1 := by
    obtain ⟨other, named, rfl⟩ := Option.map_eq_some_iff.mp found
    exact Nat.le_succ_of_le (among other named)
  rcases touches with touches | touches
  · simp only [Schedule.lifeTarget?, selected, Option.bind_some] at touches
    split at touches
    · exact targets touches
    · exact targets touches
    · exact targets touches
    · split at touches
      · obtain ⟨frame, there, rfl⟩ := Option.map_eq_some_iff.mp touches
        obtain ⟨turn, asked, shown, -⟩ := stacked.exists_turn ⟨within, there⟩
        rw [← Frame.length_actors, shown]
        exact few turn asked
      · cases touches
    · cases touches
  · simp only [Schedule.sendTarget?, selected, Option.bind_some] at touches
    split at touches
    · exact targets touches
    · cases touches

include whole

theorem Stacked.peopled : run.policy.schedule.Peopled := by
  have annals := annals_of_reached discreet reached stacked.legal
  constructor
  · intro step frame next snapshot found also _ selected
    obtain ⟨index, rfl, visits⟩ := visits_of_frame whole found
    obtain ⟨_, same, onward⟩ := visits_of_frame whole also
    cases same
    obtain ⟨turn, asked, shown, -⟩ := stacked.exists_turn visits
    obtain ⟨following, then_, showing, -⟩ := stacked.exists_turn onward
    have selects := stacked.selected?_eq_some_iff.mp selected
    have size : turn.actors.length = frame.size := by rw [← shown, Frame.length_actors]
    have length : following.actors.length = next.size := by rw [← showing, Frame.length_actors]
    rw [← size, ← length]
    cases annals.grows index turn following snapshot asked then_ selects with
    | create creates more =>
        have isCreate : snapshot.kind = .create := congrArg Operation.kind creates
        rw [if_pos isCreate]
        exact more
    | same differs same =>
        obtain ⟨stage, announced, placed⟩ := stacked.exists_announces discreet reached selects
        have other : snapshot.kind ≠ .create := fun creates =>
          differs (Stage.eq_create_of_announces announced placed creates)
        rw [if_neg other]
        exact same
  · intro first step snapshot found selected newcomer absent
    have selects := stacked.selected?_eq_some_iff.mp selected
    apply annals.starts step snapshot selects
    · -- At first the root is there, as somebody is chosen.
      intro root
      rw [root] at newcomer
      obtain ⟨_, same, visits⟩ := visits_of_frame whole found
      cases same
      cases step with
      | zero => cases selects
      | succ index =>
          obtain ⟨known, turn, entry, traces⟩ :=
            stacked.exists_traces (Nat.lt_of_le_of_lt (Nat.zero_le _) (stacked.lt_of_selects selects))
          cases visits.2.symm.trans traces.visits.2
          have inside := (List.getElem?_eq_some_iff.mp (Frame.get?_of_single traces.settles.single)).1
          exact absurd inside (Nat.not_lt_of_le (Nat.le_trans newcomer (Nat.zero_le _)))
    · intro early other before earlier same
      exact absent early before ⟨other, stacked.selected?_eq_some_iff.mpr earlier, same⟩

/-- Who was disabled at a step and is chosen later has been awakened in between. -/
theorem Stacked.attentive
    (unyielding : ∀ step snapshot, run.Selects step snapshot → snapshot.kind ≠ .yield) :
    run.policy.schedule.Attentive := by
  intro early late frame entry snapshot lt found selected there asleep idle
  obtain ⟨first, rfl, visits⟩ := visits_of_frame whole found
  have selects := stacked.selected?_eq_some_iff.mp selected
  obtain ⟨second, rfl⟩ := Nat.exists_eq_succ_of_ne_zero (Nat.ne_zero_of_lt lt)
  obtain ⟨known, turn, chosen, traces⟩ := stacked.exists_traces
    (Nat.lt_trans (Nat.lt_of_succ_lt_succ lt) (stacked.lt_of_selects selects))
  cases visits.2.symm.trans traces.visits.2
  have settles := traces.settles
  have listed : entry.snapshot ∈ turn.actors := by
    rw [← settles.actors]
    exact List.mem_map_of_mem (List.mem_of_getElem? there)
  have same : entry.snapshot.id = snapshot.id :=
    Frame.id_of_numbered (stacked.numbered_schedule whole _ _ found) there
  have taken := stacked.selects_of_takes visits ⟨_, settles.single⟩
  have awakened := reached.awakened discreet stacked.legal (Nat.lt_of_succ_lt_succ lt) traces.asked
    listed same asleep taken selects (fun step last above below picks id =>
      idle step above (Nat.lt_succ_of_le below)
        ⟨last, stacked.selected?_eq_some_iff.mpr picks, id⟩) (unyielding _ _ selects)
  exact awakened.mono fun step last picks => stacked.selected?_eq_some_iff.mpr picks

end Whole

end Stacked

/-- In an exploration, in any configuration and after any number of executions: if nobody yields in
an execution, then for each of its races somebody could run in place of the first step, and no fault
keeps the search from preparing the next execution. -/
theorem exists_candidate_of_explored
    {launcher : Launcher Policy.Search μ} {allowance : Launcher.Allowance} (steady : program.Steady)
    (discreet : program.Discreet handles)
    (explored : launcher.Explored program allowance (.ofSettings settings))
    (reached : Reached program (start program launcher.executions launcher.policy) run)
    (finished : run.machine.control = .finished) (roomy : run.Roomy)
    (short : run.machine.trace.size + 1 < 2 ^ 32)
    (unyielding : ∀ step snapshot, run.Selects step snapshot → snapshot.kind ≠ .yield) :
    (∀ race, run.policy.schedule.Reversible race →
      ∃ actor, run.policy.schedule.Candidate race actor) ∧
    ∀ log, ∃ more after,
      (Scheduler.advance : Attempt Policy.Search Bool).Returns (run.policy, log) more after := by
  have whole := (wellStacked_of_explored steady discreet explored reached roomy).whole finished
  obtain ⟨rounds, past⟩ := explored.exists_past steady launcher.executions
  have tracks := reached.tracks past roomy
  have stacked := tracks.stacked
  have ready : run.policy.schedule.Ready :=
    ⟨stacked.wellFormed discreet reached whole short, stacked.numbered_schedule whole,
      stacked.storable discreet reached short, stacked.peopled discreet reached whole,
      stacked.attentive discreet reached whole unyielding⟩
  refine ⟨fun race reversible => ready.exists_candidate reversible, fun log => ?_⟩
  obtain ⟨turns, between, ended, finishes⟩ := tracks.exists_over finished
  obtain ⟨kept, stack, all, -, -, -, same, ends⟩ := ended.ends finishes
  exact ends.exists_advance same ready log

end Run

inductive Contest
  | begun
  | opened
  | created (inbox : Address)
  | rival (inbox : Address)
  | sent

namespace Contest

def program : Program Contest Nat where
  root _ := .begun
  resume _
    | _, .error error => .return (.error error)
    | .begun, .ok _ => .call .mailbox .opened
    | .opened, .ok (.mailbox inbox) => .call (.create none (.rival inbox)) (.created inbox)
    | .created inbox, .ok _ | .rival inbox, .ok _ => .call (.send inbox 7) .sent
    | _, .ok _ => .return (.ok ())

def handles : Handles Contest Nat where
  held
    | .created known, address | .rival known, address => known = address
    | _, _ => False
  carried _ _ := False

theorem steady_program : program.Steady := fun _ _ => rfl

theorem discreet_program : program.Discreet handles where
  root _ _ held := held
  resume := by
    intro view body reply address used
    cases reply with
    | error error => exact False.elim used
    | ok answer =>
        cases body <;> cases answer <;>
          simp_all [program, Handles.inAction, Handles.inCall, Handles.inReply, handles]

end Contest

namespace Run

/-- The first execution of a search: the sends race, so that there is another one. -/
theorem exists_candidate_of_explored_contest :
    let first := start Contest.program 0 (.ofSettings {} : Policy.Search)
    let run := ((first.complete Contest.program 40).run (.empty .error)).1
    run.machine.trace.toList = [⟨0⟩, ⟨0⟩, ⟨0⟩, ⟨1⟩, ⟨1⟩, ⟨1⟩] ∧
      (∀ race, run.policy.schedule.Reversible race →
        ∃ actor, run.policy.schedule.Candidate race actor) ∧
      ∃ after, (Scheduler.advance : Attempt Policy.Search Bool).Returns
        (run.policy, .empty .error) true after := by
  intro first run
  have explored : (Launcher.ofPolicy false (.ofSettings {}) : Launcher Policy.Search Nat).Explored
      Contest.program ⟨40, 1⟩ (.ofSettings {}) := .start rfl
  have reached : Reached Contest.program first run := reached_complete _ _ _ _
  have finished : run.machine.control = .finished := isFinished_iff.mp (by decide +kernel)
  have roomy : 2 * run.machine.actors.size ≤ wordSize := by decide +kernel
  have short : run.machine.trace.size + 1 < 2 ^ 32 := by decide +kernel
  have unyielding : ∀ turn ∈ run.turns.toList, ∀ snapshot ∈ turn.actors, snapshot.kind ≠ .yield := by
    decide +kernel
  obtain ⟨candidates, advances⟩ := exists_candidate_of_explored Contest.steady_program
    Contest.discreet_program explored reached finished roomy short fun step snapshot selects => by
      obtain ⟨turn, asked, -, listed⟩ := selects.exists_turn
      exact unyielding turn (Array.mem_toList_iff.mpr (Array.mem_of_getElem? asked)) snapshot listed
  refine ⟨by decide +kernel, candidates, ?_⟩
  obtain ⟨more, after, returned⟩ := advances (.empty .error)
  have goes : ((Scheduler.advance : Attempt Policy.Search Bool).outcome
      (run.policy, .empty .error)).1.1.toOption = some true := by decide +kernel
  rw [returned] at goes
  cases goes
  exact ⟨after, returned⟩

end Run

end Interleave
