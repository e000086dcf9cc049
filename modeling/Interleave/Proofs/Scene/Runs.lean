import Interleave.Proofs.Run.Tireless
import Interleave.Proofs.Scene.Desertion

namespace Interleave

variable {π σ μ : Type} {program : Program σ μ}

namespace Run

variable [Scheduler π] {run : Run π σ μ} {log : Log} {handles : Handles σ μ}

/-- The calls that are completed in at most so many steps. -/
def deeds (program : Program σ μ) : Nat → Run π σ μ → Log → List (Deed σ μ)
  | 0, _, _ => []
  | allowance + 1, run, log =>
      if run.isFinished then []
      else
        let (next, written) := (run.step program).run log
        (run.machine.deed? next.machine).toList ++ deeds program allowance next written

end Run

/-- What holds of the scenes of a program: there are finitely many steps, nothing goes wrong in them,
and where nobody can go on, nobody is left. -/
structure Course (program : Program σ μ) (crowd : Nat)
    (holds : List (Deed σ μ) → Scene σ μ → Nat → Prop) : Prop where
  tame : ∀ deeds scene work, holds deeds scene work → scene.Tame
  few : ∀ deeds scene work, holds deeds scene work → scene.prospects.length ≤ crowd
  step : ∀ deeds scene work deed after, holds deeds scene work → scene.Step program deed after →
    ∃ less < work, holds (deeds ++ deed.toList) after less
  gone : ∀ deeds scene work, holds deeds scene work → scene.Still →
    ∀ prospect ∈ scene.prospects, prospect = .gone

theorem unfinished_of_sound
    {handles : Handles σ μ} {machine : Machine σ μ} (sound : machine.Sound handles)
    (clean : machine.Clean) : machine.control ≠ .finished := by
  intro finished
  cases (sound.going clean.going).1 with
  | resuming control | choosing control | returning control | closing control | panicking control =>
      rw [finished] at control
      cases control

/-- What is known of an execution after these deeds: so many steps are left at most. -/
inductive Stands (program : Program σ μ) (handles : Handles σ μ) (crowd : Nat)
    (holds : List (Deed σ μ) → Scene σ μ → Nat → Prop) (deeds : List (Deed σ μ)) (budget : Nat)
    (machine : Machine σ μ) : Prop
  | plays {work : Nat} (sound : machine.Sound handles) (clean : machine.Clean)
      (known : holds deeds (machine.scene program) work)
      (enough : 3 * work + machine.control.rank + crowd < budget) :
      Stands program handles crowd holds deeds budget machine
  | ends {scene : Scene σ μ} {work : Nat} (sane : machine.Sane) (deserted : machine.Deserted)
      (known : holds deeds scene work) (gone : ∀ prospect ∈ scene.prospects, prospect = .gone)
      (all : machine.actors.size = scene.prospects.length) (enough : machine.left ≤ budget) :
      Stands program handles crowd holds deeds budget machine

namespace Stands

variable {crowd : Nat} {holds : List (Deed σ μ) → Scene σ μ → Nat → Prop} {deeds : List (Deed σ μ)}
  {budget : Nat} {handles : Handles σ μ} {machine : Machine σ μ}

theorem exists_holds (stands : Stands program handles crowd holds deeds budget machine) :
    ∃ scene work, holds deeds scene work := by
  cases stands with
  | plays sound clean known => exact ⟨_, _, known⟩
  | ends sane deserted known => exact ⟨_, _, known⟩

theorem sane (stands : Stands program handles crowd holds deeds budget machine) : machine.Sane := by
  cases stands with
  | plays sound => exact sound.sane
  | ends sane => exact sane

theorem budget_pos
    (stands : Stands program handles crowd holds deeds budget machine)
    (unfinished : machine.control ≠ .finished) : 0 < budget := by
  cases stands with
  | plays sound clean known enough => exact Nat.zero_lt_of_lt enough
  | ends sane deserted known gone all enough =>
      rcases deserted.control with ⟨finished, -⟩ | ⟨id, actor, control, there⟩
      · exact absurd finished unfinished
      · rw [Machine.left_of_returning control there] at enough
        cases living : actor.stage.isEnded with
        | false =>
            have some := Machine.remaining_pos there living
            omega
        | true =>
            rw [living, Bool.toNat_true] at enough
            omega

theorem of_finished
    (stands : Stands program handles crowd holds deeds budget machine)
    (finished : machine.control = .finished) (other : Nat) :
    Stands program handles crowd holds deeds other machine := by
  cases stands with
  | plays sound clean => exact absurd finished (unfinished_of_sound sound clean)
  | ends sane deserted known gone all enough =>
      refine .ends sane deserted known gone all ?_
      rcases deserted.control with ⟨-, none⟩ | ⟨id, actor, control, there⟩
      · unfold Machine.left
        rw [finished, none]
        exact Nat.zero_le other
      · rw [finished] at control
        cases control

section Step

variable (course : Course program crowd holds) (discreet : program.Discreet handles)
  (sound : machine.Sound handles) (clean : machine.Clean) {work : Nat}
  (known : holds deeds (machine.scene program) work)
  (enough : 3 * work + machine.control.rank + crowd < budget + 1)

include course discreet sound clean known enough

theorem tick (undecided : ∀ id, machine.control ≠ .choosing id) :
    Stands program handles crowd holds (deeds ++ (machine.deed? (machine.next program)).toList)
      budget (machine.next program) := by
  obtain ⟨consistent, guarded⟩ := sound.going clean.going
  obtain ⟨still, goes⟩ := Machine.goes_next clean consistent sound.sane
    (guarded.honest discreet) (course.tame _ _ _ known) undecided
  have later := Run.sound_next sound discreet undecided
  cases goes with
  | step step =>
      obtain ⟨less, fewer, holds⟩ := course.step _ _ _ _ _ known step
      have rank := (machine.next program).control.rank_le
      exact .plays later still holds (by omega)
  | still silent same closer =>
      rw [silent, Option.toList_none, List.append_nil]
      exact .plays later still (same ▸ known) (by omega)

omit course discreet in
theorem choose
    {id next : ActorId} (choosing : machine.control = .choosing id) (enables : machine.Enables next) :
    Stands program handles crowd holds
      (deeds ++ (machine.deed? (machine.decided id (.run next))).toList) budget
        (machine.decided id (.run next)) := by
  have legal : Turn.Legal ⟨id, machine.snapshots, .run next⟩ := by
    rintro _ ⟨⟩
    exact enables
  have later := Run.sound_decided sound choosing legal
  obtain ⟨coherent, -⟩ := (sound.going clean.going).1.of_choosing choosing
  obtain ⟨target, there, enabled, same⟩ := Machine.decided_run coherent enables
  have silent : machine.deed? (machine.decided id (.run next)) = none :=
    Machine.deed?_of_elsewhere (by rw [choosing]; nofun)
  rw [silent, Option.toList_none, List.append_nil]
  rw [choosing] at enough
  rw [same] at later ⊢
  have passed : ((machine.advance next target.record).switch id next).control = .returning next := by
    unfold Machine.switch
    split <;> rfl
  rw [← Machine.scene_run program choosing next target.record] at known
  refine .plays later (clean.run id next target.record) known ?_
  rw [passed]
  simp only [Control.rank] at enough ⊢
  omega

omit discreet in
theorem deadlock
    {id : ActorId} (choosing : machine.control = .choosing id)
    (disabled : ∀ snapshot ∈ machine.snapshots, snapshot.enabled = false) :
    Stands program handles crowd holds
      (deeds ++ (machine.deed? (machine.decided id .deadlock)).toList) budget
        (machine.decided id .deadlock) := by
  obtain ⟨coherent, released, placed⟩ := (sound.going clean.going).1.of_choosing choosing
  have off : ∀ other actor, machine.actors.get? other = some actor →
      actor.record.enabled = false := by
    intro other actor there
    exact disabled _ (List.mem_map.mpr ⟨_, Roster.mem_entries_iff.mpr there, rfl⟩)
  have still : (machine.scene program).Still :=
    Machine.still_of_disabled choosing coherent released placed off
  have gone := course.gone _ _ _ known still
  have few := course.few _ _ _ known
  have shown := Machine.scene_of_choosing program choosing
  have silent : machine.deed? (machine.decided id .deadlock) = none :=
    Machine.deed?_of_elsewhere (by rw [choosing]; nofun)
  rw [shown] at gone few
  obtain ⟨deserted, size⟩ := Machine.deserted_of_gone clean coherent placed gone
  have count : (machine.decided id .deadlock).actors.size = machine.backdrop.prospects.length := by
    rw [size, ← Machine.length_outlooks]
    rfl
  rw [silent, Option.toList_none, List.append_nil]
  refine .ends ((Machine.onward_decided sound.sane choosing .deadlock).sane sound.sane) deserted
    (shown ▸ known) gone count ?_
  have most := (machine.decided id .deadlock).left_le
  rw [choosing] at enough
  simp only [Control.rank] at enough
  omega

end Step

variable [Scheduler π] {run : Run π σ μ} {log : Log}

theorem step
    (stands : Stands program handles crowd holds deeds (budget + 1) run.machine)
    (course : Course program crowd holds) (discreet : program.Discreet handles)
    (pressing : run.Pressing log) (unfinished : ¬ run.isFinished = true) :
    Stands program handles crowd holds
      (deeds ++ (run.machine.deed? ((run.step program).run log).1.machine).toList) budget
        ((run.step program).run log).1.machine := by
  have sane := stands.sane
  cases stands with
  | plays sound clean known enough =>
      by_cases undecided : ∀ id, run.machine.control ≠ .choosing id
      · rw [Run.step_of_undecided program undecided sane]
        exact tick course discreet sound clean known enough undecided
      · obtain ⟨id, choosing⟩ := not_forall_not.mp undecided
        rcases pressing.decides choosing sane program with ⟨next, enables, same⟩ | ⟨disabled, same⟩
        · rw [same]
          exact choose sound clean known enough choosing enables
        · rw [same]
          exact deadlock course sound clean known enough choosing disabled
  | ends sane deserted known gone all enough =>
      have unfinished : run.machine.control ≠ .finished := fun finished =>
        unfinished (Run.isFinished_iff.mpr finished)
      have undecided := sane.decided deserted.ended
      rw [Run.step_of_undecided program undecided sane]
      obtain ⟨later, fewer, size⟩ := deserted.next program unfinished
      have silent : run.machine.deed? (run.machine.next program) = none := by
        apply Machine.deed?_of_unanswered
        intro id body reply resuming
        rcases later.control with ⟨finished, -⟩ | ⟨other, actor, returning, -⟩
        · rw [resuming] at finished
          cases finished
        · rw [resuming] at returning
          cases returning
      rw [silent, Option.toList_none, List.append_nil]
      exact .ends ((Machine.onward_next program sane).sane sane) later known gone (size.trans all)
        (Nat.le_of_lt_succ (Nat.lt_of_lt_of_le fewer enough))

theorem complete
    (stands : Stands program handles crowd holds deeds budget run.machine)
    (course : Course program crowd holds) (discreet : program.Discreet handles)
    (tireless : run.Tireless program log) (allowance : Nat) :
    Stands program handles crowd holds (deeds ++ run.deeds program allowance log)
      (budget - allowance) ((run.complete program allowance).run log).1.machine := by
  induction allowance generalizing run log deeds budget with
  | zero =>
      rw [Run.deeds, List.append_nil]
      exact stands
  | succ allowance induction =>
      rw [Run.complete_succ, Run.deeds]
      by_cases finished : run.isFinished = true
      · rw [if_pos finished, if_pos finished, List.append_nil]
        exact stands.of_finished (Run.isFinished_iff.mp finished) _
      · rw [if_neg finished, if_neg finished]
        have some := stands.budget_pos fun ends => finished (Run.isFinished_iff.mpr ends)
        obtain ⟨less, rfl⟩ := Nat.exists_eq_succ_of_ne_zero (Nat.ne_of_gt some)
        have later := induction (stands.step course discreet (tireless 0) finished)
          (tireless.step finished)
        rw [Nat.succ_sub_succ]
        rwa [List.append_assoc] at later

theorem exists_result
    (stands : Stands program handles crowd holds deeds budget machine)
    (finished : machine.control = .finished) :
    ∃ scene work, holds deeds scene work ∧ (∀ prospect ∈ scene.prospects, prospect = .gone) ∧
      machine.result = .ok machine.summary ∧ machine.summary.outcome = .completed ∧
        machine.summary.deadlocked = [] ∧
          machine.summary.statuses.length = scene.prospects.length ∧
            ∀ status ∈ machine.summary.statuses, status.terminated = true := by
  cases stands with
  | plays sound clean => exact absurd finished (unfinished_of_sound sound clean)
  | @ends scene work sane deserted known gone all =>
      have flawless := deserted.flawless
      refine ⟨scene, work, known, gone, ?_, ?_, flawless.deadlocked, ?_, ?_⟩
      · unfold Machine.result Machine.crash?
        rw [flawless.crashes]
      · change machine.outcome = _
        unfold Machine.outcome
        rw [flawless.bug, flawless.sleepSetBlocked, flawless.hitStepLimit]
        rfl
      · rw [← all]
        simp [Machine.summary, Machine.statuses, Roster.entries, Roster.toList, Roster.size]
      · intro status member
        obtain ⟨⟨id, actor⟩, listed, rfl⟩ := List.mem_map.mp member
        exact (deserted.stopped id actor (Roster.mem_entries_iff.mp listed)).2

end Stands

theorem clean_start (body : σ) : (Machine.start body : Machine σ μ).Clean := by
  refine ⟨rfl, ?_⟩
  intro id actor there
  obtain ⟨rfl, rfl⟩ := Machine.eq_of_get?_start there
  rfl

end Interleave
