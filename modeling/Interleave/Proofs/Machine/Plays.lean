import Mathlib.Logic.Relation
import Interleave.Proofs.Machine.Regular

namespace Interleave

namespace Machine

variable {σ μ : Type}

def next (program : Program σ μ) (machine : Machine σ μ) : Machine σ μ :=
  ((machine.tick program).run (.empty .trace)).1

def decided (machine : Machine σ μ) (id : ActorId) (decision : Decision) : Machine σ μ :=
  ((machine.decide id decision).run (.empty .trace)).1

def Enables (machine : Machine σ μ) (actor : ActorId) : Prop :=
  ∃ snapshot ∈ machine.snapshots, snapshot.id = actor ∧ snapshot.enabled = true

/-- One transition where no decision is due. -/
inductive Ticks (program : Program σ μ) : Machine σ μ → Machine σ μ → Prop
  | here {machine : Machine σ μ} : Ticks program machine machine
  | tick {machine last : Machine σ μ} (undecided : ∀ id, machine.control ≠ .choosing id)
      (unfinished : machine.control ≠ .finished)
      (ticks : Ticks program (machine.next program) last) : Ticks program machine last

/-- Any number of transitions. At a scheduling point some enabled actor is chosen; where none is
enabled the execution ends. -/
inductive Plays (program : Program σ μ) : Machine σ μ → Machine σ μ → Prop
  | here {machine : Machine σ μ} : Plays program machine machine
  | tick {machine last : Machine σ μ} (undecided : ∀ id, machine.control ≠ .choosing id)
      (unfinished : machine.control ≠ .finished)
      (plays : Plays program (machine.next program) last) : Plays program machine last
  | run {machine last : Machine σ μ} {id actor : ActorId} (choosing : machine.control = .choosing id)
      (enabled : machine.Enables actor)
      (plays : Plays program (machine.decided id (.run actor)) last) : Plays program machine last
  | deadlock {machine last : Machine σ μ} {id : ActorId} (choosing : machine.control = .choosing id)
      (disabled : ∀ actor, ¬ machine.Enables actor)
      (plays : Plays program (machine.decided id .deadlock) last) : Plays program machine last

variable {program : Program σ μ} {machine first middle last : Machine σ μ} {id : ActorId}

theorem run_tick (sane : machine.Sane) (log : Log) :
    ((machine.tick program).run log).1 = machine.next program :=
  (leads_tick program sane).unread log _

theorem run_decide (sane : machine.Sane) (choosing : machine.control = .choosing id)
    (decision : Decision) (log : Log) :
    ((machine.decide id decision).run log).1 = machine.decided id decision :=
  (leads_decide (sane.present id (by rw [choosing]; rfl)) decision).unread log _

theorem next_of_finished (program : Program σ μ) (finished : machine.control = .finished) :
    machine.next program = machine := by
  unfold next tick
  rw [finished]
  rfl

theorem onward_next (program : Program σ μ) (sane : machine.Sane) :
    Onward machine (machine.next program) :=
  (leads_tick program sane).onward _

theorem onward_decided (sane : machine.Sane) (choosing : machine.control = .choosing id)
    (decision : Decision) : Onward machine (machine.decided id decision) :=
  (leads_decide (sane.present id (by rw [choosing]; rfl)) decision).onward _

theorem sane_start (body : σ) : (start body : Machine σ μ).Sane where
  present := by
    intro id same
    cases same
    exact Nat.zero_lt_one
  decided := by
    intro impossible
    cases impossible

theorem Ticks.plays (ticks : Ticks program first middle) (plays : Plays program middle last) :
    Plays program first last := by
  induction ticks with
  | here => exact plays
  | tick undecided unfinished _ induction => exact .tick undecided unfinished (induction plays)

theorem Ticks.eq_of_choosing
    (ticks : Ticks program machine last) (choosing : machine.control = .choosing id) :
    last = machine := by
  cases ticks with
  | here => rfl
  | tick undecided => exact absurd choosing (undecided id)

theorem Plays.eq_of_finished
    (plays : Plays program machine last) (finished : machine.control = .finished) :
    last = machine := by
  cases plays with
  | here => rfl
  | tick _ unfinished => exact absurd finished unfinished
  | run choosing =>
      rw [finished] at choosing
      cases choosing
  | deadlock choosing =>
      rw [finished] at choosing
      cases choosing

theorem Ticks.total
    (ticks : Ticks program first middle) (others : Ticks program first last) :
    Ticks program middle last ∨ Ticks program last middle := by
  induction ticks with
  | here => exact .inl others
  | tick undecided unfinished ticks induction =>
      cases others with
      | here => exact .inr (.tick undecided unfinished ticks)
      | tick _ _ others => exact induction others

theorem Ticks.unique
    {actor : ActorId} (ticks : Ticks program first middle) (others : Ticks program first last)
    (choosing : middle.control = .choosing id) (also : last.control = .choosing actor) :
    last = middle := by
  cases ticks.total others with
  | inl onward => exact onward.eq_of_choosing choosing
  | inr back => exact (back.eq_of_choosing also).symm

theorem Ticks.not_finished
    (ticks : Ticks program first middle) (others : Ticks program first last)
    (choosing : middle.control = .choosing id) : last.control ≠ .finished := by
  intro finished
  have same : last = middle := by
    cases ticks.total others with
    | inl onward => exact onward.eq_of_choosing choosing
    | inr back => exact (back.plays .here).eq_of_finished finished |>.symm
  rw [same, choosing] at finished
  cases finished

end Machine

end Interleave
