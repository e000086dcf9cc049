import Mathlib.Logic.Relation
import Interleave.Snapshot

/-!
Transition systems whose states show a list of actors, and what it means that two runs of one
differ only in the order of independent steps. `Reorders` exchanges steps of actors that are both
enabled; `Move.Equivalent` swaps independent moves and asks for nothing else.
-/

namespace Interleave

structure TransitionSystem where
  State : Type
  initial : State
  actors : State → List Snapshot
  step : State → ActorId → State

namespace TransitionSystem

section Runs

variable (system : TransitionSystem)

def operation? (state : system.State) (actor : ActorId) : Option Operation :=
  ((system.actors state)[actor.index]?.filter Snapshot.enabled).map Snapshot.operation

def after (state : system.State) (run : List ActorId) : system.State :=
  run.foldl system.step state

/-- Each actor is enabled when it is its turn. -/
def Runs : system.State → List ActorId → Prop
  | _, [] => True
  | state, actor :: rest =>
      (system.operation? state actor).isSome ∧ Runs (system.step state actor) rest

/-- A run after which no actor is enabled. -/
def Completes (state : system.State) (run : List ActorId) : Prop :=
  system.Runs state run ∧ ∀ actor, system.operation? (system.after state run) actor = none

def Independent (state : system.State) (first second : ActorId) : Prop :=
  first ≠ second ∧ ∃ operation other, system.operation? state first = some operation ∧
    system.operation? state second = some other ∧ operation.dependent other = false

def Numbered : Prop :=
  ∀ (state : system.State) (index : Nat) (snapshot : Snapshot),
    (system.actors state)[index]? = some snapshot → snapshot.id = ⟨index⟩

/-- Actors stand at their numbers, and independent actors leave each other alone. -/
structure Lawful : Prop where
  numbered : ∀ (state : system.State) (index : Nat) (snapshot : Snapshot),
    (system.actors state)[index]? = some snapshot → snapshot.id = ⟨index⟩
  kept : ∀ state first second, system.Independent state first second →
    system.operation? (system.step state first) second = system.operation? state second
  commutes : ∀ state first second, system.Independent state first second →
    system.step (system.step state first) second = system.step (system.step state second) first

def FiniteDepth : Prop :=
  ∃ depth, ∀ run, system.Runs system.initial run → run.length ≤ depth

inductive Exchanges : system.State → List ActorId → List ActorId → Prop
  | here {state : system.State} {first second : ActorId} {rest : List ActorId}
      (independent : system.Independent state first second) :
      Exchanges state (first :: second :: rest) (second :: first :: rest)
  | later {state : system.State} {actor : ActorId} {run other : List ActorId}
      (exchanges : Exchanges (system.step state actor) run other) :
      Exchanges state (actor :: run) (actor :: other)

def Reorders (state : system.State) : List ActorId → List ActorId → Prop :=
  Relation.ReflTransGen (system.Exchanges state)

end Runs

variable {system : TransitionSystem} {state : system.State} {run other : List ActorId}

theorem Independent.symm
    {first second : ActorId} (independent : system.Independent state first second) :
    system.Independent state second first := by
  obtain ⟨differs, operation, other, firstDoes, secondDoes, free⟩ := independent
  exact ⟨differs.symm, other, operation, secondDoes, firstDoes,
    by rw [Operation.dependent_comm, free]⟩

theorem operation?_eq_some
    {snapshot : Snapshot} {actor : ActorId}
    (there : (system.actors state)[actor.index]? = some snapshot)
    (enabled : snapshot.enabled = true) :
    system.operation? state actor = some snapshot.operation := by
  rw [operation?, there, Option.filter_some, if_pos enabled, Option.map_some]

theorem exists_of_operation?
    {actor : ActorId} {operation : Operation}
    (does : system.operation? state actor = some operation) :
    ∃ snapshot, (system.actors state)[actor.index]? = some snapshot ∧
      snapshot.enabled = true ∧ snapshot.operation = operation := by
  obtain ⟨snapshot, found, same⟩ := Option.map_eq_some_iff.mp does
  obtain ⟨there, enabled⟩ := Option.filter_eq_some_iff.mp found
  exact ⟨snapshot, there, enabled, same⟩

@[simp] theorem after_nil : system.after state [] = state := rfl

@[simp] theorem after_cons (actor : ActorId) :
    system.after state (actor :: run) = system.after (system.step state actor) run := rfl

theorem after_append :
    system.after state (run ++ other) = system.after (system.after state run) other :=
  List.foldl_append

theorem runs_append :
    system.Runs state (run ++ other) ↔
      system.Runs state run ∧ system.Runs (system.after state run) other := by
  induction run generalizing state with
  | nil => simp [Runs]
  | cons actor rest induction =>
      simp only [List.cons_append, Runs, after_cons, induction, and_assoc]

theorem completes_cons {actor : ActorId} :
    system.Completes state (actor :: run) ↔
      (system.operation? state actor).isSome ∧
        system.Completes (system.step state actor) run := by
  simp only [Completes, Runs, after_cons, and_assoc]

theorem Exchanges.completes
    (lawful : system.Lawful) (exchanges : system.Exchanges state run other)
    (completes : system.Completes state run) : system.Completes state other := by
  induction exchanges with
  | @here state first second rest independent =>
      obtain ⟨firstEnabled, secondEnabled, completes⟩ :
          (system.operation? state first).isSome ∧
            (system.operation? (system.step state first) second).isSome ∧
            system.Completes (system.step (system.step state first) second) rest := by
        simpa only [completes_cons] using completes
      rw [completes_cons, completes_cons, lawful.kept _ _ _ independent.symm,
        ← lawful.commutes _ _ _ independent]
      rw [lawful.kept _ _ _ independent] at secondEnabled
      exact ⟨secondEnabled, firstEnabled, completes⟩
  | later _ induction =>
      rw [completes_cons] at completes ⊢
      exact ⟨completes.1, induction completes.2⟩

theorem Reorders.completes
    (lawful : system.Lawful) (reorders : system.Reorders state run other)
    (completes : system.Completes state run) : system.Completes state other := by
  induction reorders with
  | refl => exact completes
  | tail _ exchanges induction => exact exchanges.completes lawful induction

theorem Reorders.cons
    {actor : ActorId} (reorders : system.Reorders (system.step state actor) run other) :
    system.Reorders state (actor :: run) (actor :: other) := by
  induction reorders with
  | refl => exact .refl
  | tail _ exchanges induction => exact .tail induction (.later exchanges)

end TransitionSystem

/-- A step of a run: who takes it, and what the actor does. -/
structure Move where
  actor : ActorId
  operation : Option Operation
deriving DecidableEq

namespace Move

def Independent (first second : Move) : Prop :=
  first.actor ≠ second.actor ∧ ∃ operation other, first.operation = some operation ∧
    second.operation = some other ∧ operation.dependent other = false

inductive Swap : List Move → List Move → Prop
  | here {first second : Move} {rest : List Move} (independent : first.Independent second) :
      Swap (first :: second :: rest) (second :: first :: rest)
  | later {move : Move} {moves other : List Move} (swap : Swap moves other) :
      Swap (move :: moves) (move :: other)

/-- Any number of swaps. -/
def Equivalent : List Move → List Move → Prop := Relation.ReflTransGen Swap

/-- The move comes first, or after moves that are independent of it. -/
def Leads (move : Move) : List Move → Prop
  | [] => False
  | first :: rest => first = move ∨ (first.Independent move ∧ move.Leads rest)

variable {move : Move} {moves other : List Move}

theorem Independent.symm
    {first second : Move} (independent : first.Independent second) :
    second.Independent first := by
  obtain ⟨differs, operation, other, firstDoes, secondDoes, free⟩ := independent
  exact ⟨differs.symm, other, operation, secondDoes, firstDoes,
    by rw [Operation.dependent_comm, free]⟩

theorem Swap.leads (swap : Swap moves other) (leads : move.Leads moves) :
    move.Leads other := by
  induction swap with
  | @here first second rest independent =>
      rcases leads with rfl | ⟨firstFree, rfl | ⟨secondFree, leads⟩⟩
      · exact .inr ⟨independent.symm, .inl rfl⟩
      · exact .inl rfl
      · exact .inr ⟨secondFree, .inr ⟨firstFree, leads⟩⟩
  | later _ induction =>
      rcases leads with same | ⟨free, leads⟩
      · exact .inl same
      · exact .inr ⟨free, induction leads⟩

theorem Equivalent.leads (equivalent : Equivalent moves other) (leads : move.Leads moves) :
    move.Leads other := by
  induction equivalent with
  | refl => exact leads
  | tail _ swap induction => exact swap.leads induction

theorem Leads.mem (leads : move.Leads moves) : move ∈ moves := by
  induction moves with
  | nil => exact leads.elim
  | cons first rest induction =>
      rcases leads with rfl | ⟨-, leads⟩
      · exact List.mem_cons_self
      · exact List.mem_cons_of_mem _ (induction leads)

theorem not_leads
    {blocker : Move} {before after : List Move}
    (free : ∀ other ∈ before, other.Independent move) (differs : blocker.actor ≠ move.actor)
    (blocks : ¬ blocker.Independent move) : ¬ move.Leads (before ++ blocker :: after) := by
  induction before with
  | nil =>
      rintro (rfl | ⟨independent, -⟩)
      · exact differs rfl
      · exact blocks independent
  | cons first rest induction =>
      rintro (rfl | ⟨-, leads⟩)
      · exact (free first List.mem_cons_self).1 rfl
      · exact induction (fun other member => free other (List.mem_cons_of_mem _ member)) leads

theorem Swap.length_eq (swap : Swap moves other) : moves.length = other.length := by
  induction swap with
  | here _ => rfl
  | later _ induction => simp only [List.length_cons, induction]

theorem Equivalent.length_eq (equivalent : Equivalent moves other) :
    moves.length = other.length := by
  induction equivalent with
  | refl => rfl
  | tail _ swap induction => exact induction.trans swap.length_eq

theorem Equivalent.cons (equivalent : Equivalent moves other) (move : Move) :
    Equivalent (move :: moves) (move :: other) := by
  induction equivalent with
  | refl => exact .refl
  | tail _ swap induction => exact .tail induction (.later swap)

/-- Swaps of other moves stay swaps when the first occurrence of an move is taken out. -/
theorem Swap.erase (swap : Swap moves other) (move : Move) :
    Equivalent (moves.erase move) (other.erase move) := by
  induction swap with
  | @here first second rest independent =>
      have differs : first ≠ second := by
        intro same
        exact independent.1 (congrArg Move.actor same)
      by_cases firstIs : first = move
      · subst firstIs
        rw [List.erase_cons_head, List.erase_cons_tail (by simpa using differs.symm),
          List.erase_cons_head]
        exact .refl
      · by_cases secondIs : second = move
        · subst secondIs
          rw [List.erase_cons_tail (by simpa using firstIs), List.erase_cons_head,
            List.erase_cons_head]
          exact .refl
        · simp only [List.erase_cons, beq_iff_eq, firstIs, secondIs, if_false]
          exact .single (.here independent)
  | @later first _ _ swap induction =>
      by_cases firstIs : first = move
      · subst firstIs
        rw [List.erase_cons_head, List.erase_cons_head]
        exact .single swap
      · rw [List.erase_cons_tail (by simpa using firstIs),
          List.erase_cons_tail (by simpa using firstIs)]
        exact induction.cons first

theorem Equivalent.erase (equivalent : Equivalent moves other) (move : Move) :
    Equivalent (moves.erase move) (other.erase move) := by
  induction equivalent with
  | refl => exact .refl
  | tail _ swap induction => exact induction.trans (swap.erase move)

theorem Equivalent.of_append_left
    {before : List Move} (equivalent : Equivalent (before ++ moves) (before ++ other)) :
    Equivalent moves other := by
  induction before with
  | nil => exact equivalent
  | cons move rest induction =>
      apply induction
      simpa using equivalent.erase move

end Move

namespace TransitionSystem

variable {system : TransitionSystem}

def moves (system : TransitionSystem) : system.State → List ActorId → List Move
  | _, [] => []
  | state, actor :: rest =>
      ⟨actor, system.operation? state actor⟩ :: system.moves (system.step state actor) rest

theorem moves_append {state : system.State} {run other : List ActorId} :
    system.moves state (run ++ other) =
      system.moves state run ++ system.moves (system.after state run) other := by
  induction run generalizing state with
  | nil => rfl
  | cons actor rest induction =>
      simp only [List.cons_append, moves, after_cons, induction]

@[simp] theorem length_moves {state : system.State} {run : List ActorId} :
    (system.moves state run).length = run.length := by
  induction run generalizing state with
  | nil => rfl
  | cons actor rest induction => simp only [moves, List.length_cons, induction]

/-- Two actors post to one queue, in an order that the state remembers, and a third one yields. -/
def posts : TransitionSystem where
  State := List Nat × Bool
  initial := ([], false)
  actors := fun (posted, yielded) =>
    [⟨⟨0⟩, !posted.contains 0, .send ⟨0⟩, none⟩, ⟨⟨1⟩, !posted.contains 1, .send ⟨0⟩, none⟩,
      ⟨⟨2⟩, !yielded, .yield ⟨2⟩, none⟩]
  step := fun (posted, yielded) actor =>
    if actor.index < 2 then (posted ++ [actor.index], yielded) else (posted, true)

theorem posts_cases
    {posted : List Nat} {yielded : Bool} {actor : ActorId} {operation : Operation}
    (does : posts.operation? (posted, yielded) actor = some operation) :
    (actor = ⟨0⟩ ∧ 0 ∉ posted ∧ operation = .send ⟨0⟩) ∨
      (actor = ⟨1⟩ ∧ 1 ∉ posted ∧ operation = .send ⟨0⟩) ∨
      (actor = ⟨2⟩ ∧ yielded = false ∧ operation = .yield ⟨2⟩) := by
  obtain ⟨snapshot, there, enabled, rfl⟩ := exists_of_operation? does
  obtain ⟨index⟩ := actor
  match index with
  | 0 =>
      cases there
      exact .inl ⟨rfl, by simpa using enabled, rfl⟩
  | 1 =>
      cases there
      exact .inr (.inl ⟨rfl, by simpa using enabled, rfl⟩)
  | 2 =>
      cases there
      exact .inr (.inr ⟨rfl, by simpa using enabled, rfl⟩)
  | _ + 3 => cases there

/-- The senders depend on each other, so that one of two independent actors is the third. -/
theorem posts_independent
    {posted : List Nat} {yielded : Bool} {first second : ActorId}
    (independent : posts.Independent (posted, yielded) first second) :
    (first.index < 2 ∧ second = ⟨2⟩) ∨ (first = ⟨2⟩ ∧ (second = ⟨0⟩ ∨ second = ⟨1⟩)) := by
  obtain ⟨differs, operation, other, firstDoes, secondDoes, free⟩ := independent
  rcases posts_cases firstDoes with ⟨rfl, -, rfl⟩ | ⟨rfl, -, rfl⟩ | ⟨rfl, -, rfl⟩
  · rcases posts_cases secondDoes with ⟨rfl, -, rfl⟩ | ⟨rfl, -, rfl⟩ | ⟨rfl, -, -⟩
    · exact absurd rfl differs
    · cases free
    · exact .inl ⟨Nat.zero_lt_two, rfl⟩
  · rcases posts_cases secondDoes with ⟨rfl, -, rfl⟩ | ⟨rfl, -, rfl⟩ | ⟨rfl, -, -⟩
    · cases free
    · exact absurd rfl differs
    · exact .inl ⟨Nat.one_lt_two, rfl⟩
  · rcases posts_cases secondDoes with ⟨rfl, -, -⟩ | ⟨rfl, -, -⟩ | ⟨rfl, -, -⟩
    · exact .inr ⟨rfl, .inl rfl⟩
    · exact .inr ⟨rfl, .inr rfl⟩
    · exact absurd rfl differs

theorem lawful_posts : posts.Lawful where
  numbered := by
    rintro ⟨posted, yielded⟩ index snapshot there
    match index with
    | 0 | 1 | 2 =>
        cases there
        rfl
    | _ + 3 => cases there
  kept := by
    rintro ⟨posted, yielded⟩ first second independent
    rcases posts_independent independent with ⟨sends, rfl⟩ | ⟨rfl, rfl | rfl⟩
    · simp [operation?, posts, sends]
    · rfl
    · rfl
  commutes := by
    rintro ⟨posted, yielded⟩ first second independent
    rcases posts_independent independent with ⟨sends, rfl⟩ | ⟨rfl, rfl | rfl⟩
    · simp [posts, sends]
    · rfl
    · rfl

theorem finiteDepth_posts : posts.FiniteDepth := by
  have bounded : ∀ run (posted : List Nat) (yielded : Bool),
      posts.Runs (posted, yielded) run →
      run.length ≤ (if 0 ∈ posted then 0 else 1) + (if 1 ∈ posted then 0 else 1) +
        if yielded then 0 else 1 := by
    intro run
    induction run with
    | nil => intro posted yielded _; exact Nat.zero_le _
    | cons actor rest induction =>
        rintro posted yielded ⟨enabled, runs⟩
        obtain ⟨operation, does⟩ := Option.isSome_iff_exists.mp enabled
        rcases posts_cases does with ⟨rfl, absent, -⟩ | ⟨rfl, absent, -⟩ | ⟨rfl, rfl, -⟩
        · have shorter := induction (posted ++ [0]) yielded runs
          simp only [List.mem_append, List.mem_singleton, or_true, if_true, absent, if_false,
            List.length_cons] at shorter ⊢
          simp at shorter
          omega
        · have shorter := induction (posted ++ [1]) yielded runs
          simp only [List.mem_append, List.mem_singleton, or_true, if_true, absent, if_false,
            List.length_cons] at shorter ⊢
          simp at shorter
          omega
        · have shorter := induction posted true runs
          simp only [if_true, List.length_cons, Bool.false_eq_true, if_false] at shorter ⊢
          omega
  exact ⟨3, fun run runs => by simpa using bounded run [] false runs⟩

theorem completes_posts : posts.Completes posts.initial [⟨1⟩, ⟨2⟩, ⟨0⟩] := by
  refine ⟨⟨rfl, rfl, rfl, trivial⟩, ?_⟩
  intro actor
  cases does : posts.operation? ([1, 0], true) actor with
  | none => exact does
  | some operation =>
      rcases posts_cases does with ⟨-, absent, -⟩ | ⟨-, absent, -⟩ | ⟨-, impossible, -⟩
      · exact absurd (List.mem_cons_of_mem 1 List.mem_cons_self) absent
      · exact absurd List.mem_cons_self absent
      · cases impossible

end TransitionSystem

end Interleave
