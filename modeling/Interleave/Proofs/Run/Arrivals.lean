import Interleave.Proofs.Machine.Resting
import Interleave.Proofs.Run.Turns

namespace Interleave

open Machine

/-- An actor has reached a scheduling point, and nobody has been let go on for that yet. -/
structure Arrival (σ μ : Type) where
  current : ActorId
  machine : Machine σ μ

namespace Arrival

variable {σ μ : Type} {arrivals : List (Arrival σ μ)} {arrival last : Arrival σ μ} {step : Nat}

/-- The actors that the scheduler is asked about at this point. -/
def shown (arrival : Arrival σ μ) : List Snapshot := arrival.machine.releaseBlocked.snapshots

/-- The actor is shown there with this operation. -/
def Shows (arrival : Arrival σ μ) (id : ActorId) (operation : Operation) (enabled : Bool) : Prop :=
  ∃ snapshot ∈ arrival.shown, snapshot.id = id ∧ snapshot.operation = operation ∧
    snapshot.enabled = enabled

theorem shows_iff {id : ActorId} {operation : Operation} {enabled : Bool} :
    arrival.Shows id operation enabled ↔
      ∃ actor, arrival.machine.releaseBlocked.actors.get? id = some actor ∧
        actor.record.operation = operation ∧ actor.record.enabled = enabled := by
  constructor
  · rintro ⟨snapshot, listed, rfl, rfl, rfl⟩
    obtain ⟨actor, there, same⟩ := mem_snapshots_iff.mp listed
    exact ⟨actor, there, by rw [← same]; rfl, by rw [← same]; rfl⟩
  · rintro ⟨actor, there, rfl, rfl⟩
    exact ⟨actor.record.snapshot id, mem_snapshots_iff.mpr ⟨actor, there, rfl⟩, rfl, rfl, rfl⟩

theorem Shows.unique
    {id : ActorId} {operation also : Operation} {enabled here : Bool}
    (shows : arrival.Shows id operation enabled) (again : arrival.Shows id also here) :
    also = operation ∧ here = enabled := by
  obtain ⟨actor, there, rfl, rfl⟩ := shows_iff.mp shows
  obtain ⟨other, found, rfl, rfl⟩ := shows_iff.mp again
  cases there.symm.trans found
  exact ⟨rfl, rfl⟩

theorem shows_of_rest?
    {id : ActorId} {operation : Operation} {enabled : Bool}
    (resting : arrival.machine.releaseBlocked.rest? id = some (operation, enabled)) :
    arrival.Shows id operation enabled := by
  obtain ⟨actor, there, resting⟩ := exists_of_rest? resting
  obtain ⟨body, -, same, able⟩ := Actor.rest?_eq_some_iff.mp resting
  exact shows_iff.mpr ⟨actor, there, same, able⟩

theorem Shows.rest?
    {id current : ActorId} {operation : Operation} {enabled : Bool}
    (shows : arrival.Shows id operation enabled) (rests : operation.Rests id)
    (coherent : arrival.machine.Coherent current) (placed : arrival.machine.Placed current) :
    arrival.machine.releaseBlocked.rest? id = some (operation, enabled) := by
  obtain ⟨actor, there, rfl, rfl⟩ := shows_iff.mp shows
  have released := coherent.releaseBlocked
  rw [rest?_of_get? there]
  exact (released.proper id actor there).rest?_of_rests
    (released.not_running (placed_releaseBlocked placed) there) rests

/-- The scheduling point of this step, counted from one. -/
inductive At (arrivals : List (Arrival σ μ)) : Nat → Arrival σ μ → Prop
  | arrival {index : Nat} {arrival : Arrival σ μ} (found : arrivals[index]? = some arrival) :
      At arrivals (index + 1) arrival

theorem At.inside (found : At arrivals step arrival) : 1 ≤ step ∧ step ≤ arrivals.length := by
  cases found with
  | arrival found => exact ⟨Nat.succ_pos _, (List.getElem?_eq_some_iff.mp found).1⟩

theorem At.mem (found : At arrivals step arrival) : arrival ∈ arrivals := by
  cases found with
  | arrival found => exact List.mem_of_getElem? found

theorem At.unique (found : At arrivals step arrival) (visited : At arrivals step last) :
    arrival = last := by
  cases found with
  | arrival found =>
      cases visited with
      | arrival visited => exact Option.some.inj (found.symm.trans visited)

theorem at_append_iff :
    At (arrivals ++ [last]) step arrival ↔
      At arrivals step arrival ∨ step = arrivals.length + 1 ∧ arrival = last := by
  constructor
  · intro found
    cases found with
    | @arrival index _ found =>
        rw [List.getElem?_append] at found
        split at found
        · exact .inl (.arrival found)
        · obtain ⟨inside, same⟩ := List.getElem?_eq_some_iff.mp found
          simp only [List.length_singleton] at inside
          refine .inr ⟨by omega, ?_⟩
          simpa using same.symm
  · intro cases
    rcases cases with found | ⟨rfl, rfl⟩
    · cases found with
      | @arrival index _ found =>
          refine .arrival ?_
          rw [List.getElem?_append_left (List.getElem?_eq_some_iff.mp found).1, found]
    · exact .arrival (by rw [List.getElem?_append_right (Nat.le_refl _), Nat.sub_self]; rfl)

end Arrival

namespace Run

open Arrival

variable {π σ μ : Type} {run next : Run π σ μ} {arrivals more : List (Arrival σ μ)}
  {machine after : Machine σ μ} {begin now : Nat} {id other : ActorId} {operation : Operation}

/-- At the first of these steps the actor announced this operation, and it has not been chosen
before the last one. -/
structure Pends (run : Run π σ μ) (arrivals : List (Arrival σ μ)) (id : ActorId)
    (operation : Operation) (begin now : Nat) : Prop where
  announced : ∃ arrival enabled, At arrivals begin arrival ∧ arrival.current = id ∧
    arrival.Shows id operation enabled
  le : begin ≤ now
  unchosen : ∀ step snapshot, run.Selects step snapshot → begin ≤ step → step < now →
    snapshot.id ≠ id

/-- An operation that makes progress was chosen at a step before the last of these, from the first
one on, for another actor. -/
def Progresses (run : Run π σ μ) (id : ActorId) (begin now : Nat) : Prop :=
  ∃ step snapshot, run.Selects step snapshot ∧ begin ≤ step ∧ step < now ∧ snapshot.id ≠ id ∧
    snapshot.kind.isProgress = true

/-- Something has let the actor go on at one of these steps. -/
def Released (run : Run π σ μ) (arrivals : List (Arrival σ μ)) (id : ActorId)
    (operation : Operation) (begin now : Nat) : Prop :=
  ∃ step, begin ≤ step ∧ step ≤ now ∧
    (operation.kind = .yield ∧ run.Progresses id begin step ∨
      ∃ arrival, At arrivals step arrival ∧ arrival.machine.Frees operation)

/-- The machine knows of the actor whether it has given up control, with which operation, and
whether it has been let go on since. -/
structure Mirrors (run : Run π σ μ) (arrivals : List (Arrival σ μ)) (machine : Machine σ μ)
    (now : Nat) (id : ActorId) : Prop where
  announced : ∀ operation enabled, machine.rest? id = some (operation, enabled) →
    ∃ begin, run.Pends arrivals id operation begin now
  released : ∀ operation begin, operation.Rests id → run.Pends arrivals id operation begin now →
    ∃ enabled, machine.rest? id = some (operation, enabled) ∧
      (enabled = true ↔ run.Released arrivals id operation begin now)

section Mirrors

theorem Pends.congr
    (pends : run.Pends arrivals id operation begin now)
    (visits : ∀ step arrival, step ≤ now → At arrivals step arrival → At more step arrival)
    (selects : ∀ step snapshot, step < now → next.Selects step snapshot →
      run.Selects step snapshot) :
    next.Pends more id operation begin now where
  announced := by
    obtain ⟨arrival, enabled, found, rest⟩ := pends.announced
    exact ⟨arrival, enabled, visits begin arrival pends.le found, rest⟩
  le := pends.le
  unchosen step snapshot chosen later earlier :=
    pends.unchosen step snapshot (selects step snapshot earlier chosen) later earlier

theorem Released.congr
    (released : run.Released arrivals id operation begin now)
    (visits : ∀ step arrival, step ≤ now → At arrivals step arrival → At more step arrival)
    (selects : ∀ step snapshot, step < now → run.Selects step snapshot →
      next.Selects step snapshot) :
    next.Released more id operation begin now := by
  obtain ⟨step, later, earlier, ⟨yields, progresses⟩ | ⟨arrival, found, frees⟩⟩ := released
  · obtain ⟨known, snapshot, chosen, after, before, rest⟩ := progresses
    exact ⟨step, later, earlier, .inl ⟨yields, known, snapshot,
      selects known snapshot (by omega) chosen, after, before, rest⟩⟩
  · exact ⟨step, later, earlier, .inr ⟨arrival, visits step arrival earlier found, frees⟩⟩

/-- What is let go on meanwhile is let go on in the machine. -/
theorem Mirrors.unblock
    {later : Nat} {test : Operation → Prop} [DecidablePred test]
    (mirrors : run.Mirrors arrivals machine now id)
    (pends : ∀ operation begin, next.Pends more id operation begin later ↔
      run.Pends arrivals id operation begin now)
    (released : ∀ operation begin, begin ≤ now → (next.Released more id operation begin later ↔
      run.Released arrivals id operation begin now ∨ test operation))
    (rests : after.rest? id = (machine.rest? id).map (Operation.unblock test)) :
    next.Mirrors more after later id where
  announced operation enabled resting := by
    rw [rests] at resting
    obtain ⟨⟨known, before⟩, earlier, same⟩ := Option.map_eq_some_iff.mp resting
    cases same
    obtain ⟨begin, pending⟩ := mirrors.announced known before earlier
    exact ⟨begin, (pends _ begin).mpr pending⟩
  released operation begin waits pending := by
    have pending := (pends operation begin).mp pending
    obtain ⟨before, resting, iff⟩ := mirrors.released operation begin waits pending
    refine ⟨_, by rw [rests, resting, Option.map_some, Operation.unblock_mk], ?_⟩
    rw [released operation begin pending.le, ← iff, Bool.or_eq_true, decide_eq_true_eq]

theorem Mirrors.congr
    (mirrors : run.Mirrors arrivals machine now id)
    (visits : ∀ step arrival, step ≤ now → (At more step arrival ↔ At arrivals step arrival))
    (selects : ∀ step snapshot, step < now →
      (next.Selects step snapshot ↔ run.Selects step snapshot))
    (same : after.rest? id = machine.rest? id) : next.Mirrors more after now id := by
  have released (operation : Operation) (begin : Nat) (_ : begin ≤ now) :
      next.Released more id operation begin now ↔
        run.Released arrivals id operation begin now ∨ False := by
    rw [or_false]
    exact ⟨(·.congr (fun step arrival le => (visits step arrival le).mp)
        fun step snapshot lt => (selects step snapshot lt).mp),
      (·.congr (fun step arrival le => (visits step arrival le).mpr)
        fun step snapshot lt => (selects step snapshot lt).mpr)⟩
  refine mirrors.unblock (fun operation begin => ?_) released ?_
  · exact ⟨(·.congr (fun step arrival le => (visits step arrival le).mp)
        fun step snapshot lt => (selects step snapshot lt).mpr),
      (·.congr (fun step arrival le => (visits step arrival le).mpr)
        fun step snapshot lt => (selects step snapshot lt).mp)⟩
  · rw [same]
    exact (Operation.map_unblock_of_never (fun _ impossible => impossible) _).symm

theorem Mirrors.pass
    (mirrors : run.Mirrors arrivals machine now id) (turns : next.turns = run.turns)
    (same : after.rest? id = machine.rest? id) : next.Mirrors arrivals after now id :=
  mirrors.congr (fun _ _ _ => Iff.rfl) (fun _ _ _ => ⟨(·.congr turns.symm), (·.congr turns)⟩) same

section Decide

variable {chosen : ActorId} {target : Actor σ μ} (few : arrivals.length ≤ run.turns.size + 1)
  (turns : next.turns = run.turns.push ⟨id, run.machine.snapshots, .run chosen⟩)
  (differs : other ≠ chosen)

include few turns differs

theorem pends_decide_iff (operation : Operation) (begin : Nat) :
    next.Pends arrivals other operation begin (run.turns.size + 2) ↔
      run.Pends arrivals other operation begin (run.turns.size + 1) := by
  constructor
  · intro pends
    obtain ⟨arrival, enabled, found, -⟩ := pends.announced
    refine ⟨pends.announced, Nat.le_trans found.inside.2 few, ?_⟩
    intro step snapshot selects later earlier
    exact pends.unchosen step snapshot ((selects_push_iff turns).mpr (.inl selects)) later
      (Nat.lt_succ_of_lt earlier)
  · intro pends
    refine ⟨pends.announced, Nat.le_succ_of_le pends.le, ?_⟩
    intro step snapshot selects later earlier
    rcases (selects_push_iff turns).mp selects with before | ⟨rfl, same, listed⟩
    · exact pends.unchosen step snapshot before later (Nat.lt_succ_of_le before.le)
    · cases same
      exact differs.symm

theorem released_decide_iff
    (there : run.machine.actors.get? chosen = some target) (early : begin ≤ run.turns.size + 1) :
    next.Released arrivals other operation begin (run.turns.size + 2) ↔
      run.Released arrivals other operation begin (run.turns.size + 1) ∨
        operation.kind = .yield ∧ target.record.operation.kind.isProgress = true := by
  constructor
  · rintro ⟨step, later, earlier, ⟨yields, progresses⟩ | ⟨arrival, found, frees⟩⟩
    · obtain ⟨known, snapshot, selects, after, before, others, progress⟩ := progresses
      rcases (selects_push_iff turns).mp selects with selects | ⟨rfl, same, listed⟩
      · have inside := selects.le
        exact .inl ⟨known + 1, by omega, by omega, .inl ⟨yields, known, snapshot, selects, after,
          Nat.lt_succ_self known, others, progress⟩⟩
      · cases same
        obtain ⟨actor, present, same⟩ := mem_snapshots_iff.mp listed
        cases there.symm.trans present
        exact .inr ⟨yields, by rw [← progress, ← same]; rfl⟩
    · exact .inl ⟨step, later, Nat.le_trans found.inside.2 few, .inr ⟨arrival, found, frees⟩⟩
  · rintro (released | ⟨yields, progress⟩)
    · have kept : next.Released arrivals other operation begin (run.turns.size + 1) :=
        released.congr (fun _ _ _ found => found) fun step snapshot _ selects =>
          (selects_push_iff turns).mpr (.inl selects)
      obtain ⟨step, later, earlier, rest⟩ := kept
      exact ⟨step, later, Nat.le_succ_of_le earlier, rest⟩
    · refine ⟨_, Nat.le_succ_of_le early, Nat.le_refl _, .inl ⟨yields, run.turns.size + 1,
        target.record.snapshot chosen, ?_, early, Nat.lt_succ_self _, differs.symm, progress⟩⟩
      exact (selects_push_iff turns).mpr
        (.inr ⟨rfl, rfl, mem_snapshots_iff.mpr ⟨target, there, rfl⟩⟩)

end Decide

section Arrive

variable {arrived : Machine σ μ} (turns : next.turns = run.turns)
  (number : arrivals.length = run.turns.size)

include turns number

theorem released_arrive_iff (early : begin ≤ run.turns.size + 1) :
    next.Released (arrivals ++ [⟨id, arrived⟩]) other operation begin (run.turns.size + 1) ↔
      run.Released arrivals other operation begin (run.turns.size + 1) ∨
        arrived.Frees operation := by
  constructor
  · rintro ⟨step, later, earlier, ⟨yields, progresses⟩ | ⟨arrival, found, frees⟩⟩
    · obtain ⟨known, snapshot, selects, rest⟩ := progresses
      exact .inl ⟨step, later, earlier, .inl ⟨yields, known, snapshot, selects.congr turns.symm,
        rest⟩⟩
    · rcases at_append_iff.mp found with found | ⟨rfl, rfl⟩
      · exact .inl ⟨step, later, earlier, .inr ⟨arrival, found, frees⟩⟩
      · exact .inr frees
  · rintro (released | frees)
    · exact released.congr (fun _ _ _ found => at_append_iff.mpr (.inl found))
        fun _ _ _ selects => selects.congr turns
    · exact ⟨run.turns.size + 1, early, Nat.le_refl _,
        .inr ⟨_, at_append_iff.mpr (.inr ⟨by rw [number], rfl⟩), frees⟩⟩

omit number in
theorem pends_arrive_iff (differs : other ≠ id) (operation : Operation) (begin : Nat) :
    next.Pends (arrivals ++ [⟨id, arrived⟩]) other operation begin now ↔
      run.Pends arrivals other operation begin now := by
  constructor
  · intro pends
    refine ⟨?_, pends.le, fun step snapshot selects =>
      pends.unchosen step snapshot (selects.congr turns)⟩
    obtain ⟨arrival, enabled, found, here, rest⟩ := pends.announced
    rcases at_append_iff.mp found with found | ⟨-, rfl⟩
    · exact ⟨arrival, enabled, found, here, rest⟩
    · exact absurd here.symm differs
  · intro pends
    exact pends.congr (fun _ _ _ found => at_append_iff.mpr (.inl found))
      fun _ _ _ selects => selects.congr turns.symm

theorem mirrors_arrive_self
    (free : ∀ operation begin, ¬ run.Pends arrivals id operation begin (run.turns.size + 1))
    (coherent : arrived.Coherent id) (placed : arrived.Placed id)
    (disabled : ∀ operation enabled, arrived.rest? id = some (operation, enabled) →
      enabled = false) :
    next.Mirrors (arrivals ++ [⟨id, arrived⟩]) arrived.releaseBlocked (run.turns.size + 1) id := by
  have here : At (arrivals ++ [⟨id, arrived⟩]) (run.turns.size + 1) ⟨id, arrived⟩ :=
    at_append_iff.mpr (.inr ⟨by rw [number], rfl⟩)
  have rests := rest?_releaseBlocked coherent id
  constructor
  · intro operation enabled resting
    exact ⟨run.turns.size + 1, ⟨_, enabled, here, rfl, shows_of_rest? resting⟩, Nat.le_refl _,
      fun _ _ _ _ _ => by omega⟩
  · intro operation begin waits pending
    obtain ⟨arrival, enabled, found, current, shows⟩ := pending.announced
    rcases at_append_iff.mp found with found | ⟨last, rfl⟩
    · exact absurd ⟨⟨arrival, enabled, found, current, shows⟩, pending.le,
        fun step snapshot selects => pending.unchosen step snapshot (selects.congr turns)⟩
        (free operation begin)
    rw [number] at last
    subst last
    have resting := shows.rest? waits coherent placed
    refine ⟨_, resting, ?_⟩
    rw [rests] at resting
    obtain ⟨⟨kept, before⟩, earlier, unblocked⟩ := Option.map_eq_some_iff.mp resting
    cases disabled kept before earlier
    rw [Operation.unblock_mk, Bool.false_or] at unblocked
    obtain ⟨rfl, same⟩ := Prod.mk.inj unblocked
    rw [← same, released_arrive_iff turns number (Nat.le_refl _), decide_eq_true_eq]
    refine ⟨.inr, ?_⟩
    rintro (⟨step, later, before, ⟨-, known, -, -, first, last, -⟩ | ⟨arrival, found, -⟩⟩ | frees)
    · omega
    · have inside := found.inside.2
      omega
    · exact frees

end Arrive

end Mirrors

end Run

end Interleave
