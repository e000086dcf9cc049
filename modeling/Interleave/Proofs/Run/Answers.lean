import Mathlib.Data.List.Perm.Basic
import Interleave.Policy.Priority
import Interleave.Policy.Uniform
import Interleave.Proofs.Run.Turns
import Interleave.Proofs.Search.Frames

namespace Interleave

/-- The answer of a scheduler fits the actors: only an enabled one is run, there is a deadlock only
where none is enabled, and a fault is one of the engine. -/
def Fits (actors : List Snapshot) : Except Fault Decision → Prop
  | .ok (.run next) => ∃ snapshot ∈ actors, snapshot.id = next ∧ snapshot.enabled = true
  | .ok .deadlock => ∀ snapshot ∈ actors, snapshot.enabled = false
  | .ok .sleepSetBlocked | .ok .hitStepLimit => True
  | .error fault => fault.isEngine = true

instance (actors : List Snapshot) : (answer : Except Fault Decision) → Decidable (Fits actors answer)
  | .ok (.run next) =>
      inferInstanceAs (Decidable (∃ snapshot ∈ actors, snapshot.id = next ∧ snapshot.enabled = true))
  | .ok .deadlock => inferInstanceAs (Decidable (∀ snapshot ∈ actors, snapshot.enabled = false))
  | .ok .sleepSetBlocked | .ok .hitStepLimit => .isTrue trivial
  | .error fault => inferInstanceAs (Decidable (fault.isEngine = true))

namespace Machine

theorem numbered_snapshots {σ μ : Type} (machine : Machine σ μ) : Numbered machine.snapshots := by
  intro index snapshot there
  simp only [snapshots, Roster.entries, List.getElem?_map, List.getElem?_mapIdx,
    Option.map_map, Option.map_eq_some_iff] at there
  obtain ⟨actor, -, rfl⟩ := there
  rfl

theorem length_snapshots {σ μ : Type} (machine : Machine σ μ) :
    machine.snapshots.length = machine.actors.size := by
  simp [snapshots, Roster.entries, Roster.toList, Roster.size]

end Machine

namespace Run

variable {π σ μ : Type} {program : Program σ μ} {run : Run π σ μ} {log : Log} [Scheduler π]

def Heeds (run : Run π σ μ) (log : Log) : Prop :=
  ∀ id, run.machine.control = .choosing id →
    Fits run.machine.snapshots
      ((Scheduler.choose run.machine.snapshots id : Attempt π Decision).outcome
        (run.policy, log)).1.1

/-- Whenever it is asked in this execution, the scheduler heeds the actors. -/
def Heedful (program : Program σ μ) (run : Run π σ μ) (log : Log) : Prop :=
  ∀ steps, Heeds ((run.complete program steps).run log).1 ((run.complete program steps).run log).2

theorem Heedful.step
    (heedful : run.Heedful program log) (unfinished : ¬ run.isFinished = true) :
    ((run.step program).run log).1.Heedful program ((run.step program).run log).2 := by
  intro steps
  have later := heedful (steps + 1)
  rw [complete_succ, if_neg unfinished] at later
  exact later

end Run

namespace Policy.Uniform

variable {actors : List Snapshot} {policy : Uniform}

theorem disabled_of_choose (deadlock : (policy.choose actors).1 = .deadlock) :
    ∀ actor ∈ actors, actor.enabled = false := by
  have none : Snapshot.enabledPreferring preferred actors = [] := by
    simp only [choose, pick] at deadlock
    split at deadlock
    · cases deadlock
    · split at deadlock
      · cases deadlock
      · rename_i few
        exact List.eq_nil_of_length_eq_zero (Nat.eq_zero_of_not_pos few)
  exact Snapshot.enabledPreferring_eq_nil_iff.mp none

theorem fits_choose (actors : List Snapshot) (policy : Uniform) :
    Fits actors (.ok (policy.choose actors).1) := by
  cases chosen : (policy.choose actors).1 with
  | run next => exact enabled_of_choose chosen
  | deadlock => exact disabled_of_choose chosen
  | sleepSetBlocked | hitStepLimit => trivial

theorem choose_ne_sleepSetBlocked (actors : List Snapshot) (policy : Uniform) :
    (policy.choose actors).1 ≠ .sleepSetBlocked := by
  intro blocked
  simp only [choose, pick] at blocked
  split at blocked
  · cases blocked
  · split at blocked
    · cases blocked
    · cases blocked

end Policy.Uniform

namespace Policy.Replay

variable {trace : Trace} {position : Nat} {actors : List Snapshot} {next : ActorId}

theorem outcome_choose_of_recorded
    (recorded : trace.steps[position]? = some next) (log : Log) :
    (choose actors).outcome (⟨trace, position⟩, log) =
      ((follow actors next (position + 1), ⟨trace, position + 1⟩), log) := by
  simp only [choose]
  rw [Attempt.outcome_get_bind]
  simp only [recorded]
  cases follow actors next (position + 1) with
  | ok decision | error fault => rfl

theorem outcome_choose_of_over (beyond : trace.steps[position]? = none) (log : Log) :
    (choose actors).outcome (⟨trace, position⟩, log) =
      ((.ok (atEnd actors), ⟨trace, position⟩), log) := by
  simp only [choose]
  rw [Attempt.outcome_get_bind]
  simp only [beyond]
  rfl

theorem atEnd_ne_run (actors : List Snapshot) (next : ActorId) : atEnd actors ≠ .run next := by
  unfold atEnd
  split <;> nofun

theorem atEnd_ne_sleepSetBlocked (actors : List Snapshot) : atEnd actors ≠ .sleepSetBlocked := by
  unfold atEnd
  split <;> nofun

theorem atEnd_eq_deadlock_iff :
    atEnd actors = .deadlock ↔ ∀ snapshot ∈ actors, snapshot.enabled = false := by
  simp [atEnd]

theorem fits_atEnd (actors : List Snapshot) : Fits actors (.ok (atEnd actors)) := by
  cases decision : atEnd actors with
  | run next => exact absurd decision (atEnd_ne_run actors next)
  | deadlock => exact atEnd_eq_deadlock_iff.mp decision
  | sleepSetBlocked | hitStepLimit => trivial

theorem follow_cases (actors : List Snapshot) (next : ActorId) (step : Nat) :
    follow actors next step = .ok (.run next) ∨
      follow actors next step = .error (.notReplayable next step actors) := by
  unfold follow
  split
  · exact .inl rfl
  · exact .inr rfl

theorem follow_of_enabled
    (numbered : Numbered actors) {snapshot : Snapshot} (listed : snapshot ∈ actors)
    (enabled : snapshot.enabled = true) (step : Nat) :
    follow actors snapshot.id step = .ok (.run snapshot.id) := by
  obtain ⟨index, there⟩ := List.mem_iff_getElem?.mp listed
  have number := numbered index snapshot there
  unfold follow
  rw [number, there]
  exact if_pos enabled

theorem fits_follow (numbered : Numbered actors) (next : ActorId) (step : Nat) :
    Fits actors (follow actors next step) := by
  unfold follow
  cases there : actors[next.index]? with
  | none => exact rfl
  | some snapshot =>
      by_cases enabled : snapshot.enabled = true
      · simp only [Option.any_some, enabled, if_true]
        exact ⟨snapshot, List.mem_of_getElem? there, numbered next.index snapshot there, enabled⟩
      · simp only [Option.any_some, enabled]
        exact rfl

theorem choose_cases (actors : List Snapshot) (policy : Replay) (log : Log) :
    ((choose actors).outcome (policy, log)).1.1 = .ok (atEnd actors) ∨
      ∃ next step, ((choose actors).outcome (policy, log)).1.1 = follow actors next step := by
  obtain ⟨trace, position⟩ := policy
  cases recorded : trace.steps[position]? with
  | none =>
      rw [outcome_choose_of_over recorded]
      exact .inl rfl
  | some next =>
      rw [outcome_choose_of_recorded recorded]
      exact .inr ⟨next, _, rfl⟩

theorem fits_choose (numbered : Numbered actors) (policy : Replay) (log : Log) :
    Fits actors ((choose actors).outcome (policy, log)).1.1 := by
  rcases choose_cases actors policy log with ends | ⟨next, step, follows⟩
  · rw [ends]
    exact fits_atEnd actors
  · rw [follows]
    exact fits_follow numbered next step

end Policy.Replay

namespace Policy.Priority

open Attempt

variable {actors : List Snapshot} {policy : Priority} {count : Nat}

def Orders (policy : Priority) (count : Nat) : Prop :=
  policy.order.Perm ((List.range count).map ActorId.mk)

theorem order_place (policy : Priority) (id : ActorId) :
    (policy.place id).order.Perm (id :: policy.order) := by
  have inside := policy.source.below_lt .wide (Nat.succ_pos policy.order.length)
  exact List.perm_insertIdx id policy.order (Nat.le_of_lt_succ inside)

theorem order_placeAll (policy : Priority) (newcomers : List Snapshot) :
    (newcomers.foldl (fun policy actor => policy.place actor.id) policy).order.Perm
      (newcomers.map Snapshot.id ++ policy.order) := by
  induction newcomers generalizing policy with
  | nil => exact .refl _
  | cons actor rest induction =>
      refine (induction (policy.place actor.id)).trans ?_
      refine ((order_place policy actor.id).append_left (rest.map Snapshot.id)).trans ?_
      exact List.perm_middle

theorem map_id_of_numbered (numbered : Numbered actors) :
    actors.map Snapshot.id = (List.range actors.length).map ActorId.mk := by
  apply List.ext_getElem?
  intro index
  simp only [List.getElem?_map]
  cases there : actors[index]? with
  | none => simp [List.getElem?_eq_none_iff.mp there]
  | some snapshot =>
      have inside := (List.getElem?_eq_some_iff.mp there).1
      simp [numbered index snapshot there, inside]

theorem Orders.welcome
    (orders : policy.Orders count) (numbered : Numbered actors) (few : count ≤ actors.length) :
    (policy.welcome actors).Orders actors.length := by
  have length : policy.order.length = count := by
    rw [orders.length_eq, List.length_map, List.length_range]
  have newcomers : (actors.drop count).map Snapshot.id =
      ((List.range actors.length).map ActorId.mk).drop count := by
    rw [List.map_drop, map_id_of_numbered numbered]
  have first : (List.range count).map ActorId.mk =
      ((List.range actors.length).map ActorId.mk).take count := by
    rw [← List.map_take, List.take_range, Nat.min_eq_left few]
  unfold Orders Priority.welcome at *
  rw [length]
  refine (order_placeAll policy _).trans ?_
  rw [newcomers]
  refine (orders.append_left _).trans ?_
  rw [first]
  exact List.perm_append_comm.trans (by rw [List.take_append_drop])

theorem perm_toFront (order : List ActorId) (id : ActorId) : (toFront order id).Perm order := by
  unfold toFront
  split
  · rename_i member
    exact (List.perm_cons_erase (List.contains_iff_mem.mp member)).symm
  · exact .refl _

theorem perm_toBack (order : List ActorId) (id : ActorId) : (toBack order id).Perm order := by
  unfold toBack
  split
  · rename_i member
    exact (List.perm_append_singleton id _).trans
      (List.perm_cons_erase (List.contains_iff_mem.mp member)).symm
  · exact .refl _

theorem perm_change (actors : List Snapshot) (policy : Priority) (current : ActorId) :
    (policy.change actors current).2.order.Perm policy.order := by
  unfold change
  split
  · split
    · exact perm_toFront _ _
    · exact perm_toBack _ _
  · exact perm_toBack _ _

theorem perm_countSend (actors : List Snapshot) (policy : Priority) (current : ActorId) :
    (policy.countSend actors current).2.order.Perm policy.order := by
  simp only [countSend]
  split
  · split
    · exact perm_change _ _ _
    · exact .refl _
  · exact .refl _

theorem exists_listed {order : List ActorId} (inside : ∀ id ∈ order, id.index < actors.length) :
    ∃ listed, order.mapM (lookUp actors) = .ok listed ∧
      ∀ actor, actor ∈ listed ↔ ∃ id ∈ order, actors[id.index]? = some actor := by
  induction order with
  | nil => exact ⟨[], rfl, by simp⟩
  | cons id rest induction =>
      obtain ⟨listed, found, members⟩ := induction fun id member => inside id (.tail _ member)
      obtain ⟨first, there⟩ : ∃ first, actors[id.index]? = some first :=
        ⟨_, List.getElem?_eq_getElem (inside id (.head rest))⟩
      refine ⟨first :: listed, ?_, ?_⟩
      · rw [List.mapM_cons, found, lookUp, there]
        rfl
      · intro actor
        rw [List.mem_cons, members, List.exists_mem_cons_iff, there, Option.some.injEq]
        exact or_congr_left eq_comm

theorem Orders.mem_order_iff (orders : policy.Orders count) {id : ActorId} :
    id ∈ policy.order ↔ id.index < count := by
  rw [orders.mem_iff]
  constructor
  · intro member
    obtain ⟨index, among, rfl⟩ := List.mem_map.mp member
    exact List.mem_range.mp among
  · intro small
    exact List.mem_map.mpr ⟨id.index, List.mem_range.mpr small, rfl⟩

theorem Orders.exists_listed (orders : policy.Orders actors.length) :
    ∃ listed, policy.order.mapM (lookUp actors) = .ok listed ∧
      ∀ actor, actor ∈ listed ↔ actor ∈ actors := by
  obtain ⟨listed, found, members⟩ :=
    Priority.exists_listed fun _ member => orders.mem_order_iff.mp member
  refine ⟨listed, found, fun actor => (members actor).trans ?_⟩
  constructor
  · rintro ⟨id, -, there⟩
    exact List.mem_of_getElem? there
  · intro member
    obtain ⟨index, there⟩ := List.mem_iff_getElem?.mp member
    exact ⟨⟨index⟩, orders.mem_order_iff.mpr (List.getElem?_eq_some_iff.mp there).1, there⟩

theorem Orders.decide_cases (orders : policy.Orders actors.length) :
    (∃ actor ∈ actors, actor.enabled = true ∧ policy.decide actors = .ok (.run actor.id)) ∨
      (∀ actor ∈ actors, actor.enabled = false) ∧ policy.decide actors = .ok .deadlock := by
  obtain ⟨listed, found, members⟩ := orders.exists_listed
  cases chosen : (listed.filter Snapshot.enabled).find? (fun actor => actor.kind ≠ .send)
      <|> (listed.filter Snapshot.enabled).head? with
  | some actor =>
      have decided : policy.decide actors = .ok (.run actor.id) := by
        rw [Priority.decide, found]
        simp only [bind, Except.bind, chosen]
        rfl
      have member : actor ∈ listed.filter Snapshot.enabled := by
        simp only [Option.orElse_eq_orElse, Option.orElse_eq_or, Option.or_eq_some_iff] at chosen
        rcases chosen with found | ⟨-, first⟩
        · exact List.mem_of_find?_eq_some found
        · exact List.mem_of_head? first
      obtain ⟨member, enabled⟩ := List.mem_filter.mp member
      exact .inl ⟨actor, (members actor).mp member, enabled, decided⟩
  | none =>
      have decided : policy.decide actors = .ok .deadlock := by
        rw [Priority.decide, found]
        simp only [bind, Except.bind, chosen]
        rfl
      have nobody : listed.filter Snapshot.enabled = [] := by
        simp only [Option.orElse_eq_orElse, Option.orElse_eq_or, Option.or_eq_none_iff] at chosen
        exact List.head?_eq_none_iff.mp chosen.2
      refine .inr ⟨?_, decided⟩
      intro snapshot member
      simpa using List.filter_eq_nil_iff.mp nobody snapshot ((members snapshot).mpr member)

theorem Orders.fits_decide (orders : policy.Orders actors.length) :
    Fits actors (policy.decide actors) := by
  rcases orders.decide_cases with ⟨actor, listed, enabled, decided⟩ | ⟨nobody, decided⟩
  · rw [decided]
    exact ⟨actor, listed, rfl, enabled⟩
  · rw [decided]
    exact nobody

theorem Orders.choose_cases
    (orders : policy.Orders count) (numbered : Numbered actors) (few : count ≤ actors.length)
    (current : ActorId) (log : Log) :
    ∃ changed, changed.Orders actors.length ∧
      (((Priority.choose actors current).outcome (policy, log)).1 = (.ok .hitStepLimit, changed) ∨
        ((Priority.choose actors current).outcome (policy, log)).1 =
          (changed.decide actors, changed)) := by
  have welcomed := orders.welcome numbered few
  generalize counted : { policy.welcome actors with steps := (policy.welcome actors).steps + 1 } =
    ready
  have ordered : ready.Orders actors.length := by
    rw [← counted]
    exact welcomed
  unfold Priority.choose
  rw [outcome_modify_bind, outcome_modify_bind, outcome_get_bind, counted]
  by_cases limited : (ready.stepLimit.any fun limit => limit < ready.steps) = true
  · rw [if_pos limited]
    exact ⟨ready, ordered, .inl rfl⟩
  · rw [if_neg limited]
    have kept := perm_countSend actors ready current
    cases sent : ready.countSend actors current with
    | mk event changed =>
        rw [sent] at kept
        have answered : ∀ written,
            ((liftM (changed.decide actors) : Attempt Priority Decision).outcome
              (changed, written)).1 = (changed.decide actors, changed) := by
          intro written
          rw [outcome_lift]
        refine ⟨changed, kept.trans ordered, .inr ?_⟩
        cases event with
        | none => exact answered log
        | some event => exact answered (log.add event)

theorem Orders.choose
    (orders : policy.Orders count) (numbered : Numbered actors) (few : count ≤ actors.length)
    (current : ActorId) (log : Log) :
    Fits actors ((Priority.choose actors current).outcome (policy, log)).1.1 ∧
      ((Priority.choose actors current).outcome (policy, log)).1.2.Orders actors.length := by
  obtain ⟨changed, kept, limited | decided⟩ := orders.choose_cases numbered few current log
  · rw [limited]
    exact ⟨trivial, kept⟩
  · rw [decided]
    exact ⟨kept.fits_decide, kept⟩

end Policy.Priority

namespace Run

open Machine

variable {σ μ : Type} {program : Program σ μ} {log : Log}

theorem heedful_uniform (run : Run Policy.Uniform σ μ) : run.Heedful program log :=
  fun _ _ _ => Policy.Uniform.fits_choose _ _

theorem heedful_replay (run : Run Policy.Replay σ μ) : run.Heedful program log :=
  fun _ _ _ => Policy.Replay.fits_choose (numbered_snapshots _) _ _

def Ordered (run : Run Policy.Priority σ μ) : Prop :=
  ∃ count, count ≤ run.machine.actors.size ∧ run.policy.Orders count

theorem Ordered.choose
    {run : Run Policy.Priority σ μ} (ordered : run.Ordered) (id : ActorId) (log : Log) :
    Fits run.machine.snapshots
        ((Scheduler.choose run.machine.snapshots id : Attempt Policy.Priority Decision).outcome
          (run.policy, log)).1.1 ∧
      ((Scheduler.choose run.machine.snapshots id : Attempt Policy.Priority Decision).outcome
          (run.policy, log)).1.2.Orders run.machine.actors.size := by
  obtain ⟨count, few, orders⟩ := ordered
  have length := length_snapshots run.machine
  rw [← length] at few ⊢
  exact orders.choose (numbered_snapshots _) few id log

theorem Steps.ordered
    {run next : Run Policy.Priority σ μ} (steps : Steps program run log next)
    (ordered : run.Ordered) (sane : run.machine.Sane) : next.Ordered := by
  have size := (steps.onward sane).size
  cases steps with
  | tick undecided =>
      obtain ⟨count, few, orders⟩ := ordered
      exact ⟨count, Nat.le_trans few size, orders⟩
  | @decide id decision policy _ choosing chosen =>
      have orders := (ordered.choose id log).2
      rw [show (Scheduler.choose run.machine.snapshots id : Attempt _ Decision).outcome _ = _
        from chosen] at orders
      exact ⟨_, size, orders⟩
  | @fail id fault policy choosing failed =>
      have orders := (ordered.choose id log).2
      rw [failed] at orders
      exact ⟨_, size, orders⟩

/-- Priorities must not be left from an earlier execution. -/
theorem heedful_priority
    {policy : Policy.Priority} (number : Nat) (fresh : policy.order = []) :
    (start program number policy).Heedful program log := by
  have ordered : ∀ run, Reached program (start program number policy) run → run.Ordered := by
    intro run reached
    induction reached with
    | here => exact ⟨0, Nat.zero_le _, by rw [Policy.Priority.Orders, start, fresh]; exact .refl _⟩
    | step reached log induction =>
        have sane := reached.sane (sane_start (program.root number))
        exact (steps_step sane log).ordered induction sane
  intro steps id choosing
  exact ((ordered _ (reached_complete program steps _ log)).choose id _).1

end Run

end Interleave
