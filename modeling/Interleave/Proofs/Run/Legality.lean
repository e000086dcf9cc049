import Interleave.Policy
import Interleave.Proofs.Run.Searches

namespace Interleave

open Attempt

/-- What a scheduler is shown: the actors at a scheduling point, and the one that has reached it, when
so many executions are over and these actors have been run in the present one. A system that may
show one thing or another is as many worlds. -/
structure World where
  actors : Nat → List ActorId → List Snapshot
  current : Nat → List ActorId → ActorId

namespace World

structure Lawful (world : World) : Prop where
  numbered : ∀ number run, Numbered (world.actors number run)
  kept : ∀ number run next,
    (world.actors number run).length ≤ (world.actors number (run ++ [next])).length

def Deterministic (world : World) : Prop :=
  ∀ number run, world.actors number run = world.actors 0 run

/-- The system that shows what is shown in the first execution. A state is what has been run. -/
def system (world : World) : TransitionSystem where
  State := List ActorId
  initial := []
  actors := world.actors 0
  step run next := run ++ [next]

end World

def TransitionSystem.world (system : TransitionSystem) : World where
  actors _ run := system.actors (system.after system.initial run)
  current _ _ := ⟨0⟩

namespace World

variable {world : World}

theorem Lawful.numbered_system (lawful : world.Lawful) : world.system.Numbered :=
  fun run => lawful.numbered 0 run

theorem after_system (first : world.system.State) (run : List ActorId) :
    world.system.after first run = List.append first run := by
  induction run generalizing first with
  | nil => exact (List.append_nil first).symm
  | cons next rest induction =>
      exact (induction (world.system.step first next)).trans (List.append_assoc first [next] rest)

theorem Deterministic.actors_eq
    (deterministic : world.Deterministic) (number : Nat) (run : List ActorId) :
    world.system.actors (world.system.after world.system.initial run) =
      world.actors number run :=
  (congrArg (world.actors 0) (after_system [] run)).trans (deterministic number run).symm

end World

/-- A scheduler in the middle of an execution, after a number of others and a run. An execution is
over at the first decision that runs nobody, and then the next one is prepared, whatever is left to
explore. In between anything may be written to the log. -/
inductive Session {π : Type} [Scheduler π] (world : World) (first : π) :
    Nat → List ActorId → π → Prop
  | start : Session world first 0 [] first
  | run {number : Nat} {run : List ActorId} {actor : ActorId} {policy next : π} {log written : Log}
      (session : Session world first number run policy)
      (chosen : (Scheduler.choose (world.actors number run) (world.current number run)).Returns
        (policy, log) (.run actor) (next, written)) :
      Session world first number (run ++ [actor]) next
  | restart {number : Nat} {run : List ActorId} {decision : Decision} {more : Bool}
      {policy ended next : π} {log written before after : Log}
      (session : Session world first number run policy)
      (chosen : (Scheduler.choose (world.actors number run) (world.current number run)).Returns
        (policy, log) decision (ended, written))
      (idle : decision.actor? = none)
      (advanced : Scheduler.advance.Returns (ended, before) more (next, after)) :
      Session world first (number + 1) [] next

inductive Setup
  | uniform (settings : Settings)
  | priority (settings : Settings)
  | search (settings : Settings)
  | replay (trace : Trace)

def Setup.policy : Setup → Policy
  | uniform settings => .uniform (.ofSettings settings)
  | priority settings => .priority (.ofSettings settings)
  | search settings => .search (.ofSettings settings)
  | replay trace => .replay (.ofTrace trace)

/-- At the last frame some of the actors are enabled, and all of these are asleep. -/
structure Policy.Search.AllAsleep (policy : Policy.Search) (actors : List Snapshot) : Prop where
  some_enabled : ∃ snapshot ∈ actors, snapshot.enabled = true
  asleep : ∃ top, policy.schedule.top = .ok top ∧ top.actors = actors ∧
    ∀ entry ∈ top.entries, entry.enabled = true → entry.asleep = true

/-- Why a policy may give up, or fail: a replay because the trace cannot be followed, and a search
because it counts beyond the range of a word, which it does not if the current actor is one of those
that are shown and these are fewer than half the numbers of a word. -/
structure Excused (setup : Setup) (actors : List Snapshot) (current : ActorId)
    (answer : Except Fault Decision × Policy) : Prop where
  blocked : answer.1 = .ok .sleepSetBlocked → ∃ settings search, setup = .search settings ∧
    settings.randomized = false ∧ settings.sleepSets = true ∧
      answer.2 = .search search ∧ search.AllAsleep actors
  fault : ∀ fault, answer.1 = .error fault →
    (∃ trace next step, setup = .replay trace ∧ fault = .notReplayable next step actors) ∨
      ∃ settings, setup = .search settings ∧ settings.randomized = false ∧
        settings.reduction = true ∧ wordSize < current.index + actors.length

/-- A legal answer to these actors, with the policy after it: whoever is run is enabled, and there is
a deadlock wherever nobody is, unless the step limit or a fault comes first. -/
structure Legal (setup : Setup) (actors : List Snapshot) (current : ActorId)
    (answer : Except Fault Decision × Policy) : Prop extends
    Excused setup actors current answer where
  enabled : ∀ next, answer.1 = .ok (.run next) →
    ∃ snapshot ∈ actors, snapshot.id = next ∧ snapshot.enabled = true
  deadlock_iff : answer.1 = .ok .deadlock ↔
    (∀ snapshot ∈ actors, snapshot.enabled = false) ∧ answer.1 ≠ .ok .hitStepLimit ∧
      ∀ fault, answer.1 ≠ .error fault

section Answers

variable {setup : Setup} {actors : List Snapshot} {current : ActorId}
  {answer : Except Fault Decision × Policy}

theorem Excused.legal
    (excused : Excused setup actors current answer)
    (fits : ∀ decision, answer.1 = .ok decision → Fits actors (.ok decision)) :
    Legal setup actors current answer where
  toExcused := excused
  enabled := by
    intro next decided
    exact fits _ decided
  deadlock_iff := by
    constructor
    · intro decided
      have nobody := fits _ decided
      rw [decided]
      exact ⟨nobody, nofun, nofun⟩
    · rintro ⟨nobody, uncut, faultless⟩
      have contradicts : ¬ ∃ snapshot ∈ actors, snapshot.enabled = true := by
        rintro ⟨snapshot, listed, enabled⟩
        rw [nobody snapshot listed] at enabled
        cases enabled
      cases decided : answer.1 with
      | error fault => exact absurd decided (faultless fault)
      | ok decision =>
          cases decision with
          | deadlock => rfl
          | run next =>
              obtain ⟨snapshot, listed, -, enabled⟩ := fits _ decided
              exact absurd ⟨snapshot, listed, enabled⟩ contradicts
          | sleepSetBlocked =>
              obtain ⟨settings, search, -, -, -, -, asleep⟩ := excused.blocked decided
              exact absurd asleep.some_enabled contradicts
          | hitStepLimit => exact absurd decided uncut

theorem excused_of_decided
    (decision : Decision) (unblocked : decision ≠ .sleepSetBlocked) (policy : Policy) :
    Excused setup actors current (.ok decision, policy) where
  blocked := by
    rintro ⟨⟩
    exact absurd rfl unblocked
  fault := nofun

theorem Excused.legal_of_fits
    (excused : Excused setup actors current answer) (fits : Fits actors answer.1) :
    Legal setup actors current answer := by
  refine excused.legal ?_
  intro decision decided
  rwa [decided] at fits

theorem legal_uniform (actors : List Snapshot) (policy : Policy.Uniform) (next : Policy) :
    Legal setup actors current (.ok (policy.choose actors).1, next) :=
  (excused_of_decided _ (policy.choose_ne_sleepSetBlocked actors) next).legal_of_fits
    (policy.fits_choose actors)

theorem legal_priority
    {policy : Policy.Priority} {count : Nat} (orders : policy.Orders count)
    (numbered : Numbered actors) (few : count ≤ actors.length) (current : ActorId) (log : Log)
    (next : Policy) :
    Legal setup actors current
      (((Policy.Priority.choose actors current).outcome (policy, log)).1.1, next) := by
  refine Excused.legal_of_fits ?_ (orders.choose numbered few current log).1
  obtain ⟨changed, kept, limited | decided⟩ := orders.choose_cases numbered few current log
  · rw [limited]
    exact excused_of_decided .hitStepLimit nofun next
  · rw [decided]
    rcases kept.decide_cases with ⟨actor, -, -, runs⟩ | ⟨-, deadlock⟩
    · rw [runs]
      exact excused_of_decided (.run actor.id) nofun next
    · rw [deadlock]
      exact excused_of_decided .deadlock nofun next

theorem legal_replay
    (trace : Trace) (numbered : Numbered actors) (policy : Policy.Replay) (log : Log)
    (next : Policy) :
    Legal (.replay trace) actors current
      (((Policy.Replay.choose actors).outcome (policy, log)).1.1, next) := by
  refine Excused.legal_of_fits ?_ (policy.fits_choose numbered log)
  rcases policy.choose_cases actors log with ends | ⟨other, step, follows⟩
  · rw [ends]
    exact excused_of_decided _ (Policy.Replay.atEnd_ne_sleepSetBlocked actors) next
  · rw [follows]
    rcases Policy.Replay.follow_cases actors other step with runs | fails
    · rw [runs]
      exact excused_of_decided (.run other) nofun next
    · rw [fails]
      refine ⟨nofun, ?_⟩
      rintro fault ⟨⟩
      exact .inl ⟨trace, other, step, rfl, rfl⟩

end Answers

section Search

open TransitionSystem Policy.Search

variable {system : TransitionSystem} {settings : Settings} {rounds : List Round}
  {policy between next : Policy.Search} {turns : List Turn} {current : ActorId} {log written : Log}

namespace TransitionSystem.Past

variable (past : system.Past settings rounds policy turns between) (numbered : system.Numbered)

include past numbered

/-- A search gives up only with sleep sets, at a frame where all who are enabled are asleep. -/
theorem allAsleep
    (chosen : (choose (system.actors (system.after system.initial (ran turns))) current).Returns
      (between, log) .sleepSetBlocked (next, written)) :
    settings.randomized = false ∧ settings.sleepSets = true ∧
      next.AllAsleep (system.actors (system.after system.initial (ran turns))) := by
  obtain ⟨kept, stack, stays, along⟩ := past.exists_along
  have kin := stays.kin.trans along.kin
  generalize answered : Decision.sleepSetBlocked = decision at chosen
  cases along.chooses (numbered _) chosen with
  | limited => cases answered
  | run => cases answered
  | @idle _ frame _ _ stacked _ _ opened done _ judged =>
      rw [← answered, verdict] at judged
      split at judged
      swap
      · cases judged
      rename_i sleeper
      obtain ⟨entry, listed, both⟩ := List.any_eq_true.mp sleeper
      obtain ⟨enabled, asleep⟩ := Bool.and_eq_true_iff.mp both
      obtain ⟨index, there⟩ := List.mem_iff_getElem?.mp listed
      have inherits : between.inherits = true := by
        by_contra never
        exact opened.awake (Bool.eq_false_iff.mpr never) index ⟨entry, there, asleep⟩
      rw [Policy.Search.inherits, kin.sleepSets, kin.randomized, Bool.and_eq_true,
        Bool.not_eq_true'] at inherits
      refine ⟨inherits.2, inherits.1, ⟨entry.snapshot, ?_, enabled⟩, frame, ?_, opened.actors, ?_⟩
      · rw [← opened.actors]
        exact List.mem_map.mpr ⟨entry, listed, rfl⟩
      · rw [stacked]
        exact Schedule.top_ofStack
      · intro other member
        obtain ⟨place, found⟩ := List.mem_iff_getElem?.mp member
        exact opened.asleep done place other found

theorem legal (current : ActorId) (log : Log) :
    let actors := system.actors (system.after system.initial (ran turns))
    let answer := (choose actors current).outcome (between, log)
    Legal (.search settings) actors current (answer.1.1, .search answer.1.2) := by
  intro actors answer
  rcases returns_or_fails (choose actors current) (between, log) with
    ⟨decision, after, chosen⟩ | ⟨fault, fails⟩
  · have answered : answer.1 = (.ok decision, after.1) := congrArg Prod.fst chosen
    rw [answered]
    refine Excused.legal_of_fits ⟨?_, nofun⟩ (past.fits numbered chosen)
    rintro ⟨⟩
    obtain ⟨orderly, sleeps, asleep⟩ := past.allAsleep numbered chosen
    exact ⟨settings, after.1, rfl, orderly, sleeps, rfl, asleep⟩
  · have answered : answer.1.1 = .error fault := fails
    rw [answered]
    refine Excused.legal ⟨nofun, fun _ _ => .inr ⟨settings, rfl, ?_⟩⟩ nofun
    by_contra fitting
    obtain ⟨decision, after, chosen⟩ := past.exists_choice (fun orderly reduces =>
      Nat.le_of_not_lt fun overflow => fitting ⟨orderly, reduces, overflow⟩) log
    exact chosen.not_fails fails

end TransitionSystem.Past

end Search

namespace Session

variable {world : World} {number : Nat} {run : List ActorId} {settings : Settings}

/-- The order is always that of the first actors, so that no place in it is one of a missing actor. -/
theorem exists_orders
    {policy : Policy.Priority} (lawful : world.Lawful)
    (session : Session world (Policy.Priority.ofSettings settings) number run policy) :
    ∃ count, count ≤ (world.actors number run).length ∧ policy.Orders count := by
  induction session with
  | start => exact ⟨0, Nat.zero_le _, .refl _⟩
  | @run number run actor policy next log written _ chosen induction =>
      obtain ⟨count, few, orders⟩ := induction
      have onward := (orders.choose (lawful.numbered number run) few (world.current number run)
        log).2
      rw [show (Policy.Priority.choose _ _).outcome (policy, log) = _ from chosen] at onward
      exact ⟨_, lawful.kept number run actor, onward⟩
  | @restart _ _ _ _ _ ended next _ _ _ _ _ _ _ advanced =>
      have changed : ended.advance.2 = next := congrArg (fun outcome => outcome.1.2) advanced
      refine ⟨0, Nat.zero_le _, ?_⟩
      rw [← changed]
      exact .refl _

/-- What a search has done in a session is what it might have done with the system of the world. -/
theorem exists_past
    {policy : Policy.Search} (lawful : world.Lawful) (deterministic : world.Deterministic)
    (session : Session world (Policy.Search.ofSettings settings) number run policy) :
    ∃ rounds first turns, world.system.Past settings rounds first turns policy ∧
      Policy.Search.ran turns = run := by
  induction session with
  | start => exact ⟨[], _, [], TransitionSystem.past_start, rfl⟩
  | @run number _ actor _ _ _ _ _ chosen induction =>
      obtain ⟨rounds, first, turns, past, rfl⟩ := induction
      rw [← deterministic.actors_eq number] at chosen
      refine ⟨rounds, first, _, past.snoc lawful.numbered_system chosen, ?_⟩
      rw [Policy.Search.ran_append]
      rfl
  | @restart number _ _ _ _ _ _ _ _ _ _ _ chosen idle advanced induction =>
      obtain ⟨rounds, first, turns, past, rfl⟩ := induction
      rw [← deterministic.actors_eq number] at chosen
      exact ⟨_, _, [], past.restart (.idle (lawful.numbered_system _) chosen idle) advanced, rfl⟩

end Session

structure Policy.Hosts {τ : Type} [Scheduler τ] (whole : τ → Policy) : Prop where
  choose : ∀ (part : τ) (actors : List Snapshot) (current : ActorId) (log : Log),
    (Scheduler.choose actors current : Attempt Policy Decision).outcome (whole part, log) =
      (within part whole (Scheduler.choose actors current)).outcome (whole part, log)
  advance : ∀ (part : τ) (log : Log),
    (Scheduler.advance : Attempt Policy Bool).outcome (whole part, log) =
      (within part whole Scheduler.advance).outcome (whole part, log)

namespace Policy

theorem hosts_uniform : Hosts uniform := ⟨fun _ _ _ _ => rfl, fun _ _ => rfl⟩

theorem hosts_priority : Hosts priority := ⟨fun _ _ _ _ => rfl, fun _ _ => rfl⟩

theorem hosts_search : Hosts search := ⟨fun _ _ _ _ => rfl, fun _ _ => rfl⟩

theorem hosts_replay : Hosts replay := ⟨fun _ _ _ _ => rfl, fun _ _ => rfl⟩

namespace Hosts

variable {τ : Type} [Scheduler τ] {whole : τ → Policy} (hosts : Hosts whole) {part first : τ}
  {world : World} {number : Nat} {run : List ActorId} {policy : Policy}

include hosts

theorem answer_eq (part : τ) (actors : List Snapshot) (current : ActorId) (log : Log) :
    let inner := (Scheduler.choose actors current).outcome (part, log)
    ((Scheduler.choose actors current : Attempt Policy Decision).outcome (whole part, log)).1 =
      (inner.1.1, whole inner.1.2) := by
  rw [hosts.choose, outcome_within]

theorem session (session : Session world (whole first) number run policy) :
    ∃ part, whole part = policy ∧ Session world first number run part := by
  induction session with
  | start => exact ⟨first, rfl, .start⟩
  | run _ chosen induction =>
      obtain ⟨part, rfl, inner⟩ := induction
      obtain ⟨next, rfl, chosen⟩ :=
        exists_of_returns_within ((hosts.choose part _ _ _).symm.trans chosen)
      exact ⟨next, rfl, inner.run chosen⟩
  | restart _ chosen idle advanced induction =>
      obtain ⟨part, rfl, inner⟩ := induction
      obtain ⟨ended, rfl, chosen⟩ :=
        exists_of_returns_within ((hosts.choose part _ _ _).symm.trans chosen)
      obtain ⟨next, rfl, advanced⟩ :=
        exists_of_returns_within ((hosts.advance ended _).symm.trans advanced)
      exact ⟨next, rfl, inner.restart chosen idle advanced⟩

end Hosts

end Policy

/-- In any number of executions of any world every decision is legal, that of a search if the world
is deterministic. -/
theorem legal_of_session
    {world : World} (lawful : world.Lawful) (setup : Setup)
    (deterministic : ∀ settings, setup = .search settings → world.Deterministic)
    {number : Nat} {run : List ActorId} {policy : Policy}
    (session : Session world setup.policy number run policy) (log : Log) :
    Legal setup (world.actors number run) (world.current number run)
      ((Scheduler.choose (world.actors number run) (world.current number run)).outcome
        (policy, log)).1 := by
  cases setup with
  | uniform settings =>
      obtain ⟨part, rfl, -⟩ := Policy.hosts_uniform.session session
      rw [Policy.hosts_uniform.answer_eq]
      exact legal_uniform _ part _
  | priority settings =>
      obtain ⟨part, rfl, inner⟩ := Policy.hosts_priority.session session
      obtain ⟨count, few, orders⟩ := inner.exists_orders lawful
      rw [Policy.hosts_priority.answer_eq]
      exact legal_priority orders (lawful.numbered number run) few _ log _
  | search settings =>
      obtain ⟨part, rfl, inner⟩ := Policy.hosts_search.session session
      have same := deterministic settings rfl
      obtain ⟨rounds, first, turns, past, rfl⟩ := inner.exists_past lawful same
      rw [Policy.hosts_search.answer_eq, ← same.actors_eq number]
      exact past.legal lawful.numbered_system _ log
  | replay trace =>
      obtain ⟨part, rfl, -⟩ := Policy.hosts_replay.session session
      rw [Policy.hosts_replay.answer_eq]
      exact legal_replay trace (lawful.numbered number run) part log _

open TransitionSystem in
/-- The search comes to a frame where the only one who is enabled is asleep. -/
theorem legal_of_session_posts :
    posts.world.Lawful ∧ posts.world.Deterministic ∧ ∃ policy : Policy,
      Session posts.world (Setup.search { reduction := false }).policy 1 [⟨0⟩, ⟨2⟩] policy ∧
      let answer := ((Scheduler.choose (posts.world.actors 1 [⟨0⟩, ⟨2⟩]) ⟨0⟩).outcome
        (policy, .empty .error)).1
      answer.1 = .ok .sleepSetBlocked ∧
        Legal (.search { reduction := false }) (posts.world.actors 1 [⟨0⟩, ⟨2⟩]) ⟨0⟩ answer := by
  have lawful : posts.world.Lawful := ⟨fun _ _ => lawful_posts.numbered _, fun _ _ _ => Nat.le_refl 3⟩
  have deterministic : posts.world.Deterministic := fun _ _ => rfl
  obtain ⟨first, second, third, ended, again, fourth, fifth, one, two, three, ends, advances, four,
      five, gives⟩ :
      ∃ first second third ended again fourth fifth : Policy × Log,
        (Scheduler.choose (posts.world.actors 0 []) ⟨0⟩).Returns
          ((Setup.search { reduction := false }).policy, .empty .error) (.run ⟨0⟩) first ∧
        (Scheduler.choose (posts.world.actors 0 [⟨0⟩]) ⟨0⟩).Returns first (.run ⟨1⟩) second ∧
        (Scheduler.choose (posts.world.actors 0 [⟨0⟩, ⟨1⟩]) ⟨0⟩).Returns second (.run ⟨2⟩) third ∧
        (Scheduler.choose (posts.world.actors 0 [⟨0⟩, ⟨1⟩, ⟨2⟩]) ⟨0⟩).Returns third .deadlock ended ∧
        Scheduler.advance.Returns ended true again ∧
        (Scheduler.choose (posts.world.actors 1 []) ⟨0⟩).Returns again (.run ⟨0⟩) fourth ∧
        (Scheduler.choose (posts.world.actors 1 [⟨0⟩]) ⟨0⟩).Returns fourth (.run ⟨2⟩) fifth ∧
        ((Scheduler.choose (posts.world.actors 1 [⟨0⟩, ⟨2⟩]) ⟨0⟩).outcome
          (fifth.1, .empty .error)).1.1 = .ok .sleepSetBlocked :=
    ⟨_, _, _, _, _, _, _, returns_of_ok (by decide +kernel), returns_of_ok (by decide +kernel),
      returns_of_ok (by decide +kernel), returns_of_ok (by decide +kernel),
      returns_of_ok (by decide +kernel), returns_of_ok (by decide +kernel),
      returns_of_ok (by decide +kernel), by decide +kernel⟩
  have session : Session posts.world (Setup.search { reduction := false }).policy 1 [⟨0⟩, ⟨2⟩]
      fifth.1 :=
    ((((Session.start.run one).run two).run three).restart ends rfl advances).run four |>.run five
  exact ⟨lawful, deterministic, fifth.1, session, gives,
    legal_of_session lawful (.search { reduction := false }) (fun _ _ => deterministic) session _⟩

end Interleave
