import Interleave.Proofs.Run.Arrivals

namespace Interleave

open Machine

namespace Run

open Arrival

variable {π σ μ : Type} {program : Program σ μ} {handles : Handles σ μ} {run next first : Run π σ μ}
  {arrivals more : List (Arrival σ μ)} {arrival : Arrival σ μ} {machine after : Machine σ μ}
  {begin step now : Nat} {policy : π} {turn : Turn} {id other : ActorId}
  {operation : Operation} {enabled : Bool}

/-- All scheduling points of a run, from the first one on. -/
inductive Charted [Scheduler π] (program : Program σ μ) (first : Run π σ μ) :
    Run π σ μ → List (Arrival σ μ) → Prop
  | here : Charted program first first []
  | arrive {run : Run π σ μ} {arrivals : List (Arrival σ μ)} {id : ActorId} {arrived : Machine σ μ}
      (charted : Charted program first run arrivals) (log : Log)
      (arrives : Arrives program run.machine id arrived)
      (consults : ((run.step program).run log).1.machine = arrived.consult id) :
      Charted program first ((run.step program).run log).1 (arrivals ++ [⟨id, arrived⟩])
  | pass {run : Run π σ μ} {arrivals : List (Arrival σ μ)}
      (charted : Charted program first run arrivals) (log : Log)
      (elsewhere : ∀ id, ((run.step program).run log).1.machine.control ≠ .choosing id) :
      Charted program first ((run.step program).run log).1 arrivals

structure Logged (run : Run π σ μ) (arrivals : List (Arrival σ μ)) : Prop where
  shown : ∀ (index : Nat) turn, run.turns[index]? = some turn →
    ∃ arrival, arrivals[index]? = some arrival ∧ turn.current = arrival.current ∧
      turn.actors = arrival.shown
  coherent : ∀ arrival ∈ arrivals,
    arrival.machine.Coherent arrival.current ∧ arrival.machine.Placed arrival.current
  mirrors : ∀ step arrival, At arrivals step arrival →
    ∀ id, run.Mirrors arrivals arrival.machine.releaseBlocked step id
  few : arrivals.length ≤ run.turns.size + 1

inductive Poised (run : Run π σ μ) (arrivals : List (Arrival σ μ)) : Prop
  | choosing {id : ActorId} {arrived : Machine σ μ} {earlier : List (Arrival σ μ)}
      (consults : run.machine = arrived.consult id) (listed : arrivals = earlier ++ [⟨id, arrived⟩])
      (number : earlier.length = run.turns.size) : Poised run arrivals
  | moving {id : ActorId} (holder : run.machine.control.actor? = some id)
      (undecided : ∀ other, run.machine.control ≠ .choosing other)
      (number : arrivals.length = run.turns.size)
      (free : ∀ operation begin, ¬ run.Pends arrivals id operation begin (run.turns.size + 1))
      (mirrors : ∀ other, other ≠ id →
        run.Mirrors arrivals run.machine (run.turns.size + 1) other) : Poised run arrivals
  | panicking {id : ActorId} {text : String}
      (control : run.machine.control = .closing id (.error (.panicked text))) : Poised run arrivals

section Step

variable {log : Log}

theorem Logged.congr (logged : run.Logged arrivals) (turns : next.turns = run.turns) :
    next.Logged arrivals where
  shown := by
    rw [turns]
    exact logged.shown
  coherent := logged.coherent
  mirrors step arrival found id := (logged.mirrors step arrival found id).pass turns rfl
  few := by
    rw [turns]
    exact logged.few

theorem Logged.decide
    {arrived : Machine σ μ} {earlier : List (Arrival σ μ)} (logged : run.Logged arrivals)
    (consults : run.machine = arrived.consult id) (listed : arrivals = earlier ++ [⟨id, arrived⟩])
    (number : earlier.length = run.turns.size) (decision : Decision)
    (turns : next.turns = run.turns.push ⟨id, run.machine.snapshots, decision⟩) :
    next.Logged arrivals where
  shown := by
    intro index turn asked
    rw [turns, Array.getElem?_push] at asked
    split at asked
    · rename_i last
      cases asked
      refine ⟨⟨id, arrived⟩, ?_, rfl, by rw [consults]; rfl⟩
      rw [last, ← number, listed, List.getElem?_append_right (Nat.le_refl _), Nat.sub_self]
      rfl
    · exact logged.shown index turn asked
  coherent := logged.coherent
  mirrors step arrival found id := by
    have inside := found.inside.2
    have few := logged.few
    refine (logged.mirrors step arrival found id).congr (fun _ _ _ => Iff.rfl) ?_ rfl
    intro known snapshot before
    rw [selects_push_iff turns]
    exact or_iff_left fun last => by omega
  few := by
    rw [turns, Array.size_push]
    exact Nat.le_succ_of_le logged.few

theorem Logged.arrive
    {arrived : Machine σ μ} (logged : run.Logged arrivals)
    (consistent : run.machine.Consistent) (arrives : Arrives program run.machine id arrived)
    (turns : next.turns = run.turns) (number : arrivals.length = run.turns.size)
    (free : ∀ operation begin, ¬ run.Pends arrivals id operation begin (run.turns.size + 1))
    (mirrors : ∀ other, other ≠ id → run.Mirrors arrivals run.machine (run.turns.size + 1) other) :
    next.Logged (arrivals ++ [⟨id, arrived⟩]) where
  shown := by
    intro index turn asked
    rw [turns] at asked
    obtain ⟨arrival, found, rest⟩ := logged.shown index turn asked
    refine ⟨arrival, ?_, rest⟩
    rw [List.getElem?_append_left (List.getElem?_eq_some_iff.mp found).1, found]
  coherent := by
    intro arrival member
    rcases List.mem_append.mp member with member | member
    · exact logged.coherent arrival member
    · cases List.mem_singleton.mp member
      exact arrives.coherent consistent
  mirrors := by
    intro step arrival found other
    obtain ⟨coherent, placed⟩ := arrives.coherent consistent
    rcases at_append_iff.mp found with found | ⟨rfl, rfl⟩
    · have inside := found.inside.2
      refine (logged.mirrors step arrival found other).congr ?_
        (fun _ _ _ => ⟨(·.congr turns.symm), (·.congr turns)⟩) rfl
      intro known visited early
      rw [at_append_iff]
      exact or_iff_left fun last => by omega
    · rw [number]
      by_cases same : other = id
      · subst same
        exact mirrors_arrive_self turns number free coherent placed
          fun operation enabled => arrives.disabled
      · apply (mirrors other same).unblock (pends_arrive_iff turns same)
          fun operation begin => released_arrive_iff turns number
        rw [← arrives.leaves consistent other same]
        exact rest?_releaseBlocked coherent other
  few := by
    rw [turns, List.length_append, number]
    exact Nat.le_refl _

theorem Poised.decide
    {arrived : Machine σ μ} {earlier : List (Arrival σ μ)} {chosen : ActorId} {target : Actor σ μ}
    (logged : run.Logged arrivals)
    (consults : run.machine = arrived.consult id) (listed : arrivals = earlier ++ [⟨id, arrived⟩])
    (number : earlier.length = run.turns.size) (coherent : run.machine.Coherent id)
    (there : run.machine.actors.get? chosen = some target)
    (decided : next.machine = (run.machine.advance chosen target.record).switch id chosen)
    (turns : next.turns = run.turns.push ⟨id, run.machine.snapshots, .run chosen⟩) :
    next.Poised arrivals := by
  have length : arrivals.length = run.turns.size + 1 := by
    rw [listed, List.length_append, number]
    rfl
  have size : next.turns.size = run.turns.size + 1 := by rw [turns, Array.size_push]
  obtain ⟨actors, same⟩ := exists_run_eq run.machine id chosen target.record
  have control : next.machine.control = .returning chosen := by rw [decided, same]
  have holder : next.machine.control.actor? = some chosen := by
    rw [control]
    rfl
  refine .moving holder (by rw [control]; nofun) (by omega) ?_ ?_
  · intro operation begin pends
    obtain ⟨arrival, enabled, found, -⟩ := pends.announced
    have inside := found.inside.2
    have selects : next.Selects (run.turns.size + 1) (target.record.snapshot chosen) :=
      (selects_push_iff turns).mpr (.inr ⟨rfl, rfl, mem_snapshots_iff.mpr ⟨target, there, rfl⟩⟩)
    exact pends.unchosen _ _ selects (by omega) (by omega) rfl
  · intro other differs
    have found : At arrivals (run.turns.size + 1) ⟨id, arrived⟩ := by
      rw [listed]
      exact at_append_iff.mpr (.inr ⟨by rw [number], rfl⟩)
    have mirrors : run.Mirrors arrivals run.machine (run.turns.size + 1) other := by
      refine (logged.mirrors _ _ found other).pass rfl ?_
      rw [consults]
      rfl
    rw [size]
    apply mirrors.unblock (pends_decide_iff logged.few turns differs)
      fun operation begin => released_decide_iff logged.few turns differs there
    rw [decided]
    exact rest?_run coherent differs id target.record

theorem Poised.free
    {arrived : Machine σ μ} (poised : run.Poised arrivals)
    (arrives : Arrives program run.machine id arrived) :
    arrivals.length = run.turns.size ∧
      (∀ operation begin, ¬ run.Pends arrivals id operation begin (run.turns.size + 1)) ∧
      ∀ other, other ≠ id → run.Mirrors arrivals run.machine (run.turns.size + 1) other := by
  obtain ⟨here, undecided, calm⟩ := arrives.control
  cases poised with
  | choosing consults => exact absurd (by rw [consults]; rfl) (undecided _)
  | moving holder undecided number free mirrors =>
      cases here.symm.trans holder
      exact ⟨number, free, mirrors⟩
  | panicking control => exact absurd control (calm _ _)

theorem Poised.tick
    (poised : run.Poised arrivals) (consistent : run.machine.Consistent)
    (honest : run.machine.Honest program) (going : run.machine.ended = false)
    (still : (run.machine.next program).ended = false)
    (undecided : ∀ id, run.machine.control ≠ .choosing id)
    (elsewhere : ∀ id, (run.machine.next program).control ≠ .choosing id) :
    Poised { run with machine := run.machine.next program } arrivals := by
  have moves := moves_next consistent going honest undecided
  obtain ⟨id, here, ⟨arrived, -, consults⟩ | ⟨-, stays, leaves⟩⟩ :=
    moves.exists_leaves consistent going still
  · exact absurd (by rw [consults]; rfl) (elsewhere id)
  cases poised with
  | choosing consults => exact absurd (by rw [consults]; rfl) (undecided _)
  | moving holder _ number free mirrors =>
      cases here.symm.trans holder
      refine .moving stays elsewhere number ?_ fun other differs =>
        (mirrors other differs).pass rfl (leaves other differs)
      intro operation begin pends
      exact free operation begin (pends.congr (fun _ _ _ found => found)
        fun _ _ _ selects => selects.congr rfl)
  | panicking control => exact absurd control (moves.calm still)

theorem not_pends_nil : ¬ run.Pends [] id operation begin now := by
  intro pends
  obtain ⟨arrival, enabled, found, -⟩ := pends.announced
  have inside := found.inside
  rw [List.length_nil] at inside
  omega

theorem logged_start (program : Program σ μ) (number : Nat) (policy : π) :
    (start program number policy).Logged [] where
  shown _ _ asked := nomatch asked
  coherent := nofun
  mirrors _ _ found := nomatch found
  few := Nat.zero_le _

theorem poised_start (program : Program σ μ) (number : Nat) (policy : π) :
    (start program number policy).Poised [] := by
  refine .moving rfl nofun rfl (fun _ _ => not_pends_nil) fun other differs => ⟨?_, ?_⟩
  · intro operation enabled resting
    obtain ⟨actor, there, -⟩ := exists_of_rest? resting
    exact absurd (eq_of_get?_start there).1 differs
  · exact fun operation begin _ pends => absurd pends not_pends_nil

variable [Scheduler π] {arrived : Machine σ μ}

theorem Steps.turns_arrive
    (steps : Steps program run log next) (arrives : Arrives program run.machine id arrived) :
    next.turns = run.turns := by
  cases steps with
  | tick | fail => rfl
  | decide choosing => exact absurd choosing (arrives.control.2.1 _)

theorem Steps.kept
    (steps : Steps program run log next)
    (elsewhere : ∀ id, next.machine.control ≠ .choosing id)
    (sound : run.machine.Sound handles) (discreet : program.Discreet handles)
    (legal : ∀ turn ∈ next.turns, turn.Legal) (logged : run.Logged arrivals)
    (poised : run.machine.ended = false → run.Poised arrivals) :
    next.Logged arrivals ∧ (next.machine.ended = false → next.Poised arrivals) := by
  have onward := steps.onward sound.sane
  cases steps with
  | tick undecided =>
      refine ⟨logged.congr rfl, fun still => ?_⟩
      have going := onward.going still
      obtain ⟨consistent, guarded⟩ := sound.going going
      exact (poised going).tick consistent (guarded.honest discreet) going still undecided elsewhere
  | @decide id decision policy written choosing chosen =>
      have going : run.machine.ended = false :=
        Bool.of_not_eq_true fun ended => sound.sane.decided ended id choosing
      obtain ⟨consistent, -⟩ := sound.going going
      obtain ⟨coherent, -⟩ := consistent.of_choosing choosing
      cases poised going with
      | @choosing known arrived earlier consults listed number =>
          have control : run.machine.control = .choosing known := by rw [consults]; rfl
          cases choosing.symm.trans control
          refine ⟨logged.decide consults listed number decision rfl, fun still => ?_⟩
          by_cases runs : ∃ target, decision = .run target
          · obtain ⟨target, rfl⟩ := runs
            obtain ⟨actor, there, enabled, decided⟩ :=
              decided_run coherent (legal _ Array.mem_push_self target rfl)
            exact .decide logged consults listed number coherent there decided rfl
          · have ended : (run.machine.decided id decision).ended = true :=
              ended_decided fun target same => runs ⟨target, same⟩
            rw [ended] at still
            cases still
      | moving _ undecided => exact absurd choosing (undecided id)
      | panicking control => cases choosing.symm.trans control
  | @fail id fault policy choosing =>
      refine ⟨logged.congr rfl, fun still => ?_⟩
      rcases crashed_or run.machine id fault with same | ended
      · have control : (run.machine.crashed id fault).control =
            .closing id (.error (.panicked fault.text)) := by
          rw [same]
          rfl
        exact .panicking control
      · rw [ended] at still
        cases still

theorem Charted.reached (charted : Charted program first run arrivals) :
    Reached program first run := by
  induction charted with
  | here => exact .here
  | arrive charted log arrives consults induction | pass charted log elsewhere induction =>
      exact .step induction log

theorem Charted.kept
    {number : Nat} (discreet : program.Discreet handles)
    (charted : Charted program (start program number policy) run arrivals)
    (legal : ∀ turn ∈ run.turns, turn.Legal) :
    run.Logged arrivals ∧ (run.machine.ended = false → run.Poised arrivals) := by
  induction charted with
  | here =>
      exact ⟨logged_start program number policy, fun _ => poised_start program number policy⟩
  | @arrive run arrivals id arrived charted log arrives consults induction =>
      have sane := charted.reached.sane (sane_start (program.root number))
      have steps : Steps program run log _ := steps_step sane log
      generalize ((run.step program).run log).1 = next at consults legal steps ⊢
      have before : ∀ turn ∈ run.turns, turn.Legal :=
        fun turn member => legal turn (steps.mem_turns member)
      have sound := charted.reached.sound (sound_start discreet number policy) discreet before
      have onward := steps.onward sane
      have still : next.machine.ended = false := Bool.of_not_eq_true fun ended =>
        (onward.sane sane).decided ended id (by rw [consults]; rfl)
      have going := onward.going still
      obtain ⟨logged, poised⟩ := induction before
      obtain ⟨number, free, mirrors⟩ := (poised going).free arrives
      have turns := steps.turns_arrive arrives
      exact ⟨logged.arrive (sound.going going).1 arrives turns number free mirrors,
        fun _ => .choosing consults rfl (by rw [turns, number])⟩
  | @pass run arrivals charted log elsewhere induction =>
      have sane := charted.reached.sane (sane_start (program.root number))
      have steps : Steps program run log _ := steps_step sane log
      generalize ((run.step program).run log).1 = next at elsewhere legal steps ⊢
      have before : ∀ turn ∈ run.turns, turn.Legal :=
        fun turn member => legal turn (steps.mem_turns member)
      have sound := charted.reached.sound (sound_start discreet number policy) discreet before
      obtain ⟨logged, poised⟩ := induction before
      exact steps.kept elsewhere sound discreet legal logged poised

theorem Steps.exists_arrives
    (steps : Steps program run log next) (choosing : next.machine.control = .choosing id)
    (sound : run.machine.Sound handles) (discreet : program.Discreet handles)
    (legal : ∀ turn ∈ next.turns, turn.Legal) :
    ∃ arrived, Arrives program run.machine id arrived ∧ next.machine = arrived.consult id := by
  have onward := steps.onward sound.sane
  have still : next.machine.ended = false :=
    Bool.of_not_eq_true fun ended => (onward.sane sound.sane).decided ended id choosing
  have going := onward.going still
  obtain ⟨consistent, guarded⟩ := sound.going going
  cases steps with
  | tick undecided =>
      have moves := moves_next consistent going (guarded.honest discreet) undecided
      obtain ⟨known, -, ⟨arrived, arrives, consults⟩ | ⟨elsewhere, -⟩⟩ :=
        moves.exists_leaves consistent going still
      · have same : (arrived.consult known).control = .choosing id := by rw [← consults, choosing]
        cases same
        exact ⟨arrived, arrives, consults⟩
      · exact absurd choosing (elsewhere id)
  | @decide known decision policy written asked chosen =>
      obtain ⟨coherent, -⟩ := consistent.of_choosing asked
      by_cases runs : ∃ target, decision = .run target
      · obtain ⟨target, rfl⟩ := runs
        obtain ⟨actor, -, -, decided⟩ :=
          decided_run coherent (legal _ Array.mem_push_self target rfl)
        obtain ⟨actors, same⟩ := exists_run_eq run.machine known target actor.record
        have control : (run.machine.decided known (.run target)).control = .returning target := by
          rw [decided, same]
        cases choosing.symm.trans control
      · rw [ended_decided fun target same => runs ⟨target, same⟩] at still
        cases still
  | @fail known fault policy asked =>
      rcases crashed_or run.machine known fault with same | ended
      · have control : (run.machine.crashed known fault).control =
            .closing known (.error (.panicked fault.text)) := by rw [same]; rfl
        cases choosing.symm.trans control
      · rw [ended] at still
        cases still

/-- The scheduling points of a run can be listed. -/
theorem exists_charted
    {number : Nat} (discreet : program.Discreet handles)
    (reached : Reached program (start program number policy) run)
    (legal : ∀ turn ∈ run.turns, turn.Legal) :
    ∃ arrivals, Charted program (start program number policy) run arrivals := by
  induction reached with
  | here => exact ⟨[], .here⟩
  | @step run reached log induction =>
      have steps : Steps program run log _ :=
        steps_step (reached.sane (sane_start (program.root number))) log
      have before : ∀ turn ∈ run.turns, turn.Legal :=
        fun turn member => legal turn (steps.mem_turns member)
      have sound := reached.sound (sound_start discreet number policy) discreet before
      obtain ⟨arrivals, charted⟩ := induction before
      by_cases choosing : ∃ id, ((run.step program).run log).1.machine.control = .choosing id
      · obtain ⟨id, choosing⟩ := choosing
        obtain ⟨arrived, arrives, consults⟩ := steps.exists_arrives choosing sound discreet legal
        exact ⟨_, .arrive charted log arrives consults⟩
      · exact ⟨arrivals, .pass charted log fun id same => choosing ⟨id, same⟩⟩

end Step

/-- Who has given up control is enabled exactly from the first scheduling point on at which it may
go on, until it is chosen. -/
structure Releases (run : Run π σ μ) (arrivals : List (Arrival σ μ)) : Prop where
  asked : ∀ (index : Nat) turn, run.turns[index]? = some turn →
    ∃ arrival, arrivals[index]? = some arrival ∧ turn.current = arrival.current ∧
      turn.actors = arrival.shown
  asking : ∀ id, run.machine.control = .choosing id →
    ∃ arrival, arrivals[run.turns.size]? = some arrival ∧ arrival.current = id ∧
      run.machine.snapshots = arrival.shown
  announced : ∀ step arrival id operation enabled, At arrivals step arrival →
    arrival.Shows id operation enabled → operation.Rests id →
      ∃ begin, run.Pends arrivals id operation begin step
  yields : ∀ begin step arrival id, run.Pends arrivals id (.yield id) begin step →
    At arrivals step arrival →
      ∃ enabled, arrival.Shows id (.yield id) enabled ∧
        (enabled = true ↔ ∃ known, begin ≤ known ∧ known ≤ step ∧
          (run.Progresses id begin known ∨
            ∃ arrival, At arrivals known arrival ∧ arrival.machine.Stalled))
  awaits : ∀ begin step arrival id, run.Pends arrivals id (.awaitDeadlock id) begin step →
    At arrivals step arrival →
      ∃ enabled, arrival.Shows id (.awaitDeadlock id) enabled ∧
        (enabled = true ↔ ∃ known arrival, begin ≤ known ∧ known ≤ step ∧
          At arrivals known arrival ∧ arrival.machine.Stalled ∧ arrival.machine.Unyielded)
  together : ∀ begin step arrival id, run.Pends arrivals id (.awaitDeadlock id) begin step →
    At arrivals step arrival → arrival.Shows id (.awaitDeadlock id) true →
    (∀ known earlier, begin ≤ known → known < step → At arrivals known earlier →
      ¬ earlier.Shows id (.awaitDeadlock id) true) →
      ∀ other operation, arrival.Shows other operation true → operation = .awaitDeadlock other
  freed : ∀ step arrival, At arrivals step arrival → arrival.machine.Stalled →
    arrival.machine.Unyielded → ∀ id enabled, arrival.Shows id (.awaitDeadlock id) enabled →
      enabled = true
  stays : ∀ begin step later arrival last id operation, operation.Rests id →
    run.Pends arrivals id operation begin later → begin ≤ step → step ≤ later →
    At arrivals step arrival → At arrivals later last → arrival.Shows id operation true →
      last.Shows id operation true

section Releases

theorem Pends.until
    (pends : run.Pends arrivals id operation begin now) (late : begin ≤ step) (early : step ≤ now) :
    run.Pends arrivals id operation begin step where
  announced := pends.announced
  le := late
  unchosen known snapshot selects after before :=
    pends.unchosen known snapshot selects after (Nat.lt_of_lt_of_le before early)

theorem Released.mono
    (released : run.Released arrivals id operation begin step) (early : step ≤ now) :
    run.Released arrivals id operation begin now := by
  obtain ⟨known, later, earlier, rest⟩ := released
  exact ⟨known, later, Nat.le_trans earlier early, rest⟩

theorem released_yield_iff :
    run.Released arrivals id (.yield id) begin now ↔
      ∃ known, begin ≤ known ∧ known ≤ now ∧ (run.Progresses id begin known ∨
        ∃ arrival, At arrivals known arrival ∧ arrival.machine.Stalled) := by
  simp [Released, Frees, Operation.yield]

theorem released_awaitDeadlock_iff :
    run.Released arrivals id (.awaitDeadlock id) begin now ↔
      ∃ known arrival, begin ≤ known ∧ known ≤ now ∧ At arrivals known arrival ∧
        arrival.machine.Stalled ∧ arrival.machine.Unyielded := by
  simp [Released, Frees, Operation.awaitDeadlock]

/-- What a scheduling point shows of an actor that has given up control. -/
theorem Logged.exists_shows
    (logged : run.Logged arrivals) (rests : operation.Rests id)
    (pends : run.Pends arrivals id operation begin step) (found : At arrivals step arrival) :
    ∃ enabled, arrival.Shows id operation enabled ∧
      (enabled = true ↔ run.Released arrivals id operation begin step) := by
  obtain ⟨enabled, resting, iff⟩ :=
    (logged.mirrors step arrival found id).released operation begin rests pends
  exact ⟨enabled, shows_of_rest? resting, iff⟩

theorem Logged.shows_true_iff
    (logged : run.Logged arrivals) (rests : operation.Rests id)
    (pends : run.Pends arrivals id operation begin step) (found : At arrivals step arrival) :
    arrival.Shows id operation true ↔ run.Released arrivals id operation begin step := by
  obtain ⟨enabled, shows, iff⟩ := logged.exists_shows rests pends found
  rw [← iff]
  constructor
  · intro able
    exact (able.unique shows).2
  · rintro rfl
    exact shows

theorem Logged.shows_freed_iff
    (logged : run.Logged arrivals) (found : At arrivals step arrival)
    (stalled : arrival.machine.Stalled) (unyielded : arrival.machine.Unyielded)
    (shows : arrival.Shows id operation enabled) :
    enabled = true ↔ operation = .awaitDeadlock id := by
  obtain ⟨actor, there, rfl, rfl⟩ := shows_iff.mp shows
  exact enabled_releaseBlocked_iff (logged.coherent arrival found.mem).1 stalled unyielded there

theorem releases_of_logged
    (logged : run.Logged arrivals) (poised : run.machine.ended = false → run.Poised arrivals)
    (sane : run.machine.Sane) : run.Releases arrivals where
  asked := logged.shown
  asking := by
    intro id choosing
    have going : run.machine.ended = false :=
      Bool.of_not_eq_true fun ended => sane.decided ended id choosing
    cases poised going with
    | @choosing known arrived earlier consults listed number =>
        have same : (arrived.consult known).control = .choosing id := by rw [← consults, choosing]
        cases same
        refine ⟨⟨id, arrived⟩, ?_, rfl, by rw [consults]; rfl⟩
        rw [listed, ← number, List.getElem?_append_right (Nat.le_refl _), Nat.sub_self]
        rfl
    | moving _ undecided => exact absurd choosing (undecided id)
    | panicking control => cases choosing.symm.trans control
  announced := by
    intro step arrival id operation enabled found shows rests
    obtain ⟨coherent, placed⟩ := logged.coherent arrival found.mem
    exact (logged.mirrors step arrival found id).announced operation enabled
      (shows.rest? rests coherent placed)
  yields := by
    intro begin step arrival id pends found
    obtain ⟨enabled, shows, iff⟩ := logged.exists_shows (.inl rfl) pends found
    exact ⟨enabled, shows, iff.trans released_yield_iff⟩
  awaits := by
    intro begin step arrival id pends found
    obtain ⟨enabled, shows, iff⟩ := logged.exists_shows (.inr rfl) pends found
    exact ⟨enabled, shows, iff.trans released_awaitDeadlock_iff⟩
  together := by
    intro begin step arrival id pends found shows never other operation able
    have released := (logged.shows_true_iff (.inr rfl) pends found).mp shows
    obtain ⟨known, earlier, late, early, visited, stalled, unyielded⟩ :=
      released_awaitDeadlock_iff.mp released
    rcases Nat.lt_or_eq_of_le early with before | rfl
    · have already := (logged.shows_true_iff (.inr rfl) (pends.until late early) visited).mpr
        (released_awaitDeadlock_iff.mpr
          ⟨known, earlier, late, Nat.le_refl _, visited, stalled, unyielded⟩)
      exact absurd already (never known earlier late before visited)
    · cases visited.unique found
      exact (logged.shows_freed_iff found stalled unyielded able).mp rfl
  freed := by
    intro step arrival found stalled unyielded id enabled shows
    exact (logged.shows_freed_iff found stalled unyielded shows).mpr rfl
  stays := by
    intro begin step later arrival last id operation rests pends late early found visited shows
    have released := (logged.shows_true_iff rests (pends.until late early) found).mp shows
    exact (logged.shows_true_iff rests pends visited).mpr (released.mono early)

/-- The scheduling points of an execution in which only enabled actors are run can be listed, and
those that give up control there go on when they should. -/
theorem releases_of_reached
    [Scheduler π] {number : Nat} (discreet : program.Discreet handles)
    (reached : Reached program (start program number policy) run)
    (legal : ∀ turn ∈ run.turns, turn.Legal) :
    (∃ arrivals, Charted program (start program number policy) run arrivals) ∧
      ∀ arrivals, Charted program (start program number policy) run arrivals →
        run.Releases arrivals := by
  refine ⟨exists_charted discreet reached legal, ?_⟩
  intro arrivals charted
  obtain ⟨logged, poised⟩ := charted.kept discreet legal
  exact releases_of_logged logged poised (reached.sane (sane_start (program.root number)))

end Releases

end Run

/-- The root creates an actor and lets it go first; that one waits until nobody else can go on. -/
inductive Courtesy
  | begun
  | created
  | yielded
  | invited
  | awaited

namespace Courtesy

def program : Program Courtesy Unit where
  root _ := .begun
  resume _
    | _, .error error => .return (.error error)
    | .begun, .ok _ => .call (.create none .invited) .created
    | .created, .ok _ => .call .yield .yielded
    | .invited, .ok _ => .call .awaitDeadlock .awaited
    | .yielded, .ok _ | .awaited, .ok _ => .return (.ok ())

def handles : Handles Courtesy Unit where
  held _ _ := False
  carried _ _ := False

theorem discreet_program : program.Discreet handles where
  root _ _ held := held
  resume := by
    intro view body reply address used
    cases reply with
    | error error => exact False.elim used
    | ok answer => cases body <;> simp_all [program, Handles.inAction, Handles.inCall, handles]

end Courtesy

namespace Run

/-- The root could go on once the other had started, and the other can now that the root has
ended. -/
theorem releases_of_reached_courtesy :
    ∃ run : Run Policy.Replay Courtesy Unit,
      run.machine.snapshots.map Snapshot.enabled = [false, true] ∧
      (∀ turn ∈ run.turns, turn.Legal) ∧
      (∃ arrivals, Charted Courtesy.program (start Courtesy.program 0
        (Policy.Replay.ofTrace ⟨[⟨0⟩, ⟨1⟩, ⟨0⟩, ⟨0⟩]⟩)) run arrivals) ∧
      ∀ arrivals, Charted Courtesy.program (start Courtesy.program 0
        (Policy.Replay.ofTrace ⟨[⟨0⟩, ⟨1⟩, ⟨0⟩, ⟨0⟩]⟩)) run arrivals → run.Releases arrivals := by
  obtain ⟨run, reached, enabled, legal⟩ :
      ∃ run, Reached Courtesy.program (start Courtesy.program 0
          (Policy.Replay.ofTrace ⟨[⟨0⟩, ⟨1⟩, ⟨0⟩, ⟨0⟩]⟩)) run ∧
        run.machine.snapshots.map Snapshot.enabled = [false, true] ∧
        ∀ turn ∈ run.turns, turn.Legal :=
    ⟨_, reached_complete Courtesy.program 13 _ (.empty .trace), by decide +kernel,
      by decide +kernel⟩
  exact ⟨run, enabled, legal, releases_of_reached Courtesy.discreet_program reached legal⟩

end Run

end Interleave
