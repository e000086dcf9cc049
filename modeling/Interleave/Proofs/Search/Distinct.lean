import Interleave.Proofs.Search.Trail

/-!
Each execution that is over branches off the current stack at an entry that sleeps, and an entry
that sleeps is not taken before a step that depends on it. So no two completed runs differ only in
the order of independent steps.
-/

namespace Interleave

namespace TransitionSystem

variable {system : TransitionSystem} {state : system.State} {run : List ActorId}
  {frame marked : Frame} {below stack : List Frame} {entry : Frame.Entry} {index : Nat}

theorem Fits.of_unmark_eq
    {others : List Frame} (fits : system.Fits below state frame)
    (same : marked.unmark = frame.unmark)
    (sameBelow : others.map Frame.unmark = below.map Frame.unmark)
    (marks : marked.MarksEnabled) : system.Fits others state marked where
  actors := by rw [Frame.actors_eq_of_unmark_eq same, fits.actors]
  marks := marks
  sleepers := by
    intro index entry found asleep
    have there := congrArg (fun frame : Frame => frame.get? index) same
    simp only [Frame.get?_unmark, found, Option.map_some] at there
    obtain ⟨before, here, equal⟩ := Option.map_eq_some_iff.mp there.symm
    have asleepBefore : before.asleep = true := by
      rw [← Frame.Entry.asleep_unmark, equal, Frame.Entry.asleep_unmark, asleep]
    have snapshots : before.snapshot = entry.snapshot := by
      rw [← Frame.Entry.snapshot_unmark, equal, Frame.Entry.snapshot_unmark]
    rw [Frame.Entry.enabled, ← snapshots]
    exact fits.sleepers index before here asleepBefore
  inherits := by
    intro index sleeps
    rw [Schedule.opening_eq_of_unmark_eq sameBelow] at sleeps
    exact (Frame.sleeps_iff_of_unmark_eq same).mpr (fits.inherits index sleeps)

theorem Trail.of_unmark_eq
    {others : List Frame} (trail : system.Trail stack state run)
    (same : others.map Frame.unmark = stack.map Frame.unmark)
    (marks : ∀ frame ∈ others, frame.MarksEnabled) : system.Trail others state run := by
  induction trail generalizing others with
  | nil =>
      rw [List.map_nil, List.map_eq_nil_iff] at same
      subst same
      exact .nil
  | @cons frame below state run entry index trail fits single enabled awake induction =>
      rw [List.map_cons, List.map_eq_cons_iff] at same
      obtain ⟨marked, rest, rfl, sameHead, sameRest⟩ := same
      obtain ⟨chosen, alone, equal⟩ := Frame.single_of_unmark_eq sameHead single
      have snapshots : chosen.snapshot = entry.snapshot := by
        rw [← Frame.Entry.snapshot_unmark, equal, Frame.Entry.snapshot_unmark]
      have id : chosen.id = entry.id := by
        rw [Frame.Entry.id, snapshots]
        rfl
      rw [← id]
      refine .cons (induction sameRest fun frame member =>
          marks frame (List.mem_cons_of_mem _ member))
        (fits.of_unmark_eq sameHead sameRest (marks marked List.mem_cons_self)) alone ?_ ?_
      · rw [Frame.Entry.enabled, snapshots]
        exact enabled
      · rw [← Frame.Entry.asleep_unmark, equal, Frame.Entry.asleep_unmark, awake]

theorem Trail.marksEnabled (trail : system.Trail stack state run) :
    ∀ frame ∈ stack, frame.MarksEnabled := by
  induction trail with
  | nil =>
      intro frame member
      cases member
  | cons _ fits _ _ _ induction =>
      intro other member
      rcases List.mem_cons.mp member with rfl | member
      · exact fits.marks
      · exact induction other member

theorem Trail.unique
    {other : system.State} {others : List ActorId} (trail : system.Trail stack state run)
    (also : system.Trail stack other others) : other = state ∧ others = run := by
  induction trail generalizing other others with
  | nil =>
      cases also
      exact ⟨rfl, rfl⟩
  | cons trail fits single enabled awake induction =>
      cases also with
      | cons alsoTrail _ alsoSingle _ _ =>
          obtain ⟨rfl, rfl⟩ := induction alsoTrail
          cases single.symm.trans alsoSingle
          exact ⟨rfl, rfl⟩

theorem Trail.of_append
    {above : List Frame} (trail : system.Trail (above ++ below) state run) :
    ∃ state run, system.Trail below state run := by
  induction above generalizing state run with
  | nil => exact ⟨_, _, trail⟩
  | cons frame above induction =>
      cases trail with
      | cons trail _ _ _ _ => exact induction trail

/-- An execution that went the way of the stack up to a frame, and there took an entry that sleeps
now. -/
inductive Branches (system : TransitionSystem) : List Frame → List ActorId → Prop
  | here {frame : Frame} {below : List Frame} {state : system.State} {run rest : List ActorId}
      {index : Nat} (trail : system.Trail below state run) (asleep : frame.Sleeps index) :
      Branches system (frame :: below) (run ++ ⟨index⟩ :: rest)
  | deeper {frame : Frame} {below : List Frame} {run : List ActorId}
      (branches : Branches system below run) : Branches system (frame :: below) run

theorem Branches.of_unmark_eq
    {others : List Frame} (branches : system.Branches stack run)
    (same : others.map Frame.unmark = stack.map Frame.unmark)
    (marks : ∀ frame ∈ others, frame.MarksEnabled) : system.Branches others run := by
  induction branches generalizing others with
  | here trail asleep =>
      rw [List.map_cons, List.map_eq_cons_iff] at same
      obtain ⟨marked, rest, rfl, sameHead, sameRest⟩ := same
      exact .here (trail.of_unmark_eq sameRest fun frame member =>
        marks frame (List.mem_cons_of_mem _ member))
        ((Frame.sleeps_iff_of_unmark_eq sameHead).mpr asleep)
  | deeper _ induction =>
      rw [List.map_cons, List.map_eq_cons_iff] at same
      obtain ⟨marked, rest, rfl, -, sameRest⟩ := same
      exact .deeper (induction sameRest fun frame member =>
        marks frame (List.mem_cons_of_mem _ member))

section Sleepers

variable (lawful : system.Lawful) (fits : system.Fits below state frame)
  (single : frame.selections = [(entry, index)]) (enabled : entry.enabled = true)
  (awake : entry.asleep = false) {position : Nat} (asleep : frame.Sleeps position)

include lawful fits single enabled awake asleep

/-- The next step is that of another actor. If it is independent of an actor that sleeps, then that
actor keeps its operation and goes on sleeping. -/
theorem Fits.sleeper :
    entry.id ≠ ⟨position⟩ ∧
      (Move.Independent ⟨entry.id, system.operation? state entry.id⟩
          ⟨⟨position⟩, system.operation? state ⟨position⟩⟩ →
        system.operation? (system.step state entry.id) ⟨position⟩ =
            system.operation? state ⟨position⟩ ∧
          (Schedule.opening (frame :: below)
            (system.actors (system.step state entry.id))).Sleeps position) := by
  obtain ⟨sleeper, there, sleeping⟩ := asleep
  have found := Frame.get?_of_single single
  have chosen := id_of_get? lawful.numbered fits.actors found
  have differs : position ≠ index := by
    rintro rfl
    cases found.symm.trans there
    rw [awake] at sleeping
    cases sleeping
  have other : entry.id ≠ ⟨position⟩ := by
    rw [chosen]
    intro same
    exact differs (ActorId.ext_iff.mp same).symm
  refine ⟨other, ?_⟩
  intro free
  have does : system.operation? state ⟨position⟩ = some sleeper.operation := by
    rw [← id_of_get? lawful.numbered fits.actors there]
    exact operation?_of_get? lawful.numbered fits.actors there
      (fits.sleepers position sleeper there sleeping)
  have entryDoes := operation?_of_get? lawful.numbered fits.actors found enabled
  obtain ⟨-, operation, others, same, sameOther, independent⟩ := free
  cases entryDoes.symm.trans same
  cases does.symm.trans sameOther
  have both : system.Independent state entry.id ⟨position⟩ :=
    ⟨other, _, _, entryDoes, does, independent⟩
  have kept := lawful.kept _ _ _ both
  refine ⟨kept, (sleeps_opening_cons_iff single).mpr ⟨?_, ?_⟩⟩
  · refine Schedule.mem_sleepers.mpr ⟨?_, sleeper, there, sleeping, ?_⟩
    · rw [chosen]
      exact differs
    · rw [Operation.dependent_comm, independent]
  · rw [does] at kept
    obtain ⟨snapshot, inside, -⟩ := exists_of_operation? kept
    exact (List.getElem?_eq_some_iff.mp inside).1

end Sleepers

variable {middle : system.State} {after : List ActorId}

/-- The steps since the state in the middle are independent of an actor, which is as it was. -/
def Spares (system : TransitionSystem) (middle : system.State) (actor : ActorId)
    (after : List ActorId) (state : system.State) : Prop :=
  (∀ move ∈ system.moves middle after,
      move.Independent ⟨actor, system.operation? middle actor⟩) ∧
    system.operation? state actor = system.operation? middle actor

/-- One step further: the actor either sleeps on or depends on the step. -/
theorem Fits.spares_or_not_leads
    {position : Nat} (lawful : system.Lawful)
    (fits : system.Fits below (system.after middle after) frame)
    (single : frame.selections = [(entry, index)]) (enabled : entry.enabled = true)
    (awake : entry.asleep = false) (asleep : frame.Sleeps position)
    (spares : system.Spares middle ⟨position⟩ after (system.after middle after)) :
    (system.Spares middle ⟨position⟩ (after ++ [entry.id])
        (system.step (system.after middle after) entry.id) ∧
      (Schedule.opening (frame :: below)
        (system.actors (system.step (system.after middle after) entry.id))).Sleeps position) ∨
      ∀ more, ¬ Move.Leads ⟨⟨position⟩, system.operation? middle ⟨position⟩⟩
        (system.moves middle (after ++ [entry.id]) ++ more) := by
  obtain ⟨free, same⟩ := spares
  obtain ⟨other, kept⟩ := fits.sleeper lawful single enabled awake asleep
  rw [same] at kept
  have grown : system.moves middle (after ++ [entry.id]) =
      system.moves middle after ++
        [⟨entry.id, system.operation? (system.after middle after) entry.id⟩] := moves_append
  by_cases independent : Move.Independent
      ⟨entry.id, system.operation? (system.after middle after) entry.id⟩
      ⟨⟨position⟩, system.operation? middle ⟨position⟩⟩
  · obtain ⟨still, sleeps⟩ := kept independent
    refine .inl ⟨⟨?_, still⟩, sleeps⟩
    intro move member
    rw [grown, List.mem_append, List.mem_singleton] at member
    rcases member with before | rfl
    · exact free move before
    · exact independent
  · refine .inr ?_
    intro more
    rw [grown, List.append_assoc]
    exact Move.not_leads free other independent

/-- As long as the steps are independent of an actor that sleeps at a frame, it sleeps on, so that
its step cannot be brought to the front. -/
theorem Trail.spares_or_not_leads
    {above : List Frame} {before : List ActorId} {position : Nat}
    (lawful : system.Lawful) (start : system.Trail below middle before)
    (asleep : frame.Sleeps position)
    (trail : system.Trail (above ++ frame :: below) state run) :
    ∃ after, run = before ++ after ∧ state = system.after middle after ∧
      ((system.Spares middle ⟨position⟩ after state ∧
        (Schedule.opening (above ++ frame :: below) (system.actors state)).Sleeps position) ∨
        ∀ more, ¬ Move.Leads ⟨⟨position⟩, system.operation? middle ⟨position⟩⟩
          (system.moves middle after ++ more)) := by
  induction above generalizing state run with
  | nil =>
      cases trail with
      | @cons _ _ _ _ entry index trail fits single enabled awake =>
          obtain ⟨rfl, rfl⟩ := trail.unique start
          have nobody : system.Spares middle ⟨position⟩ [] middle := by
            refine ⟨?_, rfl⟩
            intro move member
            cases member
          have fitsHere : system.Fits below (system.after middle []) frame := fits
          exact ⟨[entry.id], rfl, rfl,
            fitsHere.spares_or_not_leads lawful single enabled awake asleep nobody⟩
  | cons top above induction =>
      cases trail with
      | @cons _ _ _ _ entry index trail fits single enabled awake =>
          obtain ⟨after, rfl, rfl, ⟨spares, sleeps⟩ | blocked⟩ := induction trail
          · refine ⟨after ++ [entry.id], List.append_assoc .., ?_, ?_⟩
            · rw [after_append]
              rfl
            · exact fits.spares_or_not_leads lawful single enabled awake
                (fits.inherits position sleeps) spares
          · refine ⟨after ++ [entry.id], List.append_assoc .., ?_, .inr ?_⟩
            · rw [after_append]
              rfl
            · intro more
              rw [moves_append, List.append_assoc]
              exact blocked _

/-- An execution that branched off the stack is no reordering of its run. -/
theorem Branches.not_equivalent
    {other : List ActorId} (lawful : system.Lawful) (branches : system.Branches stack other)
    (trail : system.Trail stack state run) :
    ¬ Move.Equivalent (system.moves system.initial other) (system.moves system.initial run) := by
  suffices branched : ∀ above, system.Trail (above ++ stack) state run →
      ¬ Move.Equivalent (system.moves system.initial other) (system.moves system.initial run) from
    branched [] trail
  clear trail
  induction branches with
  | @here frame below middle before rest index start asleep =>
      intro above trail equivalent
      obtain ⟨after, rfl, -, outcome⟩ :=
        Trail.spares_or_not_leads lawful start asleep trail
      rw [moves_append, moves_append, start.after_eq] at equivalent
      have leads := equivalent.of_append_left.leads (.inl rfl)
      rcases outcome with ⟨⟨free, -⟩, -⟩ | blocked
      · exact (free _ leads.mem).1 rfl
      · apply blocked []
        rw [List.append_nil]
        exact leads
  | @deeper frame below other _ induction =>
      intro above trail
      apply induction (above ++ [frame])
      rw [List.append_assoc]
      exact trail

theorem Branches.below_or_initial
    {other : List ActorId} (branches : system.Branches (frame :: below) other)
    (trail : system.Trail below state run) : system.Branches below other ∨ run <+: other := by
  cases branches with
  | here start asleep =>
      obtain ⟨rfl, rfl⟩ := start.unique trail
      exact .inr (List.prefix_append _ _)
  | deeper branches => exact .inl branches

theorem Branches.of_sleeps
    {other : List ActorId} (branches : system.Branches (frame :: below) other)
    (sleeps : ∀ position, frame.Sleeps position → marked.Sleeps position) :
    system.Branches (marked :: below) other := by
  cases branches with
  | here trail asleep => exact .here trail (sleeps _ asleep)
  | deeper branches => exact .deeper branches

/-- Going back along a stack, all executions so far, those with the run of the stack included,
branch off what remains. -/
theorem Trail.of_rewind
    {top : Frame} {base : List Frame} (lawful : system.Lawful)
    (trail : system.Trail stack state run) (rewound : Schedule.rewind stack = top :: base) :
    ∃ state before, system.Trail base state before ∧ system.Fits base state top ∧
      top.selections = [] ∧
      ∀ other, system.Branches stack other ∨ run <+: other →
        system.Branches (top :: base) other := by
  induction trail with
  | nil => cases rewound
  | @cons frame below state run entry index trail fits single enabled awake induction =>
      have found := Frame.get?_of_single single
      have id := id_of_get? lawful.numbered fits.actors found
      simp only [Schedule.rewind, single] at rewound
      split at rewound
      · obtain ⟨last, before, lastTrail, lastFits, unselected, branched⟩ := induction rewound
        refine ⟨last, before, lastTrail, lastFits, unselected, ?_⟩
        rintro other (branches | further)
        · exact branched other (branches.below_or_initial trail)
        · exact branched other (.inr ((List.prefix_append run [entry.id]).trans further))
      · cases rewound
        refine ⟨state, run, trail, fits.retire found enabled, Frame.selections_retire single, ?_⟩
        rintro other (branches | ⟨rest, rfl⟩)
        · apply branches.of_sleeps
          intro position asleep
          exact Frame.sleeps_retire_iff.mpr (.inl asleep)
        · rw [List.append_assoc, List.singleton_append, id]
          exact .here trail (Frame.sleeps_retire_iff.mpr (.inr ⟨rfl, by rw [found]; rfl⟩))

section Search

open Policy.Search

variable {policy : Policy.Search} {log : Log} {current : Nat → List ActorId → ActorId}

theorem Trail.fits_of_marked
    {start : ActorId} (lawful : system.Lawful) (trail : system.Trail below state run)
    (marks : policy.marked start (Schedule.opening below (system.actors state)) = .ok frame) :
    system.Fits below state frame ∧ frame.selections = [] := by
  have fits := trail.fits_opening lawful
  refine ⟨?_, selections_of_marked marks (Schedule.selections_opening below _)⟩
  rcases marked_cases marks with rfl | ⟨rfl, -⟩ | ⟨index, entry, there, enabled, -, rfl⟩
  · exact fits.markEnabled
  · exact fits
  · refine fits.modify Frame.Entry.mark (fun _ => rfl) ?_ (fits.sleepers index)
      fun _ asleep => asleep
    intro other also _
    cases there.symm.trans also
    exact enabled

theorem Trail.of_picks
    {start : ActorId} {decision : Decision} {changed : Frame}
    (trail : system.Trail below state run) (fits : system.Fits below state frame)
    (unselected : frame.selections = []) (picks : Picks frame start decision changed) :
    (∃ actor, decision = .run actor ∧
      system.Trail (changed :: below) (system.step state actor) (run ++ [actor]) ∧
      ∀ position, frame.Sleeps position → changed.Sleeps position) ∨
    (decision = verdict frame ∧ changed = frame) := by
  rcases picks with ⟨index, entry, search, there, rfl, rfl⟩ | ⟨-, same⟩
  · obtain ⟨other, also, pending⟩ := Frame.exists_of_find_eq_some search
    cases there.symm.trans also
    obtain ⟨marked, awake⟩ : entry.backtrack = true ∧ entry.asleep = false := by
      simpa [Frame.Entry.pending] using pending
    have further := trail.cons (fits.select index) (Frame.selections_select unselected there)
      (fits.marks index entry there marked) awake
    refine .inl ⟨entry.id, rfl, further, ?_⟩
    intro position asleep
    exact (Frame.sleeps_modify_iff Frame.Entry.select fun _ => rfl).mpr asleep
  · exact .inr same

/-- Where a running execution is: at the end of the stack, or on the way to its last frame, where
nothing is selected yet. -/
inductive Standing (system : TransitionSystem) :
    List Frame → Nat → system.State → List ActorId → Prop
  | frontier {stack : List Frame} {state : system.State} {run : List ActorId}
      (trail : system.Trail stack state run) : Standing system stack stack.length state run
  | replay {above below : List Frame} {top : Frame} {last state : system.State}
      {before run : List ActorId} (base : system.Trail (above ++ below) last before)
      (fits : system.Fits (above ++ below) last top) (unselected : top.selections = [])
      (trail : system.Trail below state run) :
      Standing system (top :: (above ++ below)) below.length state run

/-- All that a choice can do: the execution goes on, or it ends at a frame above the stack. Whatever
branched off the stack branches off it afterwards. -/
def Chooses (system : TransitionSystem) (policy : Policy.Search) (stack : List Frame)
    (state : system.State) (run : List ActorId) (decision : Decision) (next : Policy.Search) :
    Prop :=
  (∃ actor others position, decision = .run actor ∧
    next = policy.withSchedule (.ofStack others position) ∧
    system.Standing others position (system.step state actor) (run ++ [actor]) ∧
    ∀ other, system.Branches stack other → system.Branches others other) ∨
  (decision.actor? = none ∧ ∃ frame below,
    next = policy.withSchedule (.ofStack (frame :: below) (below.length + 1)) ∧
    system.Trail below state run ∧ system.Fits below state frame ∧ frame.selections = [] ∧
    ∀ other, system.Branches stack other → system.Branches (frame :: below) other)

theorem Trail.chooses_of_picks
    {start : ActorId} {decision : Decision} {changed : Frame}
    (trail : system.Trail below state run) (fits : system.Fits below state frame)
    (unselected : frame.selections = []) (picks : Picks frame start decision changed)
    (branched : ∀ other, system.Branches stack other → system.Branches (frame :: below) other) :
    system.Chooses policy stack state run decision
      (policy.withSchedule (.ofStack (changed :: below) (below.length + 1))) := by
  rcases trail.of_picks fits unselected picks with ⟨actor, rfl, further, sleeps⟩ | ⟨rfl, rfl⟩
  · refine .inl ⟨actor, changed :: below, _, rfl, rfl, .frontier further, ?_⟩
    intro other branches
    exact (branched other branches).of_sleeps sleeps
  · exact .inr ⟨verdict_actor? changed, changed, below, rfl, trail, fits, unselected, branched⟩

theorem Standing.chooses
    {position : Nat} {start : ActorId} {decision : Decision} {next : Policy.Search}
    {written : Log} (lawful : system.Lawful) (sleepy : policy.Sleepy)
    (standing : system.Standing stack position state run)
    (returned : (choose (system.actors state) start).Returns
      (policy.withSchedule (.ofStack stack position), log) decision (next, written)) :
    system.Chooses policy stack state run decision next := by
  cases standing with
  | frontier trail =>
      have new := (sleepy.withSchedule _).choose_new_iff rfl trail.singles (fun _ marks =>
        (trail.fits_of_marked lawful marks).2) |>.mp returned
      obtain ⟨frame, changed, marks, picks, same⟩ := new
      cases same
      obtain ⟨fits, unselected⟩ := trail.fits_of_marked lawful marks
      exact trail.chooses_of_picks fits unselected picks fun _ branches => .deeper branches
  | @replay above below top last _ before _ base fits unselected trail =>
      rcases List.eq_nil_or_concat above with rfl | ⟨higher, frame, rfl⟩
      · rw [List.nil_append] at base fits returned ⊢
        obtain ⟨rfl, rfl⟩ := base.unique trail
        obtain ⟨changed, picks, same⟩ := (choose_open_iff (sleepy.toSystematic.withSchedule _) rfl
          fits.actors unselected).mp returned
        cases same
        exact trail.chooses_of_picks fits unselected picks fun _ branches => branches
      · rw [List.concat_append] at base fits returned ⊢
        obtain ⟨_, _, here⟩ := base.of_append
        cases here with
        | @cons _ _ _ _ entry index again fitsHere single enabled awake =>
            obtain ⟨rfl, rfl⟩ := again.unique trail
            obtain ⟨rfl, same⟩ := (choose_recorded_iff (top :: higher)
              (sleepy.toSystematic.withSchedule _) rfl fitsHere.actors single).mp returned
            cases same
            exact .inl ⟨entry.id, _, _, rfl, rfl,
              .replay base fits unselected (trail.cons fitsHere single enabled awake),
              fun _ branches => branches⟩

/-- The runs that have been completed, in order. -/
def Point.completed {π : Type} (point : Point π system) : List (List ActorId) :=
  (point.finished.filter fun execution => execution.2 = .deadlock).map Prod.fst

/-- No two of the runs differ only in the order of independent steps. -/
def Distinct (system : TransitionSystem) (runs : List (List ActorId)) : Prop :=
  runs.Pairwise fun run other =>
    ¬ Move.Equivalent (system.moves system.initial run) (system.moves system.initial other)

theorem Distinct.append
    {π : Type} {before after : Point π system} (distinct : system.Distinct before.completed)
    (one : after.finished = before.finished ++ [(run, .deadlock)])
    (others : ∀ execution ∈ before.finished, ¬ Move.Equivalent
      (system.moves system.initial execution.1) (system.moves system.initial run)) :
    system.Distinct after.completed := by
  have grown : after.completed = before.completed ++ [run] := by
    simp [Point.completed, one, List.filter_append]
  unfold Distinct at distinct ⊢
  rw [grown, List.pairwise_append]
  refine ⟨distinct, List.pairwise_singleton _ _, ?_⟩
  intro other member last alone
  obtain rfl := List.mem_singleton.mp alone
  obtain ⟨execution, listed, rfl⟩ := List.mem_map.mp member
  exact others execution (List.mem_filter.mp listed).1

/-- What holds at every point of an exploration: the executions that are over branch off the
current stack, once the one that has just ended is counted as going further. -/
inductive Sound (policy : Policy.Search) : Point Policy.Search system → Prop
  | running {stack : List Frame} {position : Nat} {log : Log} {state : system.State}
      {finished : List (List ActorId × Decision)} {run : List ActorId}
      (standing : system.Standing stack position state run)
      (branched : ∀ execution ∈ finished, system.Branches stack execution.1) :
      Sound policy
        ⟨policy.withSchedule (.ofStack stack position), log, finished, .running state run⟩
  | ended {frame : Frame} {below : List Frame} {log : Log} {state : system.State}
      {finished : List (List ActorId × Decision)} {run : List ActorId}
      (trail : system.Trail below state run) (fits : system.Fits below state frame)
      (unselected : frame.selections = [])
      (branched : ∀ execution ∈ finished,
        system.Branches below execution.1 ∨ run <+: execution.1) :
      Sound policy
        ⟨policy.withSchedule (.ofStack (frame :: below) (below.length + 1)), log, finished, .ended⟩

/-- The next execution repeats a stack in which all executions so far branch off. -/
theorem Trail.restarts
    {next : Policy.Search} {written : Log} (lawful : system.Lawful)
    (sleepy : policy.Sleepy) (trail : system.Trail below state run)
    (fits : system.Fits below state frame) (unselected : frame.selections = [])
    (advanced : advance.Returns
      (policy.withSchedule (.ofStack (frame :: below) (below.length + 1)), log) true
      (next, written)) :
    ∃ top base, next = policy.withSchedule (.ofStack (top :: base) 0) ∧
      system.Standing (top :: base) 0 system.initial [] ∧
      ∀ other, system.Branches below other ∨ run <+: other →
        system.Branches (top :: base) other := by
  have marks : (Schedule.ofStack (frame :: below) (below.length + 1)).MarksEnabled := by
    rw [Schedule.marksEnabled_ofStack_iff]
    intro other member
    rcases List.mem_cons.mp member with rfl | member
    · exact fits.marks
    · exact trail.marksEnabled other member
  obtain ⟨analyzed, schedule, same, marked, -, advances, rest⟩ :=
    advance_returns (sleepy.toSystematic.withSchedule _) marks advanced
  obtain ⟨stack, rfl, frames⟩ := Schedule.exists_stack_of_unmark_eq same
  rw [List.map_cons, List.map_eq_cons_iff] at frames
  obtain ⟨last, others, rfl, sameLast, sameOthers⟩ := frames
  rw [Schedule.marksEnabled_ofStack_iff] at marked
  have othersMarked : ∀ frame ∈ others, frame.MarksEnabled := fun frame member =>
    marked frame (List.mem_cons_of_mem _ member)
  have remains := trail.of_unmark_eq sameOthers othersMarked
  have lengths : others.length = below.length := by
    simpa using congrArg List.length sameOthers
  rw [← lengths, Schedule.advance_ofStack_cons
    (Frame.selections_eq_nil_of_unmark_eq sameLast unselected) remains.singles] at advances
  cases left : Schedule.rewind others with
  | nil =>
      rw [left] at advances
      cases advances
  | cons top base =>
      rw [left] at advances
      cases advances
      obtain ⟨_, _, baseTrail, topFits, open_, kept⟩ := remains.of_rewind lawful left
      have standing : system.Standing (top :: (base ++ [])) 0 system.initial [] :=
        .replay (by rwa [List.append_nil]) (by rwa [List.append_nil]) open_ .nil
      rw [List.append_nil] at standing
      refine ⟨top, base, rest, standing, ?_⟩
      rintro other (branches | further)
      · exact kept other (.inl (branches.of_unmark_eq sameOthers othersMarked))
      · exact kept other (.inr further)

theorem Sound.drives
    {point next : Point Policy.Search system} (lawful : system.Lawful)
    (sleepy : policy.Sleepy) (sound : Sound policy point)
    (drives : system.Drives current point next) : Sound policy next := by
  cases drives with
  | run chosen =>
      cases sound with
      | running standing branched =>
          rcases standing.chooses lawful sleepy chosen with
            ⟨actor, others, position, same, rfl, further, kept⟩ | ⟨idle, -⟩
          · cases same
            exact .running further fun execution member => kept _ (branched execution member)
          · cases idle
  | finish chosen idle =>
      cases sound with
      | running standing branched =>
          rcases standing.chooses lawful sleepy chosen with
            ⟨actor, _, _, rfl, -⟩ | ⟨-, frame, below, rfl, trail, fits, unselected, kept⟩
          · cases idle
          · refine .ended trail fits unselected ?_
            intro execution member
            rcases List.mem_append.mp member with before | last
            · exact (kept _ (branched execution before)).below_or_initial trail
            · rw [List.mem_singleton] at last
              subst last
              exact .inr (List.prefix_refl _)
  | restart advanced =>
      cases sound with
      | @ended frame below _ state _ run trail fits unselected branched =>
          obtain ⟨top, base, rfl, standing, kept⟩ :=
            trail.restarts lawful sleepy fits unselected advanced
          exact .running standing fun execution member => kept _ (branched execution member)

theorem Branches.not_equivalent_of_top
    {other : List ActorId} (lawful : system.Lawful)
    (branches : system.Branches (frame :: below) other) (trail : system.Trail below state run) :
    ¬ Move.Equivalent (system.moves system.initial other) (system.moves system.initial run) := by
  cases branches with
  | @here _ _ _ before rest index start asleep =>
      obtain ⟨rfl, rfl⟩ := start.unique trail
      intro equivalent
      have lengths := equivalent.length_eq
      simp at lengths
  | deeper branches => exact branches.not_equivalent lawful trail

theorem Sound.distinct
    {point next : Point Policy.Search system} (lawful : system.Lawful)
    (sleepy : policy.Sleepy) (sound : Sound policy point)
    (drives : system.Drives current point next) (distinct : system.Distinct point.completed) :
    system.Distinct next.completed := by
  cases drives with
  | run _ => exact distinct
  | restart _ => exact distinct
  | @finish _ _ _ _ finished _ run decision chosen idle =>
      by_cases completes : decision = .deadlock
      · cases sound with
        | running standing branched =>
            rcases standing.chooses lawful sleepy chosen with
              ⟨actor, _, _, rfl, -⟩ | ⟨-, frame, below, -, trail, -, -, kept⟩
            · cases idle
            · subst completes
              apply distinct.append rfl
              intro execution member
              exact (kept _ (branched execution member)).not_equivalent_of_top lawful trail
      · simpa [Distinct, Point.completed, List.filter_append, completes] using distinct

/-- With sleep sets, and whatever marks the reduction sets, no two completed runs of an exploration
differ only in the order of independent steps. -/
theorem pairwise_not_equivalent
    (lawful : system.Lawful) (settings : Settings) (sleepSets : settings.sleepSets = true)
    (randomized : settings.randomized = false) (stepLimit : settings.stepLimit = none)
    {point : Point Policy.Search system}
    (reaches : system.Reaches current (.start (ofSettings settings) log) point) :
    system.Distinct point.completed := by
  have sleepy : (ofSettings settings).Sleepy := ⟨⟨randomized, stepLimit⟩, sleepSets⟩
  suffices both : Sound (ofSettings settings) point ∧ system.Distinct point.completed from both.2
  induction reaches with
  | refl =>
      have standing : system.Standing [] 0 system.initial [] := .frontier .nil
      exact ⟨.running standing fun _ member => (List.not_mem_nil member).elim, .nil⟩
  | tail _ drives induction =>
      obtain ⟨sound, distinct⟩ := induction
      exact ⟨sound.drives lawful sleepy drives,
        sound.distinct lawful sleepy drives distinct⟩

theorem pairwise_not_equivalent_posts :
    posts.Lawful ∧ ∃ point : Point Policy.Search posts,
      posts.Reaches (fun _ _ => ⟨0⟩) (.start (ofSettings { stepLimit := none }) (.empty .error))
        point ∧
      point.completed = [[⟨0⟩, ⟨1⟩, ⟨2⟩], [⟨1⟩, ⟨0⟩, ⟨2⟩]] ∧ posts.Distinct point.completed :=
  ⟨lawful_posts, _, reaches_forward 9 _, by decide +kernel,
    pairwise_not_equivalent lawful_posts { stepLimit := none } rfl rfl rfl (reaches_forward 9 _)⟩

end Search

end TransitionSystem

end Interleave
