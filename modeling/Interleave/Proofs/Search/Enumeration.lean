import Interleave.Proofs.Search.Complete

namespace Interleave

namespace TransitionSystem

open Policy.Search

variable {system : TransitionSystem} {state : system.State} {run : List ActorId} {frame : Frame}
  {below : List Frame} {found others : List (List ActorId × Decision)} {policy : Policy.Search}

/-- The executions found go on in every way that completes and does not begin with an actor that
sleeps, once in each. -/
def Enumerates (system : TransitionSystem) (state : system.State) (run : List ActorId)
    (frame : Frame) (found : List (List ActorId × Decision)) : Prop :=
  ∃ completions : List (List ActorId),
    found = completions.map (fun completion => (run ++ completion, .deadlock)) ∧
    completions.Nodup ∧
    ∀ completion, completion ∈ completions ↔ system.Completes state completion ∧
      ∀ first, completion.head? = some first → ¬ frame.Sleeps first.index

/-- A frame of a search without sleep sets. Only branches that have been explored sleep, and there
is another one if there is any. -/
structure Unexplored (system : TransitionSystem) (below : List Frame) (state : system.State)
    (run : List ActorId) (frame : Frame) : Prop where
  path : system.Path below state run
  actors : frame.actors = system.actors state
  marks : frame.MarksEnabled
  full : frame.Full
  unselected : frame.selections = []
  awake : frame.isDone = true → ∀ index, ¬ frame.Sleeps index

theorem not_sleeps_opening
    (sleepless : policy.sleepSets = false) {actors : List Snapshot} {index : Nat} :
    ¬ (policy.opening below actors).markEnabled.Sleeps index := by
  have plain : policy.opening below actors = .ofActors actors := by
    rw [Policy.Search.opening, sleepless]
    rfl
  intro asleep
  rw [plain, Frame.sleeps_markEnabled_iff] at asleep
  exact not_sleeps_opening_nil asleep

theorem Path.unexplored_new
    (path : system.Path below state run) (sleepless : policy.sleepSets = false) :
    system.Unexplored below state run
      (policy.opening below (system.actors state)).markEnabled where
  path := path
  actors := by rw [Frame.actors_markEnabled, actors_opening]
  marks := marksEnabled_opening.markEnabled
  full := Frame.full_markEnabled _
  unselected := Frame.selections_markEnabled selections_opening
  awake := fun _ _ => not_sleeps_opening sleepless

theorem Unexplored.enumerates_of_isDone
    (unexplored : system.Unexplored below state run frame) (done : frame.isDone = true) :
    system.Enumerates state run frame [(run, verdict frame)] := by
  have disabled : ∀ actor, system.operation? state actor = none := by
    intro actor
    cases does : system.operation? state actor with
    | none => rfl
    | some operation =>
        obtain ⟨entry, there, enabled, -⟩ := exists_entry_of_operation? unexplored.actors does
        exact (unexplored.awake done _ (unexplored.full.sleeps_of_isDone done there enabled)).elim
  refine ⟨[[]], ?_, List.nodup_singleton [], ?_⟩
  · rw [verdict_of_disabled unexplored.actors disabled, List.map_singleton, List.append_nil]
  · intro completion
    rw [List.mem_singleton]
    constructor
    · intro empty
      subst empty
      refine ⟨⟨trivial, disabled⟩, ?_⟩
      intro first impossible
      cases impossible
    · intro member
      cases completion with
      | nil => rfl
      | cons first rest =>
          have enabled := (completes_cons.mp member.1).1
          rw [disabled] at enabled
          cases enabled

theorem Enumerates.branch
    {actor : ActorId} {next : Frame} (awake : ∀ index, ¬ next.Sleeps index)
    (enabled : (system.operation? state actor).isSome)
    (enumerates : system.Enumerates (system.step state actor) (run ++ [actor]) next found) :
    ∃ completions : List (List ActorId),
      found = completions.map (fun completion => (run ++ completion, .deadlock)) ∧
      completions.Nodup ∧
      ∀ completion, completion ∈ completions ↔
        system.Completes state completion ∧ completion.head? = some actor := by
  obtain ⟨rests, rfl, nodup, complete⟩ := enumerates
  refine ⟨rests.map (List.cons actor), ?_, nodup.map (List.cons_injective), ?_⟩
  · simp
  · intro completion
    rw [List.mem_map]
    constructor
    · intro member
      obtain ⟨rest, member, rfl⟩ := member
      exact ⟨completes_cons.mpr ⟨enabled, ((complete rest).mp member).1⟩, rfl⟩
    · intro member
      obtain ⟨completes, begins⟩ := member
      obtain ⟨rest, rfl⟩ := List.head?_eq_some_iff.mp begins
      exact ⟨rest, (complete rest).mpr
        ⟨(completes_cons.mp completes).2, fun first _ => awake first.index⟩, rfl⟩

section Branch

variable {index : Nat} {entry : Frame.Entry} (numbered : system.Numbered)
  (unexplored : system.Unexplored below state run frame) (there : frame.get? index = some entry)
  (pending : entry.pending = true)

include numbered unexplored there

theorem Unexplored.sleeps_explored_iff (actor : ActorId) :
    (frame.explored index).Sleeps actor.index ↔
      frame.Sleeps actor.index ∨ actor = entry.id := by
  rw [Frame.sleeps_explored_iff, id_of_get? numbered unexplored.actors there,
    ActorId.ext_iff]
  constructor
  · intro asleep
    exact asleep.imp_right And.left
  · intro asleep
    refine asleep.imp_right fun same => ⟨same, ?_⟩
    rw [same, there]
    rfl

include pending

theorem Unexplored.not_sleeps : ¬ frame.Sleeps entry.id.index := by
  rw [Frame.Entry.pending, Bool.and_eq_true, Bool.not_eq_true'] at pending
  rw [id_of_get? numbered unexplored.actors there]
  intro asleep
  obtain ⟨other, found, asleep⟩ := asleep
  cases there.symm.trans found
  rw [pending.2] at asleep
  cases asleep

theorem Unexplored.operation? : (system.operation? state entry.id).isSome := by
  rw [Frame.Entry.pending, Bool.and_eq_true] at pending
  rw [operation?_of_get? numbered unexplored.actors there
    (unexplored.marks index entry there pending.1)]
  rfl

omit numbered pending in
theorem Unexplored.onward :
    system.Path (frame.modify index Frame.Entry.select :: below) (system.step state entry.id)
      (run ++ [entry.id]) := by
  have actors : (frame.modify index Frame.Entry.select).actors = system.actors state := by
    rw [Frame.actors_modify _ _ Frame.Entry.select fun _ => rfl, unexplored.actors]
  have further := unexplored.path.cons actors (Frame.selections_select unexplored.unselected there)
  exact further

omit numbered pending in
theorem Unexplored.back (left : (frame.explored index).isDone = false) :
    system.Unexplored below state run (frame.explored index) where
  path := unexplored.path
  actors := by rw [Frame.actors_explored, unexplored.actors]
  marks := unexplored.marks.explored
  full := unexplored.full.explored
  unselected := Frame.selections_retire (Frame.selections_select unexplored.unselected there)
  awake := fun done => absurd done (Bool.eq_false_iff.mp left)

variable (sleepless : policy.sleepSets = false)
  (enumerates : system.Enumerates (system.step state entry.id) (run ++ [entry.id])
    (policy.opening (frame.modify index Frame.Entry.select :: below)
      (system.actors (system.step state entry.id))).markEnabled found)

include sleepless enumerates

/-- The last branch: a run that completes begins with its actor or with one that sleeps. -/
theorem Unexplored.enumerates_last (done : (frame.explored index).isDone = true) :
    system.Enumerates state run frame found := by
  have enabled := unexplored.operation? numbered there pending
  obtain ⟨completions, rfl, nodup, complete⟩ :=
    enumerates.branch (fun _ => not_sleeps_opening sleepless) enabled
  refine ⟨completions, rfl, nodup, ?_⟩
  intro completion
  rw [complete]
  refine and_congr_right fun completes => ?_
  constructor
  · intro begins first again
    cases begins.symm.trans again
    exact unexplored.not_sleeps numbered there pending
  · intro awake
    obtain ⟨first, rest, rfl, firstEnabled⟩ := completes.cons_of_enabled enabled
    obtain ⟨operation, does⟩ := Option.isSome_iff_exists.mp firstEnabled
    have actors : (frame.explored index).actors = system.actors state := by
      rw [Frame.actors_explored, unexplored.actors]
    obtain ⟨other, found, otherEnabled, -⟩ := exists_entry_of_operation? actors does
    have asleep := unexplored.full.explored.sleeps_of_isDone done found otherEnabled
    rcases (unexplored.sleeps_explored_iff numbered there first).mp asleep with before | same
    · exact (awake first rfl before).elim
    · rw [same]
      rfl

/-- The runs that begin with the branch, and those that begin with what is left. -/
theorem Unexplored.enumerates_append
    (rest : system.Enumerates state run (frame.explored index) others) :
    system.Enumerates state run frame (found ++ others) := by
  have enabled := unexplored.operation? numbered there pending
  obtain ⟨completions, rfl, nodup, complete⟩ :=
    enumerates.branch (fun _ => not_sleeps_opening sleepless) enabled
  obtain ⟨left, rfl, nodupLeft, completeLeft⟩ := rest
  refine ⟨completions ++ left, (List.map_append).symm, ?_, ?_⟩
  · rw [List.nodup_append']
    refine ⟨nodup, nodupLeft, ?_⟩
    intro completion member memberLeft
    obtain ⟨-, begins⟩ := (complete completion).mp member
    obtain ⟨-, awake⟩ := (completeLeft completion).mp memberLeft
    exact awake entry.id begins
      ((unexplored.sleeps_explored_iff numbered there entry.id).mpr (.inr rfl))
  · intro completion
    rw [List.mem_append, complete, completeLeft, ← and_or_left]
    refine and_congr_right fun completes => ?_
    constructor
    · intro parts first begins
      rcases parts with branch | awake
      · cases begins.symm.trans branch
        exact unexplored.not_sleeps numbered there pending
      · intro asleep
        exact awake first begins
          ((unexplored.sleeps_explored_iff numbered there first).mpr (.inl asleep))
    · intro awake
      by_cases branch : completion.head? = some entry.id
      · exact .inl branch
      · refine .inr ?_
        intro first begins asleep
        rcases (unexplored.sleeps_explored_iff numbered there first).mp asleep with before | same
        · exact awake first begins before
        · rw [same] at begins
          exact branch begins

end Branch

theorem branching_enumerates
    (numbered : system.Numbered) (sleepless : policy.sleepSets = false) :
    system.Branching policy system.Unexplored system.Enumerates where
  path := Unexplored.path
  actors := Unexplored.actors
  unselected := Unexplored.unselected
  enabled unexplored there pending := unexplored.operation? numbered there pending
  onward unexplored there _ := (unexplored.onward there).unexplored_new sleepless
  back unexplored there _ left := unexplored.back there left
  leaf unexplored done := unexplored.enumerates_of_isDone done
  last unexplored there pending done enumerates :=
    unexplored.enumerates_last numbered there pending sleepless enumerates done
  more unexplored there pending enumerates rest :=
    unexplored.enumerates_append numbered there pending sleepless enumerates rest

/-- Without reduction and sleep sets, the exploration ends from wherever it has come to. Its
executions all end with a deadlock, and they are the runs that complete, once each. -/
theorem exists_explores_completions
    (numbered : system.Numbered) (finite : system.FiniteDepth) (settings : Settings)
    (sleepSets : settings.sleepSets = false) (reduction : settings.reduction = false)
    (randomized : settings.randomized = false) (stepLimit : settings.stepLimit = none)
    (log : Log) (current : Nat → List ActorId → ActorId) :
    ∃ runs : List (List ActorId),
      (∀ finished, system.Explores current (ofSettings settings) log finished ↔
        finished = runs.map fun run => (run, .deadlock)) ∧
      (∀ point, system.Reaches current (.start (ofSettings settings) log) point →
        ∃ last, system.Reaches current point last ∧ last.Exhausted) ∧
      runs.Nodup ∧ ∀ run, run ∈ runs ↔ system.Completes system.initial run := by
  have systematic : (ofSettings settings).Systematic := ⟨randomized, stepLimit⟩
  obtain ⟨found, explores, enumerates⟩ :
      ∃ found, system.Explores current (ofSettings settings) log found ∧
        system.Enumerates system.initial [] _ found :=
    (branching_enumerates numbered sleepSets).exists_explores systematic reduction finite
      (Path.nil.unexplored_new sleepSets) log current
  obtain ⟨runs, rfl, nodup, complete⟩ := enumerates
  refine ⟨runs, ?_, explores.leads, nodup, ?_⟩
  · intro finished
    constructor
    · intro again
      exact explores.unique again
    · intro same
      rw [same]
      exact explores
  · intro run
    rw [complete]
    exact and_iff_left fun _ _ => not_sleeps_opening sleepSets

theorem exists_explores_completions_posts :
    posts.Numbered ∧ posts.FiniteDepth ∧ ∃ runs : List (List ActorId),
      posts.Explores (fun _ _ => ⟨0⟩)
        (ofSettings { stepLimit := none, reduction := false, sleepSets := false }) (.empty .error)
        (runs.map fun run => (run, .deadlock)) ∧
      runs.Nodup ∧ [⟨1⟩, ⟨2⟩, ⟨0⟩] ∈ runs := by
  obtain ⟨runs, explores, -, nodup, complete⟩ := exists_explores_completions lawful_posts.numbered
    finiteDepth_posts { stepLimit := none, reduction := false, sleepSets := false } rfl rfl rfl rfl
    (.empty .error) fun _ _ => ⟨0⟩
  exact ⟨lawful_posts.numbered, finiteDepth_posts, runs, (explores _).mpr rfl, nodup,
    (complete _).mpr completes_posts⟩

end TransitionSystem

end Interleave
