import Interleave.Proofs.Search.Trail

namespace Interleave

namespace TransitionSystem

variable {system : TransitionSystem} {state : system.State} {run : List ActorId} {frame : Frame}
  {below : List Frame} {found : List (List ActorId × Decision)}

/-- Some reordering of the run begins with the actor. -/
def Begins (system : TransitionSystem) (state : system.State) (actor : ActorId)
    (run : List ActorId) : Prop :=
  ∃ rest, system.Reorders state run (actor :: rest)

/-- The executions found go on in every way that completes, up to reordering, but for those that
begin with an actor that sleeps. -/
def Covers (system : TransitionSystem) (state : system.State) (run : List ActorId) (frame : Frame)
    (found : List (List ActorId × Decision)) : Prop :=
  ∀ completion, system.Completes state completion →
    (∀ index, frame.Sleeps index → ¬ system.Begins state ⟨index⟩ completion) →
    ∃ explored, (run ++ explored, .deadlock) ∈ found ∧ system.Reorders state completion explored

theorem begins_cons (actor : ActorId) (rest : List ActorId) :
    system.Begins state actor (actor :: rest) :=
  ⟨rest, .refl⟩

theorem Begins.first
    {first second : ActorId} {rest : List ActorId} (independent : system.Independent state first second)
    (begins : system.Begins (system.step state first) second rest) :
    system.Begins state second (first :: rest) := by
  obtain ⟨others, reorders⟩ := begins
  exact ⟨first :: others, reorders.cons.tail (.here independent)⟩

theorem Begins.of_reorders
    {actor : ActorId} {other : List ActorId} (reorders : system.Reorders state run other)
    (begins : system.Begins state actor other) : system.Begins state actor run := by
  obtain ⟨rest, onward⟩ := begins
  exact ⟨rest, reorders.trans onward⟩

theorem Completes.cons_of_enabled
    {completion : List ActorId} {actor : ActorId} (completes : system.Completes state completion)
    (enabled : (system.operation? state actor).isSome) :
    ∃ first rest, completion = first :: rest ∧ (system.operation? state first).isSome := by
  cases completion with
  | nil =>
      have disabled := completes.2 actor
      rw [after_nil] at disabled
      rw [disabled] at enabled
      cases enabled
  | cons first rest => exact ⟨first, rest, rfl, (completes_cons.mp completes).1⟩

theorem verdict_of_disabled
    (same : frame.actors = system.actors state)
    (disabled : ∀ actor, system.operation? state actor = none) :
    Policy.Search.verdict frame = .deadlock := by
  unfold Policy.Search.verdict
  rw [if_neg]
  intro somebody
  obtain ⟨entry, member, both⟩ := List.any_eq_true.mp somebody
  rw [Bool.and_eq_true] at both
  obtain ⟨index, found⟩ := List.mem_iff_getElem?.mp member
  have does : system.operation? state ⟨index⟩ = some entry.operation :=
    operation?_eq_some (getElem?_actors_of_get? same found) both.1
  rw [disabled] at does
  cases does

/-- An execution that ends where nothing is left to explore is the only one there. -/
theorem Fits.covers_of_isDone
    (fits : system.Fits below state frame) (full : frame.Full) (done : frame.isDone = true)
    (run : List ActorId) :
    system.Covers state run frame [(run, Policy.Search.verdict frame)] := by
  intro completion completes awake
  cases completion with
  | nil =>
      refine ⟨[], ?_, .refl⟩
      rw [verdict_of_disabled fits.actors completes.2, List.append_nil]
      exact List.mem_singleton.mpr rfl
  | cons first rest =>
      obtain ⟨operation, does⟩ := Option.isSome_iff_exists.mp (completes_cons.mp completes).1
      obtain ⟨entry, found, enabled, -⟩ := exists_entry_of_operation? fits.actors does
      exact (awake first.index (full.sleeps_of_isDone done found enabled)
        (begins_cons first rest)).elim

/-- The executions found go on in every such way that begins with the actor. -/
def CoversBranch (system : TransitionSystem) (state : system.State) (run : List ActorId)
    (frame : Frame) (actor : ActorId) (found : List (List ActorId × Decision)) : Prop :=
  ∀ completion, system.Completes state completion →
    (∀ index, frame.Sleeps index → ¬ system.Begins state ⟨index⟩ completion) →
    system.Begins state actor completion →
    ∃ explored, (run ++ explored, .deadlock) ∈ found ∧ system.Reorders state completion explored

theorem Covers.branch
    {entry : Frame.Entry} {index : Nat} {actors : List Snapshot} (lawful : system.Lawful)
    (fits : system.Fits below state (frame.modify index Frame.Entry.select))
    (single : (frame.modify index Frame.Entry.select).selections = [(entry, index)])
    (enabled : entry.enabled = true)
    (covers : system.Covers (system.step state entry.id) (run ++ [entry.id])
      (Schedule.opening (frame.modify index Frame.Entry.select :: below) actors).markEnabled
      found) :
    system.CoversBranch state run frame entry.id found := by
  intro completion completes awake begins
  obtain ⟨rest, reorders⟩ := begins
  have onward := completes_cons.mp (reorders.completes lawful completes)
  have stillAwake : ∀ position,
      (Schedule.opening (frame.modify index Frame.Entry.select :: below) actors).markEnabled.Sleeps
        position →
      ¬ system.Begins (system.step state entry.id) ⟨position⟩ rest := by
    intro position asleep begins
    obtain ⟨before, independent⟩ := fits.independent_of_sleeps lawful single enabled
      (Frame.sleeps_markEnabled_iff.mp asleep)
    exact awake position ((Frame.sleeps_modify_iff Frame.Entry.select fun _ => rfl).mp before)
      (.of_reorders reorders (begins.first independent))
  obtain ⟨explored, member, same⟩ := covers rest onward.2 stillAwake
  refine ⟨entry.id :: explored, ?_, reorders.trans same.cons⟩
  simpa using member

/-- A run that does not begin with the explored branch has to begin with another one. -/
theorem not_begins_of_sleeps_explored
    {index position : Nat} {completion : List ActorId}
    (awake : ∀ index, frame.Sleeps index → ¬ system.Begins state ⟨index⟩ completion)
    (other : ¬ system.Begins state ⟨index⟩ completion)
    (asleep : (frame.explored index).Sleeps position) :
    ¬ system.Begins state ⟨position⟩ completion := by
  rcases Frame.sleeps_explored_iff.mp asleep with before | ⟨rfl, -⟩
  · exact awake position before
  · exact other

theorem CoversBranch.covers_of_isDone
    {index : Nat} (branch : system.CoversBranch state run frame ⟨index⟩ found)
    (enabled : (system.operation? state ⟨index⟩).isSome)
    (same : (frame.explored index).actors = system.actors state)
    (full : (frame.explored index).Full) (done : (frame.explored index).isDone = true) :
    system.Covers state run frame found := by
  intro completion completes awake
  apply branch completion completes awake
  obtain ⟨first, rest, rfl, firstEnabled⟩ := completes.cons_of_enabled enabled
  obtain ⟨operation, does⟩ := Option.isSome_iff_exists.mp firstEnabled
  obtain ⟨entry, there, entryEnabled, -⟩ := exists_entry_of_operation? same does
  have asleep := full.sleeps_of_isDone done there entryEnabled
  by_contra other
  exact not_begins_of_sleeps_explored awake other asleep (begins_cons first rest)

theorem CoversBranch.covers_append
    {index : Nat} {others : List (List ActorId × Decision)}
    (branch : system.CoversBranch state run frame ⟨index⟩ found)
    (covers : system.Covers state run (frame.explored index) others) :
    system.Covers state run frame (found ++ others) := by
  intro completion completes awake
  by_cases begins : system.Begins state ⟨index⟩ completion
  · obtain ⟨explored, member, reorders⟩ := branch completion completes awake begins
    exact ⟨explored, List.mem_append_left _ member, reorders⟩
  · obtain ⟨explored, member, reorders⟩ := covers completion completes fun position asleep =>
      not_begins_of_sleeps_explored awake begins asleep
    exact ⟨explored, List.mem_append_right _ member, reorders⟩

section Search

open Policy.Search

variable {policy : Policy.Search} {log : Log} {current : Nat → List ActorId → ActorId}
  {schedule : Schedule} {finished : List (List ActorId × Decision)}

structure Unfinished (system : TransitionSystem) (below : List Frame) (state : system.State)
    (run : List ActorId) (frame : Frame) : Prop where
  trail : system.Trail below state run
  fits : system.Fits below state frame
  full : frame.Full
  unselected : frame.selections = []

theorem Trail.unfinished_new
    (trail : system.Trail below state run) (lawful : system.Lawful) (sleepy : policy.Sleepy) :
    system.Unfinished below state run
      (policy.opening below (system.actors state)).markEnabled where
  trail := trail
  fits := by
    rw [sleepy.opening_eq]
    exact (trail.fits_opening lawful).markEnabled
  full := Frame.full_markEnabled _
  unselected := Frame.selections_markEnabled selections_opening

section Branch

variable {index : Nat} {entry : Frame.Entry}
  (unfinished : system.Unfinished below state run frame) (there : frame.get? index = some entry)
  (pending : entry.pending = true)

include unfinished there pending

theorem Unfinished.enabled : entry.enabled = true := by
  rw [Frame.Entry.pending, Bool.and_eq_true] at pending
  exact unfinished.fits.marks index entry there pending.1

theorem Unfinished.operation? (lawful : system.Lawful) :
    (system.operation? state entry.id).isSome := by
  rw [operation?_of_get? lawful.numbered unfinished.fits.actors there
    (unfinished.enabled there pending)]
  rfl

theorem Unfinished.onward :
    system.Trail (frame.modify index Frame.Entry.select :: below) (system.step state entry.id)
      (run ++ [entry.id]) := by
  have single := Frame.selections_select unfinished.unselected there
  have enabled := unfinished.enabled there pending
  rw [Frame.Entry.pending, Bool.and_eq_true, Bool.not_eq_true'] at pending
  obtain ⟨-, awake⟩ := pending
  have further := unfinished.trail.cons (unfinished.fits.select index) single enabled awake
  exact further

theorem Unfinished.back : system.Unfinished below state run (frame.explored index) := by
  have single := Frame.selections_select unfinished.unselected there
  have enabled := unfinished.enabled there pending
  have fits := unfinished.fits.select index
  exact ⟨unfinished.trail, fits.retire (Frame.get?_of_single single) enabled,
    unfinished.full.explored, Frame.selections_retire single⟩

theorem Unfinished.coversBranch
    (lawful : system.Lawful) (sleepy : policy.Sleepy)
    (covers : system.Covers (system.step state entry.id) (run ++ [entry.id])
      (policy.opening (frame.modify index Frame.Entry.select :: below)
        (system.actors (system.step state entry.id))).markEnabled found) :
    system.CoversBranch state run frame ⟨index⟩ found := by
  have single := Frame.selections_select unfinished.unselected there
  rw [sleepy.opening_eq] at covers
  have enabled := unfinished.enabled there pending
  rw [← id_of_get? lawful.numbered unfinished.fits.actors there]
  have branch := Covers.branch lawful (unfinished.fits.select index) single enabled covers
  exact branch

end Branch

/-- Depth first, a search with sleep sets covers all runs up to reordering. -/
theorem branching_covers (lawful : system.Lawful) (sleepy : policy.Sleepy) :
    system.Branching policy system.Unfinished system.Covers where
  path unfinished := unfinished.trail.path
  actors unfinished := unfinished.fits.actors
  unselected := Unfinished.unselected
  enabled unfinished there pending := unfinished.operation? there pending lawful
  onward unfinished there pending :=
    (unfinished.onward there pending).unfinished_new lawful sleepy
  back unfinished there pending _ := unfinished.back there pending
  leaf unfinished done := unfinished.fits.covers_of_isDone unfinished.full done _
  last := by
    intro below state run frame index entry found unfinished there pending done covers
    have enabled := unfinished.operation? there pending lawful
    rw [id_of_get? lawful.numbered unfinished.fits.actors there] at enabled
    exact (unfinished.coversBranch there pending lawful sleepy covers).covers_of_isDone enabled
      (unfinished.back there pending).fits.actors unfinished.full.explored done
  more unfinished there pending covers rest :=
    (unfinished.coversBranch there pending lawful sleepy covers).covers_append rest

/-- With sleep sets alone, the exploration ends, with one list of executions, and each run that
completes is a reordering of one that it found. -/
theorem exists_explores_reordering
    (lawful : system.Lawful) (finite : system.FiniteDepth) (settings : Settings)
    (sleepSets : settings.sleepSets = true) (reduction : settings.reduction = false)
    (randomized : settings.randomized = false) (stepLimit : settings.stepLimit = none)
    (log : Log) (current : Nat → List ActorId → ActorId) :
    ∃ finished, (∀ others, system.Explores current (ofSettings settings) log others ↔
        others = finished) ∧
      ∀ completion, system.Completes system.initial completion →
        ∃ explored, (explored, .deadlock) ∈ finished ∧
          system.Reorders system.initial completion explored := by
  have sleepy : (ofSettings settings).Sleepy := ⟨⟨randomized, stepLimit⟩, sleepSets⟩
  obtain ⟨found, explores, covers⟩ :
      ∃ found, system.Explores current (ofSettings settings) log found ∧
        system.Covers system.initial [] _ found :=
    (branching_covers lawful sleepy).exists_explores sleepy.toSystematic reduction finite
      (Trail.nil.unfinished_new lawful sleepy) log current
  refine ⟨found, ?_, ?_⟩
  · intro others
    constructor
    · intro again
      exact explores.unique again
    · rintro rfl
      exact explores
  · intro completion completes
    apply covers completion completes
    intro index asleep
    rw [sleepy.opening_eq] at asleep
    exact (not_sleeps_opening_nil (Frame.sleeps_markEnabled_iff.mp asleep)).elim

theorem exists_explores_reordering_posts :
    posts.Lawful ∧ posts.FiniteDepth ∧ posts.Completes posts.initial [⟨1⟩, ⟨2⟩, ⟨0⟩] ∧
      ∃ finished,
        posts.Explores (fun _ _ => ⟨0⟩) (ofSettings { stepLimit := none, reduction := false })
          (.empty .error) finished ∧
        ∃ explored, (explored, .deadlock) ∈ finished ∧
          posts.Reorders posts.initial [⟨1⟩, ⟨2⟩, ⟨0⟩] explored := by
  obtain ⟨finished, explores, covers⟩ := exists_explores_reordering lawful_posts
    finiteDepth_posts { stepLimit := none, reduction := false } rfl rfl rfl rfl (.empty .error)
    fun _ _ => ⟨0⟩
  exact ⟨lawful_posts, finiteDepth_posts, completes_posts, finished, (explores finished).mpr rfl,
    covers _ completes_posts⟩

end Search

end TransitionSystem

end Interleave
