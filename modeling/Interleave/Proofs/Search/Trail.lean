import Interleave.Proofs.Search.Branching

namespace Interleave

namespace TransitionSystem

variable (system : TransitionSystem)

/-- The frame shows the actors of a state. Only enabled actors are marked or asleep, and whoever
is to sleep because of the frames below does. -/
structure Fits (below : List Frame) (state : system.State) (frame : Frame) : Prop where
  actors : frame.actors = system.actors state
  marks : ∀ index entry, frame.get? index = some entry → entry.backtrack = true →
    entry.enabled = true
  sleepers : ∀ index entry, frame.get? index = some entry → entry.asleep = true →
    entry.enabled = true
  inherits : ∀ index, (Schedule.opening below (system.actors state)).Sleeps index →
    frame.Sleeps index

/-- The selections of a stack are a run from the initial state. Nobody was selected asleep. -/
inductive Trail : List Frame → system.State → List ActorId → Prop
  | nil : Trail [] system.initial []
  | cons {frame : Frame} {below : List Frame} {state : system.State} {run : List ActorId}
      {entry : Frame.Entry} {index : Nat} (trail : Trail below state run)
      (fits : system.Fits below state frame) (single : frame.selections = [(entry, index)])
      (enabled : entry.enabled = true) (awake : entry.asleep = false) :
      Trail (frame :: below) (system.step state entry.id) (run ++ [entry.id])

variable {system} {frame : Frame} {below : List Frame} {state : system.State}
  {run : List ActorId} {entry : Frame.Entry} {index : Nat}

theorem Trail.path (trail : system.Trail below state run) : system.Path below state run := by
  induction trail with
  | nil => exact .nil
  | cons _ fits single _ _ induction => exact induction.cons fits.actors single

theorem Trail.singles (trail : system.Trail below state run) :
    ∀ frame ∈ below, ∃ entry index, frame.selections = [(entry, index)] :=
  trail.path.singles

theorem Trail.after_eq (trail : system.Trail below state run) :
    system.after system.initial run = state := by
  induction trail with
  | nil => rfl
  | cons _ _ _ _ _ induction => rw [after_append, induction, after_cons, after_nil]

section Recorded

variable (numbered : system.Numbered) (same : frame.actors = system.actors state)
  (found : frame.get? index = some entry)

include same found

theorem getElem?_actors_of_get? : (system.actors state)[index]? = some entry.snapshot := by
  rw [← same, Frame.getElem?_actors, found, Option.map_some]

include numbered

theorem id_of_get? : entry.id = ⟨index⟩ :=
  numbered state index entry.snapshot (getElem?_actors_of_get? same found)

theorem operation?_of_get? (enabled : entry.enabled = true) :
    system.operation? state entry.id = some entry.operation := by
  rw [id_of_get? numbered same found]
  exact operation?_eq_some (getElem?_actors_of_get? same found) enabled

end Recorded

theorem exists_entry_of_operation?
    {actor : ActorId} {operation : Operation} (same : frame.actors = system.actors state)
    (does : system.operation? state actor = some operation) :
    ∃ entry, frame.get? actor.index = some entry ∧ entry.enabled = true ∧
      entry.operation = operation := by
  obtain ⟨snapshot, there, enabled, rfl⟩ := exists_of_operation? does
  rw [← same, Frame.getElem?_actors] at there
  obtain ⟨entry, found, rfl⟩ := Option.map_eq_some_iff.mp there
  exact ⟨entry, found, enabled, rfl⟩

theorem sleeps_opening_cons_iff
    {previous : Frame} {actors : List Snapshot} {position : Nat}
    (single : previous.selections = [(entry, index)]) :
    (Schedule.opening (previous :: below) actors).Sleeps position ↔
      position ∈ Schedule.sleepers previous entry ∧ position < actors.length := by
  simp only [Schedule.opening, single, Schedule.sleeps_putToSleep_iff, Frame.get?_ofActors]
  constructor
  · rintro (⟨other, found, asleep⟩ | ⟨among, there⟩)
    · rw [Frame.get?_ofActors] at found
      obtain ⟨snapshot, -, rfl⟩ := Option.map_eq_some_iff.mp found
      cases asleep
    · refine ⟨among, ?_⟩
      simpa using there
  · rintro ⟨among, inside⟩
    exact .inr ⟨among, by simpa using inside⟩

theorem not_sleeps_opening_nil {actors : List Snapshot} {position : Nat} :
    ¬ (Schedule.opening [] actors).Sleeps position := by
  rintro ⟨other, found, asleep⟩
  rw [Schedule.opening, Frame.get?_ofActors] at found
  obtain ⟨snapshot, -, rfl⟩ := Option.map_eq_some_iff.mp found
  cases asleep

/-- The actors that are put to sleep at a new frame are independent of the step before it. -/
theorem Fits.independent_of_sleeps
    {position : Nat} {actors : List Snapshot} (fits : system.Fits below state frame)
    (lawful : system.Lawful) (single : frame.selections = [(entry, index)])
    (enabled : entry.enabled = true)
    (sleeps : (Schedule.opening (frame :: below) actors).Sleeps position) :
    frame.Sleeps position ∧ system.Independent state entry.id ⟨position⟩ := by
  obtain ⟨among, -⟩ := (sleeps_opening_cons_iff single).mp sleeps
  obtain ⟨differs, other, found, asleep, free⟩ := Schedule.mem_sleepers.mp among
  refine ⟨⟨other, found, asleep⟩, ?_, entry.operation, other.operation, ?_, ?_, ?_⟩
  · intro same
    rw [same] at differs
    exact differs rfl
  · exact operation?_of_get? lawful.numbered fits.actors (Frame.get?_of_single single) enabled
  · rw [← id_of_get? lawful.numbered fits.actors found]
    exact operation?_of_get? lawful.numbered fits.actors found (fits.sleepers position other found asleep)
  · rw [Operation.dependent_comm, free]

theorem enabled_of_operation?
    (same : frame.actors = system.actors state) (found : frame.get? index = some entry)
    (does : (system.operation? state ⟨index⟩).isSome) : entry.enabled = true := by
  obtain ⟨operation, does⟩ := Option.isSome_iff_exists.mp does
  obtain ⟨other, there, enabled, -⟩ := exists_entry_of_operation? same does
  cases found.symm.trans there
  exact enabled

theorem Trail.fits_opening (lawful : system.Lawful) (trail : system.Trail below state run) :
    system.Fits below state (Schedule.opening below (system.actors state)) where
  actors := Schedule.actors_opening
  marks := by
    intro index entry found backtrack
    rw [(Schedule.plain_of_get?_opening found).2] at backtrack
    cases backtrack
  sleepers := by
    intro index entry found asleep
    have sleeps : (Schedule.opening below (system.actors state)).Sleeps index :=
      ⟨entry, found, asleep⟩
    apply enabled_of_operation? Schedule.actors_opening found
    cases trail with
    | nil => exact (not_sleeps_opening_nil sleeps).elim
    | cons trail fits single enabled awake =>
        obtain ⟨-, independent⟩ :=
          fits.independent_of_sleeps lawful single enabled sleeps
        obtain ⟨-, _, other, -, does, -⟩ := id independent
        rw [lawful.kept _ _ _ independent, does]
        rfl
  inherits := fun _ sleeps => sleeps

theorem Fits.modify
    (fits : system.Fits below state frame) (change : Frame.Entry → Frame.Entry)
    (kept : ∀ entry, (change entry).snapshot = entry.snapshot)
    (marks : ∀ entry, frame.get? index = some entry → (change entry).backtrack = true →
      entry.enabled = true)
    (sleepers : ∀ entry, frame.get? index = some entry → (change entry).asleep = true →
      entry.enabled = true)
    (stays : ∀ entry, entry.asleep = true → (change entry).asleep = true) :
    system.Fits below state (frame.modify index change) where
  actors := by rw [Frame.actors_modify _ _ change kept, fits.actors]
  marks := by
    intro position other found backtrack
    rw [Frame.get?_modify] at found
    obtain ⟨before, there, rfl⟩ := Option.map_eq_some_iff.mp found
    by_cases here : index = position
    · subst here
      rw [if_pos rfl] at backtrack ⊢
      rw [Frame.Entry.enabled, kept]
      exact marks before there backtrack
    · rw [if_neg here] at backtrack ⊢
      exact fits.marks position before there backtrack
  sleepers := by
    intro position other found asleep
    rw [Frame.get?_modify] at found
    obtain ⟨before, there, rfl⟩ := Option.map_eq_some_iff.mp found
    by_cases here : index = position
    · subst here
      rw [if_pos rfl] at asleep ⊢
      rw [Frame.Entry.enabled, kept]
      exact sleepers before there asleep
    · rw [if_neg here] at asleep ⊢
      exact fits.sleepers position before there asleep
  inherits := by
    intro position sleeps
    obtain ⟨before, there, asleep⟩ := fits.inherits position sleeps
    refine ⟨_, by rw [Frame.get?_modify, there, Option.map_some], ?_⟩
    split
    · exact stays before asleep
    · exact asleep

theorem Fits.select (fits : system.Fits below state frame) (index : Nat) :
    system.Fits below state (frame.modify index Frame.Entry.select) :=
  fits.modify Frame.Entry.select (fun _ => rfl) (fits.marks index) (fits.sleepers index)
    fun _ asleep => asleep

theorem Fits.retire
    (fits : system.Fits below state frame) (found : frame.get? index = some entry)
    (enabled : entry.enabled = true) : system.Fits below state (frame.retire index) := by
  have only : ∀ other, frame.get? index = some other → other.enabled = true := by
    intro other there
    cases found.symm.trans there
    exact enabled
  have slept : system.Fits below state (frame.modify index Frame.Entry.sleep) :=
    fits.modify Frame.Entry.sleep (fun _ => rfl) (fits.marks index)
      (fun other there _ => only other there) fun _ _ => rfl
  exact slept.modify Frame.Entry.deselect (fun _ => rfl) (slept.marks index)
    (slept.sleepers index) fun _ asleep => asleep

theorem Fits.markEnabled (fits : system.Fits below state frame) :
    system.Fits below state frame.markEnabled where
  actors := by rw [Frame.actors_markEnabled, fits.actors]
  marks := by
    intro index entry found backtrack
    rw [Frame.get?_markEnabled] at found
    obtain ⟨before, there, rfl⟩ := Option.map_eq_some_iff.mp found
    split at backtrack
    · rename_i enabled
      rw [if_pos enabled]
      exact enabled
    · rename_i disabled
      exact absurd (fits.marks index before there backtrack) disabled
  sleepers := by
    intro index entry found asleep
    rw [Frame.get?_markEnabled] at found
    obtain ⟨before, there, rfl⟩ := Option.map_eq_some_iff.mp found
    split at asleep
    · rename_i enabled
      rw [if_pos enabled]
      exact enabled
    · rename_i disabled
      exact absurd (fits.sleepers index before there asleep) disabled
  inherits := fun index sleeps => Frame.sleeps_markEnabled_iff.mpr (fits.inherits index sleeps)

end TransitionSystem

end Interleave
