import Interleave.Proofs.Search.Driver
import Interleave.Proofs.Search.Marked

/-!
Depth-first search of a transition system. The executions beyond a frame are those beyond each of
its branches, one branch after the other, until the search goes back to the frames below.
`Branching` lists what must carry over from one frame to the next so that a property of the
executions found there follows.
-/

namespace Interleave

namespace Frame

variable {frame : Frame} {entry : Entry} {index : Nat}

def left (frame : Frame) : Nat := frame.entries.countP Entry.pending

private theorem countP_modify_lt
    {entries : List Entry} {change : Entry → Entry} (found : entries[index]? = some entry)
    (before : entry.pending = true) (after : (change entry).pending = false) :
    (entries.modify index change).countP Entry.pending < entries.countP Entry.pending := by
  induction entries generalizing index with
  | nil => cases found
  | cons head rest induction =>
      cases index with
      | zero =>
          cases found
          simp [List.modify_zero_cons, before, after]
      | succ index =>
          have there : rest[index]? = some entry := found
          have fewer := induction there
          simp only [List.modify_succ_cons, List.countP_cons]
          omega

def explored (frame : Frame) (index : Nat) : Frame := (frame.modify index Entry.select).retire index

theorem left_explored_lt
    (found : frame.get? index = some entry) (pending : entry.pending = true) :
    (frame.explored index).left < frame.left := by
  simp only [left, explored, retire, modify, List.modify_modify_eq]
  apply countP_modify_lt found pending
  simp [Entry.pending, Entry.sleep, Entry.deselect, Entry.select]

theorem actors_explored : (frame.explored index).actors = frame.actors := by
  rw [explored, actors_retire, actors_modify _ _ Entry.select fun _ => rfl]

theorem sleeps_explored_iff {position : Nat} :
    (frame.explored index).Sleeps position ↔
      frame.Sleeps position ∨ (position = index ∧ (frame.get? position).isSome) := by
  rw [explored, sleeps_retire_iff, sleeps_modify_iff Entry.select fun _ => rfl, get?_modify,
    Option.isSome_map]

theorem MarksEnabled.explored (marks : frame.MarksEnabled) :
    (frame.explored index).MarksEnabled :=
  marks.select.retire

def Full (frame : Frame) : Prop :=
  ∀ index entry, frame.get? index = some entry → entry.enabled = true → entry.backtrack = true

theorem full_markEnabled (frame : Frame) : frame.markEnabled.Full := by
  intro index entry found enabled
  rw [get?_markEnabled] at found
  obtain ⟨before, -, rfl⟩ := Option.map_eq_some_iff.mp found
  split
  · rfl
  · rename_i disabled
    rw [if_neg disabled] at enabled
    exact absurd enabled disabled

theorem Full.modify
    (full : frame.Full) (change : Entry → Entry)
    (kept : ∀ entry, (change entry).snapshot = entry.snapshot)
    (marks : ∀ entry, (change entry).backtrack = entry.backtrack) :
    (frame.modify index change).Full := by
  intro position entry found enabled
  rw [get?_modify] at found
  obtain ⟨before, there, rfl⟩ := Option.map_eq_some_iff.mp found
  split
  · rename_i here
    rw [if_pos here, Entry.enabled, kept] at enabled
    rw [marks]
    exact full position before there enabled
  · rename_i elsewhere
    rw [if_neg elsewhere] at enabled
    exact full position before there enabled

theorem Full.explored (full : frame.Full) : (frame.explored index).Full :=
  ((full.modify Entry.select (fun _ => rfl) fun _ => rfl).modify Entry.sleep (fun _ => rfl)
    fun _ => rfl).modify Entry.deselect (fun _ => rfl) fun _ => rfl

theorem Full.sleeps_of_isDone
    (full : frame.Full) (done : frame.isDone = true) (found : frame.get? index = some entry)
    (enabled : entry.enabled = true) : frame.Sleeps index :=
  ⟨entry, found, isDone_iff.mp done entry (List.mem_of_getElem? found)
    (full index entry found enabled)⟩

end Frame

namespace TransitionSystem

inductive Path (system : TransitionSystem) :
    List Frame → system.State → List ActorId → Prop
  | nil : Path system [] system.initial []
  | cons {frame : Frame} {below : List Frame} {state : system.State} {run : List ActorId}
      {entry : Frame.Entry} {index : Nat} (path : Path system below state run)
      (actors : frame.actors = system.actors state)
      (single : frame.selections = [(entry, index)]) :
      Path system (frame :: below) (system.step state entry.id) (run ++ [entry.id])

section Search

open Policy.Search

variable {system : TransitionSystem} {state : system.State} {run : List ActorId} {frame : Frame}
  {below : List Frame} {policy : Policy.Search} {log : Log} {current : Nat → List ActorId → ActorId}
  {schedule : Schedule} {finished : List (List ActorId × Decision)}

theorem Path.singles (path : system.Path below state run) :
    ∀ frame ∈ below, ∃ entry index, frame.selections = [(entry, index)] := by
  induction path with
  | nil =>
      intro frame member
      cases member
  | cons _ _ single induction =>
      intro other member
      rcases List.mem_cons.mp member with rfl | member
      · exact ⟨_, _, single⟩
      · exact induction other member

theorem Path.reaches_replay
    (path : system.Path below state run) (systematic : policy.Systematic) (above : List Frame) :
    system.Reaches current
      ⟨policy.withSchedule (.ofStack (above ++ below) 0), log, finished,
        .running system.initial []⟩
      ⟨policy.withSchedule (.ofStack (above ++ below) below.length), log, finished,
        .running state run⟩ := by
  induction path generalizing above with
  | nil => exact .refl
  | @cons frame below state run entry index path actors single induction =>
      have before := induction (above ++ [frame])
      rw [List.append_assoc, List.singleton_append] at before
      refine .tail before (.run ?_)
      exact (choose_recorded_iff above (systematic.withSchedule _) rfl actors single).mpr
        ⟨rfl, rfl⟩

def Offers (system : TransitionSystem) (policy : Policy.Search) (log : Log) (schedule : Schedule)
    (below : List Frame) (state : system.State) (frame : Frame) : Prop :=
  ∀ start decision changed, Picks frame start decision changed →
    (choose (system.actors state) start).Returns (policy.withSchedule schedule, log) decision
      (policy.withSchedule (.ofStack (changed :: below) (below.length + 1)), log)

theorem Path.offers_new
    (path : system.Path below state run) (systematic : policy.Systematic)
    (plain : policy.reduction = false) :
    system.Offers policy log (.ofStack below below.length) below state
      (policy.opening below (system.actors state)).markEnabled := by
  intro start decision changed picks
  have marks : marked (policy.withSchedule (.ofStack below below.length)) start
      (policy.opening below (system.actors state)) =
        .ok (policy.opening below (system.actors state)).markEnabled := by
    rw [marked, if_neg]
    simpa [withSchedule] using plain
  exact (choose_new_iff (systematic.withSchedule _) rfl path.singles fun _ again =>
    selections_of_marked again selections_opening).mpr ⟨_, changed, marks, picks, rfl⟩

theorem offers_open
    (systematic : policy.Systematic) (actors : frame.actors = system.actors state)
    (unselected : frame.selections = []) :
    system.Offers policy log (.ofStack (frame :: below) below.length) below state frame := by
  intro start decision changed picks
  exact (choose_open_iff (systematic.withSchedule _) rfl actors unselected).mpr
    ⟨changed, picks, rfl⟩

/-- The executions above a stack are over: next, the search goes back along the stack. -/
def Leaves (below : List Frame) (schedule : Schedule) : Prop :=
  schedule.advance =
    .ok ((Schedule.rewind below).length != 0, .ofStack (Schedule.rewind below) 0)

/-- What a search keeps at each frame that it is about to branch from, and how what it finds beyond
the branches makes up what it finds beyond the frame. -/
structure Branching (system : TransitionSystem) (policy : Policy.Search)
    (ready : List Frame → system.State → List ActorId → Frame → Prop)
    (covers : system.State → List ActorId → Frame → List (List ActorId × Decision) → Prop) :
    Prop where
  path : ∀ {below state run frame}, ready below state run frame → system.Path below state run
  actors : ∀ {below state run frame}, ready below state run frame →
    frame.actors = system.actors state
  unselected : ∀ {below state run frame}, ready below state run frame → frame.selections = []
  enabled : ∀ {below state run frame index entry}, ready below state run frame →
    frame.get? index = some entry → entry.pending = true →
      (system.operation? state entry.id).isSome
  /-- A branch is taken. -/
  onward : ∀ {below state run frame index entry}, ready below state run frame →
    frame.get? index = some entry → entry.pending = true →
      ready (frame.modify index Frame.Entry.select :: below) (system.step state entry.id)
        (run ++ [entry.id])
        (policy.opening (frame.modify index Frame.Entry.select :: below)
          (system.actors (system.step state entry.id))).markEnabled
  /-- A branch has been explored, and others are left. -/
  back : ∀ {below state run frame index entry}, ready below state run frame →
    frame.get? index = some entry → entry.pending = true →
      (frame.explored index).isDone = false → ready below state run (frame.explored index)
  /-- There is no branch. -/
  leaf : ∀ {below state run frame}, ready below state run frame → frame.isDone = true →
    covers state run frame [(run, verdict frame)]
  last : ∀ {below state run frame index entry found}, ready below state run frame →
    frame.get? index = some entry → entry.pending = true → (frame.explored index).isDone = true →
      covers (system.step state entry.id) (run ++ [entry.id])
        (policy.opening (frame.modify index Frame.Entry.select :: below)
          (system.actors (system.step state entry.id))).markEnabled found →
        covers state run frame found
  more : ∀ {below state run frame index entry found others}, ready below state run frame →
    frame.get? index = some entry → entry.pending = true →
      covers (system.step state entry.id) (run ++ [entry.id])
        (policy.opening (frame.modify index Frame.Entry.select :: below)
          (system.actors (system.step state entry.id))).markEnabled found →
        covers state run (frame.explored index) others → covers state run frame (found ++ others)

variable {ready : List Frame → system.State → List ActorId → Frame → Prop}
  {covers : system.State → List ActorId → Frame → List (List ActorId × Decision) → Prop}

/-- From a frame, the search comes to an end of an execution at which all branches of the frame
have been explored. -/
def Explored (system : TransitionSystem) (policy : Policy.Search) (log : Log)
    (current : Nat → List ActorId → ActorId)
    (covers : system.State → List ActorId → Frame → List (List ActorId × Decision) → Prop)
    (below : List Frame) (state : system.State) (run : List ActorId) (frame : Frame)
    (schedule : Schedule) (finished : List (List ActorId × Decision)) : Prop :=
  ∃ left found,
    system.Reaches current
      ⟨policy.withSchedule schedule, log, finished, .running state run⟩
      ⟨policy.withSchedule left, log, finished ++ found, .ended⟩ ∧
    Leaves below left ∧ covers state run frame found

section Frames

variable (branching : system.Branching policy ready covers) (systematic : policy.Systematic)
  (plain : policy.reduction = false)

include branching

theorem Branching.explored_of_isDone
    (opened : ready below state run frame)
    (offers : system.Offers policy log schedule below state frame)
    (done : frame.find ((current finished.length run).index % max frame.size 1)
      Frame.Entry.pending = none) :
    system.Explored policy log current covers below state run frame schedule finished :=
  ⟨_, [(run, verdict frame)],
    .single (.finish (offers _ _ _ (.inr ⟨done, rfl, rfl⟩)) (verdict_actor? frame)),
    Schedule.advance_ofStack_cons (branching.unselected opened) (branching.path opened).singles,
    branching.leaf opened (Frame.isDone_of_find_eq_none done)⟩

include systematic plain

/-- If the search explores what lies beyond each branch, then it explores all branches. -/
theorem Branching.explored_of_deeper
    (deeper : ∀ actor, (system.operation? state actor).isSome →
      ∀ below run frame schedule finished, ready below (system.step state actor) run frame →
        system.Offers policy log schedule below (system.step state actor) frame →
        system.Explored policy log current covers below (system.step state actor) run frame
          schedule finished)
    (opened : ready below state run frame)
    (offers : system.Offers policy log schedule below state frame) :
    system.Explored policy log current covers below state run frame schedule finished := by
  induction remaining : frame.left using Nat.strongRecOn
    generalizing frame schedule finished with
  | ind count induction =>
  cases search : frame.find ((current finished.length run).index % max frame.size 1)
      Frame.Entry.pending with
  | none => exact branching.explored_of_isDone opened offers search
  | some index =>
      obtain ⟨entry, there, pending⟩ := Frame.exists_of_find_eq_some search
      have single := Frame.selections_select (branching.unselected opened) there
      have goes := offers _ _ _ (.inl ⟨index, entry, search, there, rfl, rfl⟩)
      have onward := branching.onward opened there pending
      obtain ⟨left, found, reaches, leaves, beyond⟩ :=
        deeper entry.id (branching.enabled opened there pending) _ _ _ _ finished onward
          ((branching.path onward).offers_new systematic plain)
      cases done : (frame.explored index).isDone with
      | true =>
          have rewound : Schedule.rewind (frame.modify index Frame.Entry.select :: below) =
              Schedule.rewind below := by
            simp only [Schedule.rewind, single]
            exact if_pos done
          rw [Leaves, rewound] at leaves
          exact ⟨left, found, .head (.run goes) reaches, leaves,
            branching.last opened there pending done beyond⟩
      | false =>
          have rewound : Schedule.rewind (frame.modify index Frame.Entry.select :: below) =
              frame.explored index :: below := by
            simp only [Schedule.rewind, single]
            exact if_neg (Bool.eq_false_iff.mp done)
          rw [Leaves, rewound] at leaves
          have restarts : system.Drives current
              ⟨policy.withSchedule left, log, finished ++ found, .ended⟩
              ⟨policy.withSchedule (.ofStack (frame.explored index :: below) 0), log,
                finished ++ found, .running system.initial []⟩ :=
            .restart ((advance_returns_iff (systematic.withSchedule left) plain).mpr
              ⟨_, leaves, rfl⟩)
          have opened' := branching.back opened there pending done
          obtain ⟨last, others, further, leavesLast, rest⟩ := induction _
            (remaining ▸ Frame.left_explored_lt there pending) opened'
            (offers_open systematic (branching.actors opened') (branching.unselected opened')) rfl
          refine ⟨last, found ++ others, ?_, leavesLast,
            branching.more opened there pending beyond rest⟩
          rw [← List.append_assoc]
          exact ((Relation.ReflTransGen.head (.run goes) reaches).tail restarts).trans
            (((branching.path opened).reaches_replay systematic [_]).trans further)

theorem Branching.explored
    (depth : Nat) (bounded : ∀ completion, system.Runs state completion →
      completion.length ≤ depth)
    (opened : ready below state run frame)
    (offers : system.Offers policy log schedule below state frame) :
    system.Explored policy log current covers below state run frame schedule finished := by
  induction depth generalizing below state run frame schedule finished with
  | zero =>
      apply branching.explored_of_deeper systematic plain _ opened offers
      intro actor enabled
      have short := bounded [actor] ⟨enabled, trivial⟩
      simp at short
  | succ depth induction =>
      apply branching.explored_of_deeper systematic plain _ opened offers
      intro actor enabled below run frame schedule finished
      apply induction
      intro completion runs
      exact Nat.le_of_succ_le_succ (bounded (actor :: completion) ⟨enabled, runs⟩)

/-- A search that starts at such a frame finds all that lies beyond it, and then nothing is left. -/
theorem Branching.exists_explores
    (finite : system.FiniteDepth)
    (opened : ready [] system.initial []
      (policy.opening [] (system.actors system.initial)).markEnabled)
    (log : Log) (current : Nat → List ActorId → ActorId) :
    ∃ found, system.Explores current (policy.withSchedule .empty) log found ∧
      covers system.initial [] (policy.opening [] (system.actors system.initial)).markEnabled
        found := by
  obtain ⟨depth, bounded⟩ := finite
  obtain ⟨left, found, reaches, leaves, covered⟩ :
      system.Explored policy log current covers [] system.initial [] _ (.ofStack [] 0) [] :=
    branching.explored systematic plain depth bounded opened
      ((branching.path opened).offers_new systematic plain)
  have idle : Scheduler.advance.Returns (policy.withSchedule left, log) false _ :=
    (advance_returns_iff (systematic.withSchedule left) plain).mpr ⟨_, leaves, rfl⟩
  exact ⟨found, ⟨_, reaches, ⟨rfl, _, idle⟩, rfl⟩, covered⟩

end Frames

end Search

end TransitionSystem

end Interleave
