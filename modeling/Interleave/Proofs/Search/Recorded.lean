import Interleave.Execution
import Interleave.Proofs.Search.Modes

namespace Interleave

namespace Policy.Search

open Attempt

/-- The frame shows the actors at a turn, and only enabled ones are marked. -/
structure Shows (frame : Frame) (turn : Turn) : Prop where
  actors : frame.actors = turn.actors
  numbered : Numbered turn.actors
  marks : frame.MarksEnabled

structure Settles (frame : Frame) (turn : Turn) (entry : Frame.Entry) (index : Nat) : Prop
    extends Shows frame turn where
  single : frame.selections = [(entry, index)]
  decision : turn.decision = .run entry.id
  enabled : entry.enabled = true
  awake : entry.asleep = false

/-- The frames have been recorded at these turns, with the newest frame first. -/
inductive Recorded : List Frame → List Turn → Prop
  | nil : Recorded [] []
  | cons {frame : Frame} {below : List Frame} {turn : Turn} {turns : List Turn}
      {entry : Frame.Entry} {index : Nat} (recorded : Recorded below turns)
      (settles : Settles frame turn entry index) : Recorded (frame :: below) (turns ++ [turn])

structure Reopened (frame : Frame) (turn : Turn) : Prop extends Shows frame turn where
  unselected : frame.selections = []
  undone : frame.isDone = false

/-- Where an execution stands in its stack: at the end, or on the way through the frames that the
execution before it has left. A random walk repeats all of them, and a search all but the last. -/
inductive Stands (random : Bool) (former : List Turn) : List Frame → Nat → List Turn → Prop
  | frontier {stack : List Frame} {turns : List Turn} (recorded : Recorded stack turns) :
      Stands random former stack stack.length turns
  | walk {above below : List Frame} {past turns : List Turn} (walks : random = true)
      (kept : Recorded (above ++ below) past) (before : past <+: former)
      (recorded : Recorded below turns) :
      Stands random former (above ++ below) below.length turns
  | search {above below : List Frame} {top : Frame} {past turns : List Turn} {turn : Turn}
      (searches : random = false) (kept : Recorded (above ++ below) past)
      (before : past ++ [turn] <+: former) (reopened : Reopened top turn)
      (recorded : Recorded below turns) :
      Stands random former (top :: (above ++ below)) below.length turns

def ran (turns : List Turn) : List ActorId := turns.filterMap fun turn => turn.decision.actor?

inductive Follows : List Frame → List ActorId → Prop
  | nil : Follows [] []
  | cons {frame : Frame} {below : List Frame} {run : List ActorId} {entry : Frame.Entry}
      {index : Nat} (follows : Follows below run) (single : frame.selections = [(entry, index)]) :
      Follows (frame :: below) (run ++ [entry.id])

/-- A run that went the way of the stack up to the frame at a depth, and there took an entry that
sleeps now. -/
inductive Departs : List Frame → List ActorId → Nat → Prop
  | here {frame : Frame} {below : List Frame} {run rest : List ActorId} {index : Nat}
      (follows : Follows below run) (asleep : frame.Sleeps index) :
      Departs (frame :: below) (run ++ ⟨index⟩ :: rest) (below.length + 1)
  | deeper {frame : Frame} {below : List Frame} {run : List ActorId} {depth : Nat}
      (departs : Departs below run depth) : Departs (frame :: below) run depth

variable {policy next : Search} {log written : Log} {actors : List Snapshot} {current : ActorId}
  {decision : Decision} {after : Search × Log} {frame marked : Frame}
  {above below stack : List Frame} {index : Nat} {entry : Frame.Entry} {turn : Turn}
  {former past turns : List Turn} {run : List ActorId} {depth position : Nat} {random : Bool}

theorem ran_append (first second : List Turn) : ran (first ++ second) = ran first ++ ran second :=
  List.filterMap_append

theorem Settles.id_eq (settles : Settles frame turn entry index) : entry.id = ⟨index⟩ := by
  have numbered := settles.numbered
  rw [← settles.actors] at numbered
  exact Frame.id_of_numbered numbered (Frame.get?_of_single settles.single)

theorem Settles.ran_eq (settles : Settles frame turn entry index) : ran [turn] = [entry.id] := by
  simp [ran, settles.decision, Decision.actor?]

theorem Settles.listed (settles : Settles frame turn entry index) :
    entry.snapshot ∈ turn.actors := by
  rw [← settles.actors]
  exact List.mem_map.mpr ⟨entry, List.mem_of_getElem? (Frame.get?_of_single settles.single), rfl⟩

theorem Shows.of_unmark_eq
    (shows : Shows frame turn) (same : marked.unmark = frame.unmark)
    (marks : marked.MarksEnabled) : Shows marked turn :=
  ⟨(Frame.actors_eq_of_unmark_eq same).trans shows.actors, shows.numbered, marks⟩

theorem Settles.of_unmark_eq
    (settles : Settles frame turn entry index) (same : marked.unmark = frame.unmark)
    (marks : marked.MarksEnabled) : ∃ chosen, Settles marked turn chosen index := by
  obtain ⟨chosen, alone, equal⟩ := Frame.single_of_unmark_eq same settles.single
  have snapshots : chosen.snapshot = entry.snapshot := by
    rw [← Frame.Entry.snapshot_unmark, equal, Frame.Entry.snapshot_unmark]
  refine ⟨chosen, settles.toShows.of_unmark_eq same marks, alone, ?_, ?_, ?_⟩
  · rw [settles.decision, Frame.Entry.id, Frame.Entry.id, snapshots]
  · rw [Frame.Entry.enabled, snapshots]
    exact settles.enabled
  · rw [← Frame.Entry.asleep_unmark, equal, Frame.Entry.asleep_unmark, settles.awake]

namespace Recorded

theorem length_eq (recorded : Recorded stack turns) : turns.length = stack.length := by
  induction recorded with
  | nil => rfl
  | cons _ _ induction =>
      rw [List.length_append, List.length_singleton, List.length_cons, induction]

theorem singles (recorded : Recorded stack turns) :
    ∀ frame ∈ stack, ∃ entry index, frame.selections = [(entry, index)] := by
  induction recorded with
  | nil =>
      intro frame member
      cases member
  | cons _ settles induction =>
      intro other member
      rcases List.mem_cons.mp member with rfl | member
      · exact ⟨_, _, settles.single⟩
      · exact induction other member

theorem marksEnabled (recorded : Recorded stack turns) : ∀ frame ∈ stack, frame.MarksEnabled := by
  induction recorded with
  | nil =>
      intro frame member
      cases member
  | cons _ settles induction =>
      intro other member
      rcases List.mem_cons.mp member with rfl | member
      · exact settles.marks
      · exact induction other member

theorem of_unmark_eq
    {others : List Frame} (recorded : Recorded stack turns)
    (same : others.map Frame.unmark = stack.map Frame.unmark)
    (marks : ∀ frame ∈ others, frame.MarksEnabled) : Recorded others turns := by
  induction recorded generalizing others with
  | nil =>
      rw [List.map_nil, List.map_eq_nil_iff] at same
      subst same
      exact .nil
  | cons _ settles induction =>
      rw [List.map_cons, List.map_eq_cons_iff] at same
      obtain ⟨marked, rest, rfl, sameHead, sameRest⟩ := same
      obtain ⟨chosen, settles⟩ :=
        settles.of_unmark_eq sameHead (marks marked List.mem_cons_self)
      exact .cons (induction sameRest fun frame member =>
        marks frame (List.mem_cons_of_mem _ member)) settles

theorem of_append (recorded : Recorded (above ++ below) turns) :
    ∃ first, first <+: turns ∧ Recorded below first := by
  induction above generalizing turns with
  | nil => exact ⟨turns, List.prefix_rfl, recorded⟩
  | cons frame above induction =>
      cases recorded with
      | cons recorded _ =>
          obtain ⟨first, before, recorded⟩ := induction recorded
          exact ⟨first, before.trans (List.prefix_append _ _), recorded⟩

theorem exists_settles (recorded : Recorded (above ++ frame :: below) turns) :
    ∃ turn entry index, turns[below.length]? = some turn ∧ Settles frame turn entry index := by
  obtain ⟨first, ⟨rest, rfl⟩, here⟩ := recorded.of_append
  cases here with
  | @cons _ _ turn first entry index lower settles =>
      refine ⟨turn, entry, index, ?_, settles⟩
      rw [← lower.length_eq]
      simp

theorem follows (recorded : Recorded stack turns) : Follows stack (ran turns) := by
  induction recorded with
  | nil => exact .nil
  | cons _ settles induction =>
      rw [ran_append, settles.ran_eq]
      exact .cons induction settles.single

end Recorded

namespace Follows

theorem unique {other : List ActorId} (follows : Follows stack run)
    (also : Follows stack other) : other = run := by
  induction follows generalizing other with
  | nil =>
      cases also
      rfl
  | cons _ single induction =>
      cases also with
      | cons also alsoSingle =>
          cases single.symm.trans alsoSingle
          rw [induction also]

theorem length_eq (follows : Follows stack run) : run.length = stack.length := by
  induction follows with
  | nil => rfl
  | cons _ _ induction =>
      rw [List.length_append, List.length_singleton, List.length_cons, induction]

theorem of_append (follows : Follows (above ++ below) run) :
    ∃ first, first <+: run ∧ Follows below first := by
  induction above generalizing run with
  | nil => exact ⟨run, List.prefix_rfl, follows⟩
  | cons frame above induction =>
      cases follows with
      | cons follows _ =>
          obtain ⟨first, before, follows⟩ := induction follows
          exact ⟨first, before.trans (List.prefix_append _ _), follows⟩

theorem of_unmark_eq
    {others : List Frame} (follows : Follows stack run)
    (same : others.map Frame.unmark = stack.map Frame.unmark) : Follows others run := by
  induction follows generalizing others with
  | nil =>
      rw [List.map_nil, List.map_eq_nil_iff] at same
      subst same
      exact .nil
  | @cons _ _ _ entry _ _ single induction =>
      rw [List.map_cons, List.map_eq_cons_iff] at same
      obtain ⟨marked, rest, rfl, sameHead, sameRest⟩ := same
      obtain ⟨chosen, alone, equal⟩ := Frame.single_of_unmark_eq sameHead single
      have ids : chosen.id = entry.id := by
        rw [Frame.Entry.id, ← Frame.Entry.snapshot_unmark, equal, Frame.Entry.snapshot_unmark]
        rfl
      rw [← ids]
      exact .cons (induction sameRest) alone

end Follows

namespace Departs

theorem le_length (departs : Departs stack run depth) : depth ≤ stack.length := by
  induction departs with
  | here _ _ => exact Nat.le_refl _
  | deeper _ induction => exact Nat.le_succ_of_le induction

theorem of_unmark_eq
    {others : List Frame} (departs : Departs stack run depth)
    (same : others.map Frame.unmark = stack.map Frame.unmark) : Departs others run depth := by
  induction departs generalizing others with
  | here follows asleep =>
      rw [List.map_cons, List.map_eq_cons_iff] at same
      obtain ⟨marked, rest, rfl, sameHead, sameRest⟩ := same
      have lengths := congrArg List.length sameRest
      rw [List.length_map, List.length_map] at lengths
      rw [← lengths]
      exact .here (follows.of_unmark_eq sameRest)
        ((Frame.sleeps_iff_of_unmark_eq sameHead).mpr asleep)
  | deeper _ induction =>
      rw [List.map_cons, List.map_eq_cons_iff] at same
      obtain ⟨marked, rest, rfl, -, sameRest⟩ := same
      exact .deeper (induction sameRest)

theorem of_sleeps
    (departs : Departs (frame :: below) run depth)
    (sleeps : ∀ index, frame.Sleeps index → marked.Sleeps index) :
    Departs (marked :: below) run depth := by
  cases departs with
  | here follows asleep => exact .here follows (sleeps _ asleep)
  | deeper departs => exact .deeper departs

theorem differs (departs : Departs stack run depth) (recorded : Recorded stack turns) :
    ∃ actor other, run[depth - 1]? = some actor ∧ (ran turns)[depth - 1]? = some other ∧
      actor ≠ other := by
  induction departs generalizing turns with
  | @here frame below run rest index follows asleep =>
      cases recorded with
      | @cons _ _ turn turns entry chosen recorded settles =>
          obtain rfl := follows.unique recorded.follows
          have length := recorded.follows.length_eq
          refine ⟨⟨index⟩, entry.id, ?_, ?_, ?_⟩
          · rw [Nat.add_sub_cancel, ← length]
            simp
          · rw [Nat.add_sub_cancel, ran_append, settles.ran_eq, ← length]
            simp
          · obtain ⟨sleeper, found, sleeps⟩ := asleep
            rw [settles.id_eq]
            rintro ⟨rfl⟩
            cases found.symm.trans (Frame.get?_of_single settles.single)
            rw [settles.awake] at sleeps
            cases sleeps
  | deeper departs induction =>
      cases recorded with
      | cons recorded settles =>
          obtain ⟨actor, other, takes, took, differs⟩ := induction recorded
          refine ⟨actor, other, takes, ?_, differs⟩
          rw [ran_append, List.getElem?_append_left (List.getElem?_eq_some_iff.mp took).1]
          exact took

end Departs

/-- What is ahead of an execution that repeats frames: one that has a selection, or the last one,
where it takes another branch. -/
inductive Ahead (random : Bool) (former turns : List Turn) : List Frame → Nat → Prop
  | settled {above below : List Frame} {frame : Frame} {turn : Turn} {entry : Frame.Entry}
      {index : Nat} (there : former[below.length]? = some turn)
      (settles : Settles frame turn entry index)
      (onward : ∀ next, Settles frame next entry index →
        Stands random former (above ++ frame :: below) (below.length + 1) (turns ++ [next])) :
      Ahead random former turns (above ++ frame :: below) below.length
  | reopened {below : List Frame} {top : Frame} {turn : Turn} (searches : random = false)
      (there : former[below.length]? = some turn) (reopened : Reopened top turn)
      (recorded : Recorded below turns) : Ahead random former turns (top :: below) below.length

theorem getElem?_of_isPrefix
    (before : past <+: former) (there : past[index]? = some turn) :
    former[index]? = some turn := by
  obtain ⟨rest, rfl⟩ := before
  rw [List.getElem?_append_left (List.getElem?_eq_some_iff.mp there).1]
  exact there

namespace Stands

theorem ahead
    (stands : Stands random former stack position turns) (within : position < stack.length) :
    Ahead random former turns stack position := by
  cases stands with
  | frontier recorded => exact absurd within (Nat.lt_irrefl _)
  | @walk above below past _ walks kept before recorded =>
      rcases List.eq_nil_or_concat above with rfl | ⟨higher, frame, rfl⟩
      · exact absurd within (Nat.lt_irrefl _)
      · rw [List.concat_append] at kept ⊢
        obtain ⟨turn, entry, index, there, settles⟩ := kept.exists_settles
        exact .settled (getElem?_of_isPrefix before there) settles
          fun next again => .walk walks kept before (recorded.cons again)
  | @search above below top past _ turn searches kept before reopened recorded =>
      rcases List.eq_nil_or_concat above with rfl | ⟨higher, frame, rfl⟩
      · refine .reopened searches (getElem?_of_isPrefix before ?_) reopened recorded
        rw [List.nil_append] at kept
        rw [List.nil_append, ← kept.length_eq]
        simp
      · rw [List.concat_append] at kept ⊢
        obtain ⟨earlier, entry, index, there, settles⟩ := kept.exists_settles
        have prior := (List.prefix_append past [turn]).trans before
        have onward : ∀ next, Settles frame next entry index →
            Stands random former ((top :: higher) ++ frame :: below) (below.length + 1)
              (turns ++ [next]) :=
          fun next again => .search searches kept before reopened (recorded.cons again)
        rw [← List.cons_append]
        exact .settled (getElem?_of_isPrefix prior there) settles onward

theorem recorded_of_le
    (stands : Stands random former stack position turns) (beyond : stack.length ≤ position) :
    position = stack.length ∧ Recorded stack turns := by
  cases stands with
  | frontier recorded => exact ⟨rfl, recorded⟩
  | @walk above below _ _ _ _ _ recorded =>
      rw [List.length_append] at beyond
      obtain rfl := List.eq_nil_of_length_eq_zero (show above.length = 0 by omega)
      exact ⟨rfl, recorded⟩
  | search =>
      rw [List.length_cons, List.length_append] at beyond
      omega

theorem exists_recorded (stands : Stands random former stack position turns) :
    ∃ above below, stack = above ++ below ∧ below.length = position ∧ Recorded below turns := by
  cases stands with
  | frontier recorded => exact ⟨[], _, rfl, rfl, recorded⟩
  | walk _ _ _ recorded => exact ⟨_, _, rfl, rfl, recorded⟩
  | search _ _ _ _ recorded => exact ⟨_ :: _, _, rfl, rfl, recorded⟩

end Stands

theorem Stands.ran_eq
    (stands : Stands random former stack position turns) (within : position < stack.length) :
    ran turns = ran (former.take position) := by
  have agrees {below : List Frame} {first : List Turn} (recorded : Recorded below turns)
      (again : Recorded below first) (before : first <+: former) :
      ran turns = ran (former.take below.length) := by
    rw [← again.length_eq, ← List.prefix_iff_eq_take.mp before]
    exact again.follows.unique recorded.follows
  cases stands with
  | frontier => exact absurd within (Nat.lt_irrefl _)
  | walk _ kept before recorded =>
      obtain ⟨first, shorter, again⟩ := kept.of_append
      exact agrees recorded again (shorter.trans before)
  | search _ kept before _ recorded =>
      obtain ⟨first, shorter, again⟩ := kept.of_append
      exact agrees recorded again (shorter.trans ((List.prefix_append _ _).trans before))

/-- All that a choice can do: nothing at the step limit; or the execution goes on, and whatever
departed from its stack still does; or it ends at a new frame where nothing is pending. -/
inductive Chooses (policy : Search) (former : List Turn) (stack : List Frame) (position : Nat)
    (turns : List Turn) (actors : List Snapshot) (current : ActorId) : Decision → Search → Prop
  | limited {limit : Nat} (limited : policy.stepLimit = some limit) (reached : limit ≤ position) :
      Chooses policy former stack position turns actors current .hitStepLimit policy
  | run {next : Search} {others : List Frame} {actor : ActorId} (kin : policy.Kin next)
      (free : ∀ limit, policy.stepLimit = some limit → position < limit)
      (stacked : next.schedule = .ofStack others (position + 1))
      (stands : Stands policy.randomized former others (position + 1)
        (turns ++ [⟨current, actors, .run actor⟩]))
      (kept : ∀ run depth, Departs stack run depth → Departs others run depth)
      (length : others.length = max stack.length (position + 1)) :
      Chooses policy former stack position turns actors current (.run actor) next
  | idle {next : Search} {frame : Frame} (kin : policy.Kin next)
      (free : ∀ limit, policy.stepLimit = some limit → position < limit)
      (stacked : next.schedule = .ofStack (frame :: stack) (stack.length + 1))
      (ended : position = stack.length) (recorded : Recorded stack turns)
      (opened : Opened policy.inherits actors frame) (done : frame.isDone = true) {decision : Decision}
      (judged : decision = verdict frame) :
      Chooses policy former stack position turns actors current decision next

theorem free_or_limited (policy : Search) (position : Nat) :
    (∀ limit, policy.stepLimit = some limit → position < limit) ∨
      ∃ limit, policy.stepLimit = some limit ∧ limit ≤ position := by
  cases policy.stepLimit with
  | none => exact .inl nofun
  | some limit =>
      rcases Nat.lt_or_ge position limit with below | reached
      · left
        intro other same
        cases same
        exact below
      · exact .inr ⟨limit, rfl, reached⟩

theorem settles_of_pick
    (same : frame.actors = actors) (numbered : Numbered actors) (marks : frame.MarksEnabled)
    (unselected : frame.selections = []) (there : frame.get? index = some entry)
    (pending : entry.pending = true) (current : ActorId) :
    Settles (frame.modify index Frame.Entry.select) ⟨current, actors, .run entry.id⟩ entry.select
      index := by
  rw [Frame.Entry.pending, Bool.and_eq_true, Bool.not_eq_true'] at pending
  refine ⟨⟨?_, numbered, marks.select⟩, Frame.selections_select unselected there, rfl,
    marks index entry there pending.1, pending.2⟩
  rw [Frame.actors_modify _ _ Frame.Entry.select fun _ => rfl, same]

theorem sleeps_of_select (sleeps : frame.Sleeps position) :
    (frame.modify index Frame.Entry.select).Sleeps position :=
  (Frame.sleeps_modify_iff Frame.Entry.select fun _ => rfl).mpr sleeps

theorem Stands.chooses
    (stands : Stands policy.randomized former stack position turns) (numbered : Numbered actors)
    (stacked : policy.schedule = .ofStack stack position)
    (returned : (choose actors current).Returns (policy, log) decision (next, written)) :
    Chooses policy former stack position turns actors current decision next := by
  rcases free_or_limited policy position with free | ⟨limit, limited, reached⟩
  swap
  · have stops : (choose actors current).Returns (policy, log) .hitStepLimit (policy, log) :=
      choose_of_limited limited (by rw [stacked]; exact reached)
    obtain ⟨rfl, same⟩ := stops.unique returned
    cases same
    exact .limited limited reached
  have going : policy.Free := by
    unfold Free
    rw [stacked]
    exact free
  -- Either a frame is repeated, or a new one is opened above all others.
  by_cases within : position < stack.length
  · cases stands.ahead within with
    | @settled above below frame turn entry index there settles onward =>
        by_cases same : frame.actors = actors
        · obtain ⟨rfl, rest⟩ :=
            (going.choose_recorded_iff above stacked same settles.single).mp returned
          cases rest
          have again : Settles frame ⟨current, actors, .run entry.id⟩ entry index :=
            ⟨⟨same, numbered, settles.marks⟩, settles.single, rfl, settles.enabled, settles.awake⟩
          refine .run (kin_withSchedule policy _) free rfl (onward _ again)
            (fun _ _ departs => departs) ?_
          omega
        · exact absurd (going.fails_of_diverged above stacked same) returned.not_fails
    | @reopened below top turn searches there reopened recorded =>
        by_cases same : top.actors = actors
        · obtain ⟨changed, picks, rest⟩ :=
            (going.choose_open_iff stacked same reopened.unselected).mp returned
          cases rest
          rcases picks with ⟨index, entry, search, there, rfl, rfl⟩ | ⟨nothing, -⟩
          · obtain ⟨_, also, pending⟩ := Frame.exists_of_find_eq_some search
            cases there.symm.trans also
            have settles := settles_of_pick same numbered reopened.marks reopened.unselected there
              pending current
            refine .run (kin_withSchedule policy _) free rfl (.frontier (recorded.cons settles))
              (fun _ _ departs => departs.of_sleeps fun _ => sleeps_of_select) ?_
            simp
          · have undone := reopened.undone
            rw [Frame.isDone_of_find_eq_none nothing] at undone
            cases undone
        · exact absurd (going.fails_of_diverged [] stacked same) returned.not_fails
  · obtain ⟨rfl, recorded⟩ := stands.recorded_of_le (Nat.le_of_not_lt within)
    obtain ⟨last, _, frame, changed, kin, opened, picks, same⟩ :=
      going.opens (continues_of_singles recorded.singles) stacked returned
    cases same
    rcases picks with ⟨index, entry, search, there, rfl, rfl⟩ | ⟨nothing, rfl, rfl⟩
    · obtain ⟨_, also, pending⟩ := Frame.exists_of_find_eq_some search
      cases there.symm.trans also
      have settles := settles_of_pick opened.actors numbered opened.marks opened.unselected there
        pending current
      refine .run (kin.withSchedule _) free rfl (.frontier (recorded.cons settles))
        (fun _ _ departs => .deeper departs) ?_
      simp
    · exact .idle (kin.withSchedule _) free rfl rfl recorded opened
        (Frame.isDone_of_find_eq_none nothing) rfl

/-- At a frame that is repeated, the choice depends on whether the actors are the same: if not, it
is a fault, and else an actor is run, the same one except at the last frame of a search. -/
theorem Stands.exists_former
    (stands : Stands policy.randomized former stack position turns)
    (within : position < stack.length) (free : policy.Free)
    (stacked : policy.schedule = .ofStack stack position) (actors : List Snapshot)
    (current : ActorId) (log : Log) :
    ∃ turn, former[position]? = some turn ∧ Numbered turn.actors ∧
      (turn.actors ≠ actors → (choose actors current).Fails (policy, log)
        (.diverged (position + 1) turn.actors actors)) ∧
      (turn.actors = actors → ∃ actor after,
        (choose actors current).Returns (policy, log) (.run actor) after ∧
          (policy.randomized = true ∨ position + 1 < stack.length → turn.decision = .run actor)) := by
  cases stands.ahead within with
  | @settled above below frame turn entry index there settles onward =>
      refine ⟨turn, there, settles.numbered, ?_⟩
      rw [← settles.actors]
      refine ⟨free.fails_of_diverged above stacked, fun same => ?_⟩
      have chosen : (choose actors current).Returns (policy, log) (.run entry.id) _ :=
        (free.choose_recorded_iff above stacked same settles.single).mpr ⟨rfl, rfl⟩
      exact ⟨entry.id, _, chosen, fun _ => settles.decision⟩
  | @reopened below top turn searches there reopened recorded =>
      refine ⟨turn, there, reopened.numbered, ?_⟩
      rw [← reopened.actors]
      refine ⟨free.fails_of_diverged [] stacked, fun same => ?_⟩
      obtain ⟨decision, changed, picks⟩ := exists_picks top current
      have chosen : (choose actors current).Returns (policy, log) decision _ :=
        (free.choose_open_iff stacked same reopened.unselected).mpr ⟨changed, picks, rfl⟩
      rcases picks with ⟨index, entry, search, there, rfl, rfl⟩ | ⟨nothing, -⟩
      · refine ⟨entry.id, _, chosen, ?_⟩
        rintro (walks | deeper)
        · rw [searches] at walks
          cases walks
        · exact absurd deeper (Nat.lt_irrefl _)
      · have undone := reopened.undone
        rw [Frame.isDone_of_find_eq_none nothing] at undone
        cases undone

end Policy.Search

end Interleave
