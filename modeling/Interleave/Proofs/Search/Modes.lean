import Interleave.Proofs.Search.Marked

namespace Interleave

namespace Policy.Search

open Attempt

structure Kin (policy next : Search) : Prop where
  reduction : next.reduction = policy.reduction
  sleepSets : next.sleepSets = policy.sleepSets
  randomized : next.randomized = policy.randomized
  stepLimit : next.stepLimit = policy.stepLimit

def inherits (policy : Search) : Bool := policy.sleepSets && !policy.randomized

/-- A new frame with its branches. It has none only if every enabled actor sleeps, and nobody sleeps
unless the sleep set of the frame below is inherited. -/
structure Opened (inherits : Bool) (actors : List Snapshot) (frame : Frame) : Prop where
  actors : frame.actors = actors
  unselected : frame.selections = []
  marks : frame.MarksEnabled
  asleep : frame.isDone = true → ∀ index entry, frame.get? index = some entry →
    entry.enabled = true → entry.asleep = true
  awake : inherits = false → ∀ index, ¬ frame.Sleeps index

def Continues (policy : Search) (below : List Frame) : Prop :=
  policy.inherits = true →
    ∀ previous ∈ below.head?, ∃ entry index, previous.selections = [(entry, index)]

/-- The numbers of the actors that are scanned from the current one on fit into a word. -/
def Room (policy : Search) (actors : List Snapshot) (current : ActorId) : Prop :=
  policy.randomized = false → policy.reduction = true → current.index + actors.length ≤ wordSize

variable {policy next : Search} {log : Log} {actors : List Snapshot} {current : ActorId}
  {decision : Decision} {after : Search × Log} {frame : Frame} {above below : List Frame}
  {index : Nat} {entry : Frame.Entry}

theorem Kin.refl (policy : Search) : policy.Kin policy := ⟨rfl, rfl, rfl, rfl⟩

theorem Kin.trans {last : Search} (kin : policy.Kin next) (also : next.Kin last) :
    policy.Kin last :=
  ⟨also.reduction.trans kin.reduction, also.sleepSets.trans kin.sleepSets,
    also.randomized.trans kin.randomized, also.stepLimit.trans kin.stepLimit⟩

theorem Kin.withSchedule (kin : policy.Kin next) (schedule : Schedule) :
    policy.Kin (next.withSchedule schedule) :=
  ⟨kin.reduction, kin.sleepSets, kin.randomized, kin.stepLimit⟩

theorem kin_withSchedule (policy : Search) (schedule : Schedule) :
    policy.Kin (policy.withSchedule schedule) := (Kin.refl policy).withSchedule schedule

theorem plain_of_get?_ofActors (found : (Frame.ofActors actors).get? index = some entry) :
    entry.selected = false ∧ entry.asleep = false ∧ entry.backtrack = false := by
  rw [Frame.get?_ofActors] at found
  obtain ⟨snapshot, -, rfl⟩ := Option.map_eq_some_iff.mp found
  exact ⟨rfl, rfl, rfl⟩

theorem not_sleeps_ofActors (actors : List Snapshot) (index : Nat) :
    ¬ (Frame.ofActors actors).Sleeps index := by
  rintro ⟨entry, found, asleep⟩
  rw [(plain_of_get?_ofActors found).2.1] at asleep
  cases asleep

theorem opened_of_marked
    (orderly : policy.randomized = false)
    (marks : policy.marked current (policy.opening below actors) = .ok frame) :
    Opened policy.inherits actors frame where
  actors := (actors_of_marked marks).trans actors_opening
  unselected := selections_of_marked marks selections_opening
  marks := marksEnabled_of_marked marks marksEnabled_opening
  asleep done _ _ := asleep_of_marked marks done
  awake := by
    intro never index
    have sleepless : policy.sleepSets = false := by simpa [inherits, orderly] using never
    rw [sleeps_of_marked marks, opening, sleepless]
    exact not_sleeps_ofActors actors index

section Walk

theorem selections_ofActors (actors : List Snapshot) : (Frame.ofActors actors).selections = [] :=
  Frame.selections_eq_nil_iff.mpr fun _ _ found => (plain_of_get?_ofActors found).1

theorem marksEnabled_ofActors (actors : List Snapshot) :
    (Frame.ofActors actors).MarksEnabled := by
  intro index entry found marked
  rw [(plain_of_get?_ofActors found).2.2] at marked
  cases marked

theorem opened_of_stuck
    (disabled : ∀ index entry, (Frame.ofActors actors).get? index = some entry →
      entry.enabled = false) (inherits : Bool) : Opened inherits actors (.ofActors actors) where
  actors := Frame.actors_ofActors actors
  unselected := selections_ofActors actors
  marks := marksEnabled_ofActors actors
  asleep := by
    intro _ index entry found enabled
    rw [disabled index entry found] at enabled
    cases enabled
  awake _ := not_sleeps_ofActors actors

theorem opened_of_mark
    (found : (Frame.ofActors actors).get? index = some entry) (enabled : entry.enabled = true)
    (inherits : Bool) :
    Opened inherits actors ((Frame.ofActors actors).modify index Frame.Entry.mark) where
  actors := by rw [Frame.actors_modify _ _ Frame.Entry.mark fun _ => rfl, Frame.actors_ofActors]
  unselected :=
    Frame.selections_modify_eq_nil _ (fun _ => rfl) (selections_ofActors actors)
  marks := (marksEnabled_ofActors actors).mark found enabled
  asleep := by
    intro done
    have marked : ((Frame.ofActors actors).modify index Frame.Entry.mark).get? index =
        some entry.mark := by rw [Frame.get?_modify, found, Option.map_some, if_pos rfl]
    have asleep := Frame.isDone_iff.mp done _ (List.mem_of_getElem? marked) rfl
    rw [show entry.mark.asleep = false from (plain_of_get?_ofActors found).2.1] at asleep
    cases asleep
  awake _ index := by
    rw [Frame.sleeps_modify_iff Frame.Entry.mark fun _ => rfl]
    exact not_sleeps_ofActors actors index

theorem mem_walkChoices (member : index ∈ walkChoices frame) :
    ∃ entry, frame.get? index = some entry ∧ entry.enabled = true := by
  obtain ⟨⟨entry, position⟩, among, rfl⟩ := List.mem_map.mp member
  have listed : (entry, position) ∈ frame.entries.zipIdx.filter fun item => item.1.enabled := by
    split at among
    · exact among
    · exact (List.mem_filter.mp among).1
  obtain ⟨inside, enabled⟩ := List.mem_filter.mp listed
  exact ⟨entry, List.mem_zipIdx_iff_getElem?.mp inside, enabled⟩

theorem disabled_of_walkChoices
    (none : walkChoices frame = []) (found : frame.get? index = some entry) :
    entry.enabled = false := by
  have nobody : (frame.entries.zipIdx.filter fun item => item.1.enabled) = [] := by
    have chosen := List.map_eq_nil_iff.mp none
    split at chosen
    · exact chosen
    · rename_i some
      exact absurd (by rw [chosen]; rfl) some
  have unable := List.filter_eq_nil_iff.mp nobody (entry, index)
    (List.mem_zipIdx_iff_getElem?.mpr found)
  simpa using unable

def Branches (attempt : Attempt Search Unit) (policy : Search) (log : Log)
    (actors : List Snapshot) (below : List Frame) : Prop :=
  ∃ next written frame, attempt.Returns
      (policy.withSchedule (.ofStack (.ofActors actors :: below) (below.length + 1)), log) ()
      (next.withSchedule (.ofStack (frame :: below) (below.length + 1)), written) ∧
    policy.Kin next ∧ Opened policy.inherits actors frame

theorem markTop_returns (policy : Search) (log : Log) (frame : Frame) (below : List Frame)
    (index : Nat) :
    (markTop index).Returns
      (policy.withSchedule (.ofStack (frame :: below) (below.length + 1)), log) ()
      (policy.withSchedule
        (.ofStack (frame.modify index Frame.Entry.mark :: below) (below.length + 1)), log) :=
  returns_changeTop_iff.mpr ⟨_, Schedule.updateFrame_ofStack frame below _ _, rfl⟩

theorem drawBranch_returns
    {draw : Nat × Random.Source} (some : (walkChoices frame).isEmpty = false)
    (drawn : policy.source.below .wide (walkChoices frame).length = draw)
    (marks : (markTop ((walkChoices frame).getD draw.1 0)).Returns
      ({ policy with source := draw.2 },
        log.add (.randomPick ((walkChoices frame).getD draw.1 0) current)) () after) :
    (drawBranch current frame).Returns (policy, log) () after := by
  subst drawn
  simp only [drawBranch, some, Bool.false_eq_true, if_false]
  refine returns_bind_iff.mpr ⟨policy, (policy, log), returns_get_iff.mpr ⟨rfl, rfl⟩, ?_⟩
  refine returns_bind_iff.mpr ⟨⟨⟩, _, returns_modify_iff.mpr rfl, ?_⟩
  exact returns_bind_iff.mpr ⟨⟨⟩, _, returns_log_iff.mpr rfl, marks⟩

theorem branches_drawBranch (policy : Search) (log : Log) (actors : List Snapshot)
    (current : ActorId) (below : List Frame) :
    Branches (drawBranch current (.ofActors actors)) policy log actors below := by
  by_cases none : (walkChoices (.ofActors actors)).isEmpty = true
  · have stuck : Opened policy.inherits actors (.ofActors actors) :=
      opened_of_stuck (fun _ _ => disabled_of_walkChoices (List.isEmpty_iff.mp none)) _
    refine ⟨policy, log, .ofActors actors, ?_, .refl policy, stuck⟩
    simp only [drawBranch, none, if_true]
    exact returns_pure_iff.mpr ⟨rfl, rfl⟩
  · obtain ⟨draw, drawn⟩ :
        ∃ draw, policy.source.below .wide (walkChoices (.ofActors actors)).length = draw := ⟨_, rfl⟩
    have inside : draw.1 < (walkChoices (.ofActors actors)).length := by
      rw [← drawn]
      exact policy.source.below_lt .wide (List.length_pos_iff.mpr (mt List.isEmpty_iff.mpr none))
    have member : (walkChoices (.ofActors actors)).getD draw.1 0 ∈
        walkChoices (.ofActors actors) := by
      rw [List.getD_eq_getElem?_getD, List.getElem?_eq_getElem inside]
      exact List.getElem_mem inside
    obtain ⟨entry, there, enabled⟩ := mem_walkChoices member
    have marks := markTop_returns { policy with source := draw.2 }
      (log.add (.randomPick ((walkChoices (.ofActors actors)).getD draw.1 0) current))
      (.ofActors actors) below ((walkChoices (.ofActors actors)).getD draw.1 0)
    exact ⟨_, _, _, drawBranch_returns (by simpa using none) drawn marks,
      ⟨rfl, rfl, rfl, rfl⟩, opened_of_mark there enabled _⟩

theorem branches_markRandomly (policy : Search) (log : Log) (actors : List Snapshot)
    (current : ActorId) (below : List Frame) :
    Branches (markRandomly current) policy log actors below := by
  have top : (policy.withSchedule
      (.ofStack (.ofActors actors :: below) (below.length + 1))).schedule.top =
        .ok (.ofActors actors) := Schedule.top_ofStack
  cases suffix : policy.suffix with
  | nil =>
      obtain ⟨next, written, frame, drawn, opened⟩ :=
        branches_drawBranch policy log actors current below
      refine ⟨next, written, frame, ?_, opened⟩
      simp only [markRandomly, returns_bind_iff, returns_get_iff, returns_lift_iff]
      refine ⟨_, _, ⟨rfl, rfl⟩, _, _, ⟨top, rfl⟩, ?_⟩
      rw [suffix_withSchedule, suffix]
      exact drawn
  | cons following rest =>
      by_cases able : ((Frame.ofActors actors).get? following.index).any Frame.Entry.enabled = true
      · obtain ⟨entry, there, enabled⟩ := (Option.any_eq_true _ _).mp able
        refine ⟨{ policy with suffix := rest }, log, _, ?_, ⟨rfl, rfl, rfl, rfl⟩,
          opened_of_mark there enabled _⟩
        simp only [markRandomly, returns_bind_iff, returns_get_iff, returns_lift_iff]
        refine ⟨_, _, ⟨rfl, rfl⟩, _, _, ⟨top, rfl⟩, ?_⟩
        rw [suffix_withSchedule, suffix]
        simp only [able, if_true, returns_bind_iff, returns_set_iff]
        exact ⟨⟨⟩, _, rfl, markTop_returns { policy with suffix := rest } log _ below _⟩
      · obtain ⟨next, written, frame, drawn, kin, opened⟩ :=
          branches_drawBranch { policy with suffix := [] }
            (log.add (.reversalDiverged following)) actors current below
        refine ⟨next, written, frame, ?_, ⟨kin.reduction, kin.sleepSets, kin.randomized,
          kin.stepLimit⟩, opened⟩
        simp only [markRandomly, returns_bind_iff, returns_get_iff, returns_lift_iff]
        refine ⟨_, _, ⟨rfl, rfl⟩, _, _, ⟨top, rfl⟩, ?_⟩
        rw [suffix_withSchedule, suffix]
        simp only [able, Bool.false_eq_true, if_false, returns_bind_iff, returns_set_iff,
          returns_log_iff]
        exact ⟨⟨⟩, _, rfl, ⟨⟩, _, rfl, drawn⟩

end Walk

theorem continues_of_singles
    (singles : ∀ frame ∈ below, ∃ entry index, frame.selections = [(entry, index)]) :
    policy.Continues below :=
  fun _ previous first => singles previous (List.mem_of_head? first)

section New

variable (continues : policy.Continues below)

include continues

theorem Continues.single
    (orderly : policy.randomized = false) (sleeps : policy.sleepSets = true) :
    ∀ previous ∈ below.head?, ∃ entry index, previous.selections = [(entry, index)] :=
  continues (by rw [inherits, orderly, sleeps]; rfl)

theorem exists_branch (room : policy.Room actors current) (log : Log) :
    Branches (policy.branch current) policy log actors below := by
  unfold branch
  split
  · exact branches_markRandomly policy log actors current below
  · rename_i random
    have orderly : policy.randomized = false := Bool.eq_false_iff.mpr random
    have fits : policy.reduction = true →
        current.index + (policy.opening below actors).size ≤ wordSize := by
      rw [← Frame.length_actors, actors_opening]
      exact room orderly
    obtain ⟨frame, marks⟩ := exists_marked fits
    exact ⟨policy, log, frame, (markBranches_returns_iff (continues.single orderly)).mpr
      ⟨frame, marks, rfl⟩, .refl policy, opened_of_marked orderly marks⟩

theorem opened_of_branch
    (returned : (policy.branch current).Returns
      (policy.withSchedule (.ofStack (.ofActors actors :: below) (below.length + 1)), log) ()
      after) :
    ∃ next written frame,
      after = (next.withSchedule (.ofStack (frame :: below) (below.length + 1)), written) ∧
        policy.Kin next ∧ Opened policy.inherits actors frame := by
  by_cases random : policy.randomized = true
  · rw [branch, if_pos random] at returned
    obtain ⟨next, written, frame, marks, kin, opened⟩ :=
      branches_markRandomly policy log actors current below
    exact ⟨next, written, frame, (marks.unique returned).2.symm ▸ rfl, kin, opened⟩
  · have orderly : policy.randomized = false := Bool.eq_false_iff.mpr random
    rw [branch, if_neg random, markBranches_returns_iff (continues.single orderly)] at returned
    obtain ⟨frame, marks, rfl⟩ := returned
    exact ⟨policy, log, frame, rfl, .refl policy, opened_of_marked orderly marks⟩

variable (free : policy.Free) (stacked : policy.schedule = .ofStack below below.length)

include free stacked

theorem Free.opens (returned : (choose actors current).Returns (policy, log) decision after) :
    ∃ next written frame changed, policy.Kin next ∧ Opened policy.inherits actors frame ∧
      Picks frame current decision changed ∧
      after = (next.withSchedule (.ofStack (changed :: below) (below.length + 1)), written) := by
  obtain ⟨isNew, pushed, branched, pushes, marks, answered⟩ := free.choose_returns_iff.mp returned
  rw [stacked, Schedule.push_new] at pushes
  cases pushes
  rw [if_pos rfl] at marks
  obtain ⟨next, written, frame, rfl, kin, opened⟩ := opened_of_branch continues marks
  obtain ⟨changed, picks, rfl⟩ := (answer_open_iff opened.unselected).mp answered
  exact ⟨next, written, frame, changed, kin, opened, picks, rfl⟩

theorem Free.exists_choose_new (room : policy.Room actors current) (log : Log) :
    ∃ decision after, (choose actors current).Returns (policy, log) decision after := by
  obtain ⟨next, written, frame, marks, kin, opened⟩ := exists_branch continues room log
  obtain ⟨decision, changed, picks⟩ := exists_picks frame current
  refine ⟨decision, _, free.choose_returns_iff.mpr ⟨true, _, _, ?_, by rw [if_pos rfl]; exact marks,
    (answer_open_iff opened.unselected).mpr ⟨changed, picks, rfl⟩⟩⟩
  rw [stacked, Schedule.push_new]

end New

theorem choose_of_limited
    {limit : Nat} (limited : policy.stepLimit = some limit)
    (reached : limit ≤ policy.schedule.position) :
    (choose actors current).Returns (policy, log) .hitStepLimit (policy, log) := by
  simp only [choose, returns_bind_iff, returns_get_iff]
  refine ⟨policy, (policy, log), ⟨rfl, rfl⟩, ?_⟩
  simp only [limited, Option.any_some, decide_eq_true reached, if_true]
  exact returns_pure_iff.mpr ⟨rfl, rfl⟩

section Fails

variable {fault : Fault} {pushed : Schedule} (free : policy.Free)

include free

theorem Free.fails_of_push (pushes : policy.schedule.push actors = .error fault) :
    (choose actors current).Fails (policy, log) fault := by
  simp only [choose, fails_bind_iff, fails_get_iff, returns_get_iff, false_or]
  refine ⟨policy, (policy, log), ⟨rfl, rfl⟩, ?_⟩
  simp only [free.any_eq_false, Bool.false_eq_true, if_false, fails_bind_iff, fails_onSchedule_iff]
  exact .inl pushes

theorem Free.fails_of_diverged
    (above : List Frame)
    (stacked : policy.schedule = .ofStack (above ++ frame :: below) below.length)
    (differs : frame.actors ≠ actors) :
    (choose actors current).Fails (policy, log)
      (.diverged (below.length + 1) frame.actors actors) := by
  refine free.fails_of_push ?_
  rw [stacked]
  exact Schedule.push_diverged above below differs

theorem Free.fails_of_branch
    (pushes : policy.schedule.push actors = .ok (true, pushed))
    (fails : (policy.branch current).Fails (policy.withSchedule pushed, log) fault) :
    (choose actors current).Fails (policy, log) fault := by
  simp only [choose, fails_bind_iff, fails_get_iff, returns_get_iff, false_or]
  refine ⟨policy, (policy, log), ⟨rfl, rfl⟩, ?_⟩
  simp only [free.any_eq_false, Bool.false_eq_true, if_false, fails_bind_iff]
  refine .inr ⟨true, _, returns_onSchedule_iff.mpr ⟨pushed, pushes, rfl⟩, ?_⟩
  unfold branch at fails
  rw [if_pos rfl]
  split
  · rename_i random
    rw [if_pos random] at fails
    exact fails_bind_iff.mpr (.inl fails)
  · rename_i orderly
    rw [if_neg orderly] at fails
    exact fails_bind_iff.mpr (.inl fails)

theorem Free.fails_of_answer
    (pushes : policy.schedule.push actors = .ok (false, pushed))
    (fails : (answer current).Fails (policy.withSchedule pushed, log) fault) :
    (choose actors current).Fails (policy, log) fault := by
  simp only [choose, fails_bind_iff, fails_get_iff, returns_get_iff, false_or]
  refine ⟨policy, (policy, log), ⟨rfl, rfl⟩, ?_⟩
  simp only [free.any_eq_false, Bool.false_eq_true, if_false, fails_bind_iff]
  refine .inr ⟨false, _, returns_onSchedule_iff.mpr ⟨pushed, pushes, rfl⟩, ?_⟩
  rw [if_neg Bool.false_ne_true]
  exact fails

end Fails

end Policy.Search

end Interleave
