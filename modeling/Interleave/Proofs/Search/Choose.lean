import Interleave.Policy.Search
import Interleave.Proofs.Race.Backtracks
import Interleave.Proofs.Search.Stack

namespace Interleave

theorem Race.mem_of_choose
    {races : Array Race} {source rest : Random.Source} {race : Race}
    (chosen : Race.choose races source = (some race, rest)) : race ∈ races := by
  unfold choose at chosen
  split at chosen
  · cases chosen
  · exact Array.mem_of_getElem? (congrArg Prod.fst chosen)

namespace Policy

namespace Search

open Attempt

/-- A search that draws nothing at random and has no step limit. -/
structure Systematic (policy : Search) : Prop where
  orderly : policy.randomized = false
  unlimited : policy.stepLimit = none

structure Sleepy (policy : Search) : Prop extends policy.Systematic where
  sleeps : policy.sleepSets = true

def withSchedule (policy : Search) (schedule : Schedule) : Search :=
  { policy with schedule := schedule }

def opening (policy : Search) (below : List Frame) (actors : List Snapshot) : Frame :=
  if policy.sleepSets then Schedule.opening below actors else .ofActors actors

def marked (policy : Search) (current : ActorId) (frame : Frame) : Except Fault Frame :=
  if policy.reduction then frame.markFirstEnabled current.index else .ok frame.markEnabled

def verdict (frame : Frame) : Decision :=
  if frame.entries.any fun entry => entry.enabled && entry.asleep then .sleepSetBlocked
  else .deadlock

def Picks (frame : Frame) (start : ActorId) (decision : Decision) (changed : Frame) : Prop :=
  (∃ index entry, frame.find (start.index % max frame.size 1) Frame.Entry.pending = some index ∧
    frame.get? index = some entry ∧ decision = .run entry.id ∧
    changed = frame.modify index Frame.Entry.select) ∨
  (frame.find (start.index % max frame.size 1) Frame.Entry.pending = none ∧
    decision = verdict frame ∧ changed = frame)

variable {policy : Search} {log : Log} {actors : List Snapshot} {current : ActorId}
  {decision : Decision} {after : Search × Log} {frame : Frame} {above below : List Frame}

@[simp] theorem schedule_withSchedule (policy : Search) (schedule : Schedule) :
    (policy.withSchedule schedule).schedule = schedule := rfl

@[simp] theorem suffix_withSchedule (policy : Search) (schedule : Schedule) :
    (policy.withSchedule schedule).suffix = policy.suffix := rfl

@[simp] theorem withSchedule_withSchedule (policy : Search) (first second : Schedule) :
    (policy.withSchedule first).withSchedule second = policy.withSchedule second := rfl

theorem Systematic.withSchedule (systematic : policy.Systematic) (schedule : Schedule) :
    (policy.withSchedule schedule).Systematic :=
  ⟨systematic.orderly, systematic.unlimited⟩

theorem Sleepy.withSchedule (sleepy : policy.Sleepy) (schedule : Schedule) :
    (policy.withSchedule schedule).Sleepy :=
  ⟨sleepy.toSystematic.withSchedule schedule, sleepy.sleeps⟩

theorem Sleepy.opening_eq (sleepy : policy.Sleepy) :
    policy.opening below actors = Schedule.opening below actors :=
  if_pos sleepy.sleeps

@[simp] theorem returns_onSchedule_iff
    {α : Type} {step : Schedule → Except Fault (α × Schedule)} {answer : α}
    {before after : Search × Log} :
    (onSchedule step).Returns before answer after ↔
      ∃ schedule, step before.1.schedule = .ok (answer, schedule) ∧
        (before.1.withSchedule schedule, before.2) = after := by
  simp only [onSchedule, returns_tryChange_iff, Checked.bind_eq_ok_iff]
  constructor
  · rintro ⟨⟨⟨_, schedule⟩, stepped, same⟩, logs⟩
    simp only [pure, Except.pure, Except.ok.injEq, Prod.mk.injEq] at same
    obtain ⟨rfl, same⟩ := same
    exact ⟨schedule, stepped, Prod.ext same logs⟩
  · rintro ⟨schedule, stepped, same⟩
    subst same
    exact ⟨⟨(answer, schedule), stepped, rfl⟩, rfl⟩

@[simp] theorem fails_onSchedule_iff
    {α : Type} {step : Schedule → Except Fault (α × Schedule)} {before : Search × Log}
    {fault : Fault} :
    (onSchedule step).Fails before fault ↔ step before.1.schedule = .error fault := by
  simp only [onSchedule, fails_tryChange_iff, Checked.bind_eq_error_iff]
  constructor
  · rintro (failed | ⟨_, -, impossible⟩)
    · exact failed
    · cases impossible
  · exact .inl

@[simp] theorem returns_changeTop_iff
    {change : Frame → Except Fault Frame} {before after : Search × Log} :
    (changeTop change).Returns before () after ↔
      ∃ schedule, before.1.schedule.updateFrame before.1.schedule.position change =
        .ok schedule ∧ (before.1.withSchedule schedule, before.2) = after := by
  simp only [changeTop, returns_onSchedule_iff, Checked.bind_eq_ok_iff]
  constructor
  · rintro ⟨schedule, ⟨_, updated, same⟩, rfl⟩
    cases same
    exact ⟨schedule, updated, rfl⟩
  · rintro ⟨schedule, updated, rfl⟩
    exact ⟨schedule, ⟨schedule, updated, rfl⟩, rfl⟩

/-- With sleep sets, a new frame inherits that of the frame below it. Then it gets its branches. -/
theorem markBranches_returns_iff
    (single : policy.sleepSets = true →
      ∀ previous ∈ below.head?, ∃ entry index, previous.selections = [(entry, index)]) :
    (markBranches current).Returns
        (policy.withSchedule (.ofStack (.ofActors actors :: below) (below.length + 1)), log) ()
        after ↔
      ∃ frame, policy.marked current (policy.opening below actors) = .ok frame ∧
        (policy.withSchedule (.ofStack (frame :: below) (below.length + 1)), log) = after := by
  have branches : ∀ opened : Frame, (changeTop (policy.marked current)).Returns
      (policy.withSchedule (.ofStack (opened :: below) (below.length + 1)), log) () after ↔
      ∃ frame, policy.marked current opened = .ok frame ∧
        (policy.withSchedule (.ofStack (frame :: below) (below.length + 1)), log) = after := by
    intro opened
    have updated := Schedule.updateFrame_ofStack opened below (below.length + 1)
      (policy.marked current)
    simp only [returns_changeTop_iff, schedule_withSchedule, Schedule.position_ofStack, updated,
      withSchedule_withSchedule]
    cases policy.marked current opened with
    | error fault => simp [Except.map]
    | ok frame => simp [Except.map]
  have opens : (markBranches current).Returns
      (policy.withSchedule (.ofStack (.ofActors actors :: below) (below.length + 1)), log) ()
      after ↔ (changeTop (policy.marked current)).Returns
        (policy.withSchedule (.ofStack (policy.opening below actors :: below) (below.length + 1)),
          log) () after := by
    have carried (sleeps : policy.sleepSets = true) :=
      Schedule.carrySleepSet_ofStack actors (single sleeps)
    simp only [markBranches, returns_bind_iff, returns_get_iff, opening]
    constructor
    · intro returned
      obtain ⟨_, _, ⟨rfl, rfl⟩, worked⟩ := returned
      change (if policy.sleepSets then _ else _ : Attempt Search Unit).Returns _ _ _ at worked
      split at worked
      · rename_i sleeps
        simp only [returns_bind_iff, returns_onSchedule_iff, schedule_withSchedule, carried sleeps]
          at worked
        obtain ⟨_, _, ⟨_, carries, rfl⟩, changed⟩ := worked
        cases carries
        rw [if_pos sleeps]
        exact changed
      · rename_i awake
        rw [if_neg awake]
        exact worked
    · intro changed
      refine ⟨_, _, ⟨rfl, rfl⟩, ?_⟩
      change (if policy.sleepSets then _ else _ : Attempt Search Unit).Returns _ _ _
      split
      · rename_i sleeps
        rw [if_pos sleeps] at changed
        simp only [returns_bind_iff, returns_onSchedule_iff, schedule_withSchedule, carried sleeps]
        exact ⟨(), _, ⟨_, rfl, rfl⟩, changed⟩
      · rename_i awake
        rw [if_neg awake] at changed
        exact changed
  rw [opens, branches]

def answer (current : ActorId) : Attempt Search Decision := do
  match ← onSchedule fun schedule => schedule.select current with
  | .entry index => return .run (← (← (← get).schedule.top).get index).id
  | .sleepSetBlocked => return .sleepSetBlocked
  | .deadlock => return .deadlock

theorem answer_returns_iff {before : Search × Log} :
    (answer current).Returns before decision after ↔
      ∃ choice selected, before.1.schedule.select current = .ok (choice, selected) ∧
        (before.1.withSchedule selected, before.2) = after ∧
        match choice with
        | .entry index => ∃ top entry, selected.top = .ok top ∧ top.get index = .ok entry ∧
            .run entry.id = decision
        | .sleepSetBlocked => .sleepSetBlocked = decision
        | .deadlock => .deadlock = decision := by
  simp only [answer, returns_bind_iff, returns_onSchedule_iff]
  constructor
  · rintro ⟨choice, _, ⟨selected, selects, rfl⟩, worked⟩
    refine ⟨choice, selected, selects, ?_⟩
    cases choice with
    | entry index =>
        simp only [returns_bind_iff, returns_get_iff, returns_lift_iff, returns_pure_iff] at worked
        obtain ⟨_, _, ⟨rfl, rfl⟩, top, _, ⟨found, rfl⟩, entry, _, ⟨there, rfl⟩, rfl, rfl⟩ := worked
        exact ⟨rfl, top, entry, found, there, rfl⟩
    | sleepSetBlocked =>
        simp only [returns_pure_iff] at worked
        exact worked.symm
    | deadlock =>
        simp only [returns_pure_iff] at worked
        exact worked.symm
  · rintro ⟨choice, selected, selects, rfl, answered⟩
    refine ⟨choice, _, ⟨selected, selects, rfl⟩, ?_⟩
    cases choice with
    | entry index =>
        obtain ⟨top, entry, found, there, rfl⟩ := answered
        simp only [returns_bind_iff, returns_get_iff, returns_lift_iff, returns_pure_iff]
        exact ⟨_, _, ⟨rfl, rfl⟩, top, _, ⟨found, rfl⟩, entry, _, ⟨there, rfl⟩, rfl, rfl⟩
    | sleepSetBlocked => exact returns_pure_iff.mpr ⟨answered, rfl⟩
    | deadlock => exact returns_pure_iff.mpr ⟨answered, rfl⟩

def Free (policy : Search) : Prop :=
  ∀ limit, policy.stepLimit = some limit → policy.schedule.position < limit

theorem Systematic.free (systematic : policy.Systematic) : policy.Free := by
  intro limit limited
  rw [systematic.unlimited] at limited
  cases limited

theorem Free.any_eq_false (free : policy.Free) :
    (policy.stepLimit.any fun limit => limit ≤ policy.schedule.position) = false := by
  cases limited : policy.stepLimit with
  | none => rfl
  | some limit =>
      have within := free limit limited
      simpa using within

def branch (policy : Search) (current : ActorId) : Attempt Search Unit :=
  if policy.randomized then markRandomly current else markBranches current

theorem returns_branch_bind_iff
    (policy : Search) (current : ActorId) (next : Attempt Search Decision)
    {before : Search × Log} :
    (if policy.randomized then do markRandomly current; next
      else do markBranches current; next : Attempt Search Decision).Returns before decision after ↔
      ∃ done between, (policy.branch current).Returns before done between ∧
        next.Returns between decision after := by
  unfold branch
  split
  · exact returns_bind_iff
  · exact returns_bind_iff

/-- The parts of a choice: the actors are recorded or compared, a new frame gets its branches, and
an entry is selected. -/
theorem Free.choose_returns_iff (free : policy.Free) :
    (choose actors current).Returns (policy, log) decision after ↔
      ∃ isNew pushed branched,
        policy.schedule.push actors = .ok (isNew, pushed) ∧
        (if isNew then
          (policy.branch current).Returns (policy.withSchedule pushed, log) () branched
        else (policy.withSchedule pushed, log) = branched) ∧
        (answer current).Returns branched decision after := by
  simp only [choose, returns_bind_iff, returns_get_iff]
  constructor
  · rintro ⟨_, _, ⟨rfl, rfl⟩, worked⟩
    simp only [free.any_eq_false, Bool.false_eq_true, if_false, returns_bind_iff,
      returns_onSchedule_iff] at worked
    obtain ⟨isNew, _, ⟨pushed, pushes, rfl⟩, worked⟩ := worked
    refine ⟨isNew, pushed, ?_⟩
    cases isNew with
    | false => exact ⟨_, pushes, rfl, worked⟩
    | true =>
        obtain ⟨_, branched, marks, answered⟩ :=
          (returns_branch_bind_iff policy current (answer current)).mp worked
        exact ⟨branched, pushes, marks, answered⟩
  · rintro ⟨isNew, pushed, branched, pushes, marks, answered⟩
    refine ⟨policy, (policy, log), ⟨rfl, rfl⟩, ?_⟩
    simp only [free.any_eq_false, Bool.false_eq_true, if_false, returns_bind_iff,
      returns_onSchedule_iff]
    refine ⟨isNew, _, ⟨pushed, pushes, rfl⟩, ?_⟩
    cases isNew with
    | false =>
        cases marks
        exact answered
    | true =>
        exact (returns_branch_bind_iff policy current (answer current)).mpr
          ⟨(), branched, marks, answered⟩

theorem verdict_cases (frame : Frame) :
    verdict frame = .deadlock ∨ verdict frame = .sleepSetBlocked := by
  unfold verdict
  split
  · exact .inr rfl
  · exact .inl rfl

theorem verdict_actor? (frame : Frame) : (verdict frame).actor? = none := by
  rcases verdict_cases frame with deadlock | blocked
  · rw [deadlock]
    rfl
  · rw [blocked]
    rfl

theorem blocked_cases (frame : Frame) :
    (frame.blocked = .sleepSetBlocked ∧ verdict frame = .sleepSetBlocked) ∨
      (frame.blocked = .deadlock ∧ verdict frame = .deadlock) := by
  unfold Frame.blocked verdict
  split
  · exact .inl ⟨rfl, rfl⟩
  · exact .inr ⟨rfl, rfl⟩

theorem answer_open_iff (unselected : frame.selections = []) :
    (answer current).Returns
        (policy.withSchedule (.ofStack (frame :: below) (below.length + 1)), log) decision after ↔
      ∃ changed, Picks frame current decision changed ∧
        (policy.withSchedule (.ofStack (changed :: below) (below.length + 1)), log) = after := by
  rw [answer_returns_iff]
  simp only [schedule_withSchedule, Schedule.select_open unselected, Picks,
    withSchedule_withSchedule]
  cases search : frame.find (current.index % max frame.size 1) Frame.Entry.pending with
  | none =>
      simp only [Except.ok.injEq, Prod.mk.injEq, reduceCtorEq, false_and, exists_false, false_or,
        true_and]
      constructor
      · rintro ⟨_, _, ⟨rfl, rfl⟩, rfl, answered⟩
        refine ⟨frame, ⟨?_, rfl⟩, rfl⟩
        rcases blocked_cases frame with ⟨blocked, judged⟩ | ⟨blocked, judged⟩
        · rw [blocked] at answered
          rw [judged]
          exact answered.symm
        · rw [blocked] at answered
          rw [judged]
          exact answered.symm
      · rintro ⟨_, ⟨rfl, rfl⟩, rfl⟩
        refine ⟨_, _, ⟨rfl, rfl⟩, rfl, ?_⟩
        rcases blocked_cases _ with ⟨blocked, judged⟩ | ⟨blocked, judged⟩
        · rw [blocked, judged]
        · rw [blocked, judged]
  | some index =>
      obtain ⟨entry, there, -⟩ := Frame.exists_of_find_eq_some search
      have chosen : (frame.modify index Frame.Entry.select).get index = .ok entry.select := by
        rw [Frame.get, Frame.get?_modify, there, Option.map_some, if_pos rfl]
      simp only [Except.ok.injEq, Prod.mk.injEq, Option.some.injEq, reduceCtorEq, false_and,
        or_false]
      constructor
      · rintro ⟨_, _, ⟨rfl, rfl⟩, rfl, top, other, found, got, rfl⟩
        cases Schedule.top_ofStack.symm.trans found
        cases chosen.symm.trans got
        exact ⟨_, ⟨index, entry, rfl, there, rfl, rfl⟩, rfl⟩
      · rintro ⟨_, ⟨_, other, rfl, also, rfl, rfl⟩, rfl⟩
        cases there.symm.trans also
        exact ⟨_, _, ⟨rfl, rfl⟩, rfl, _, entry.select, Schedule.top_ofStack, chosen, rfl⟩

theorem answer_recorded_iff
    {entry : Frame.Entry} {index : Nat} (single : frame.selections = [(entry, index)]) :
    (answer current).Returns
        (policy.withSchedule (.ofStack (above ++ frame :: below) (below.length + 1)), log)
        decision after ↔
      .run entry.id = decision ∧
        (policy.withSchedule (.ofStack (above ++ frame :: below) (below.length + 1)), log) =
          after := by
  have found : (Schedule.ofStack (above ++ frame :: below) (below.length + 1)).top =
      .ok frame := Schedule.frame_ofStack above
  have chosen : frame.get index = .ok entry := by
    rw [Frame.get, Frame.get?_of_single single]
  rw [answer_returns_iff]
  simp only [schedule_withSchedule, Schedule.select_recorded single, Except.ok.injEq,
    Prod.mk.injEq, withSchedule_withSchedule]
  constructor
  · rintro ⟨_, _, ⟨rfl, rfl⟩, rfl, top, other, foundTop, got, rfl⟩
    cases found.symm.trans foundTop
    cases chosen.symm.trans got
    exact ⟨rfl, rfl⟩
  · rintro ⟨rfl, rfl⟩
    exact ⟨_, _, ⟨rfl, rfl⟩, rfl, frame, entry, found, chosen, rfl⟩

theorem Free.choose_new_iff
    (free : policy.Free) (orderly : policy.randomized = false)
    (stacked : policy.schedule = .ofStack below below.length)
    (singles : policy.sleepSets = true →
      ∀ frame ∈ below, ∃ entry index, frame.selections = [(entry, index)])
    (unselected : ∀ frame, policy.marked current (policy.opening below actors) = .ok frame →
      frame.selections = []) :
    (choose actors current).Returns (policy, log) decision after ↔
      ∃ frame changed, policy.marked current (policy.opening below actors) = .ok frame ∧
        Picks frame current decision changed ∧
        (policy.withSchedule (.ofStack (changed :: below) (below.length + 1)), log) = after := by
  have branches : policy.branch current = markBranches current := by
    simp only [branch, orderly, Bool.false_eq_true, if_false]
  have single (sleeps : policy.sleepSets = true) :
      ∀ previous ∈ below.head?, ∃ entry index, previous.selections = [(entry, index)] :=
    fun previous first => singles sleeps previous (List.mem_of_head? first)
  rw [free.choose_returns_iff]
  simp only [stacked, Schedule.push_new, Except.ok.injEq, Prod.mk.injEq, branches]
  constructor
  · rintro ⟨_, _, branched, ⟨rfl, rfl⟩, marks, answered⟩
    rw [if_pos rfl, markBranches_returns_iff single] at marks
    obtain ⟨frame, marks, rfl⟩ := marks
    obtain ⟨changed, picks, rfl⟩ := (answer_open_iff (unselected frame marks)).mp answered
    exact ⟨frame, changed, marks, picks, rfl⟩
  · rintro ⟨frame, changed, marks, picks, rfl⟩
    refine ⟨_, _, (policy.withSchedule (.ofStack (frame :: below) (below.length + 1)), log),
      ⟨rfl, rfl⟩, ?_, ?_⟩
    · rw [if_pos rfl, markBranches_returns_iff single]
      exact ⟨frame, marks, rfl⟩
    · exact (answer_open_iff (unselected frame marks)).mpr ⟨changed, picks, rfl⟩

theorem choose_new_iff
    (systematic : policy.Systematic) (stacked : policy.schedule = .ofStack below below.length)
    (singles : ∀ frame ∈ below, ∃ entry index, frame.selections = [(entry, index)])
    (unselected : ∀ frame, policy.marked current (policy.opening below actors) = .ok frame →
      frame.selections = []) :
    (choose actors current).Returns (policy, log) decision after ↔
      ∃ frame changed, policy.marked current (policy.opening below actors) = .ok frame ∧
        Picks frame current decision changed ∧
        (policy.withSchedule (.ofStack (changed :: below) (below.length + 1)), log) = after :=
  systematic.free.choose_new_iff systematic.orderly stacked (fun _ => singles) unselected

theorem Sleepy.choose_new_iff
    (sleepy : policy.Sleepy) (stacked : policy.schedule = .ofStack below below.length)
    (singles : ∀ frame ∈ below, ∃ entry index, frame.selections = [(entry, index)])
    (unselected : ∀ frame, policy.marked current (Schedule.opening below actors) = .ok frame →
      frame.selections = []) :
    (choose actors current).Returns (policy, log) decision after ↔
      ∃ frame changed, policy.marked current (Schedule.opening below actors) = .ok frame ∧
        Picks frame current decision changed ∧
        (policy.withSchedule (.ofStack (changed :: below) (below.length + 1)), log) = after := by
  rw [← sleepy.opening_eq] at unselected ⊢
  exact Search.choose_new_iff sleepy.toSystematic stacked singles unselected

theorem Free.choose_open_iff
    (free : policy.Free) (stacked : policy.schedule = .ofStack (frame :: below) below.length)
    (same : frame.actors = actors) (unselected : frame.selections = []) :
    (choose actors current).Returns (policy, log) decision after ↔
      ∃ changed, Picks frame current decision changed ∧
        (policy.withSchedule (.ofStack (changed :: below) (below.length + 1)), log) = after := by
  have pushes : policy.schedule.push actors =
      .ok (false, .ofStack (frame :: below) (below.length + 1)) := by
    rw [stacked]
    exact Schedule.push_recorded [] below same
  rw [free.choose_returns_iff]
  simp only [pushes, Except.ok.injEq, Prod.mk.injEq]
  constructor
  · rintro ⟨_, _, branched, ⟨rfl, rfl⟩, rfl, answered⟩
    exact (answer_open_iff unselected).mp answered
  · intro picked
    exact ⟨_, _, _, ⟨rfl, rfl⟩, rfl, (answer_open_iff unselected).mpr picked⟩

theorem choose_open_iff
    (systematic : policy.Systematic)
    (stacked : policy.schedule = .ofStack (frame :: below) below.length)
    (same : frame.actors = actors) (unselected : frame.selections = []) :
    (choose actors current).Returns (policy, log) decision after ↔
      ∃ changed, Picks frame current decision changed ∧
        (policy.withSchedule (.ofStack (changed :: below) (below.length + 1)), log) = after :=
  systematic.free.choose_open_iff stacked same unselected

theorem Free.choose_recorded_iff
    (free : policy.Free) (above : List Frame) {entry : Frame.Entry} {index : Nat}
    (stacked : policy.schedule = .ofStack (above ++ frame :: below) below.length)
    (same : frame.actors = actors) (single : frame.selections = [(entry, index)]) :
    (choose actors current).Returns (policy, log) decision after ↔
      .run entry.id = decision ∧
        (policy.withSchedule (.ofStack (above ++ frame :: below) (below.length + 1)), log) =
          after := by
  have pushes : policy.schedule.push actors =
      .ok (false, .ofStack (above ++ frame :: below) (below.length + 1)) := by
    rw [stacked]
    exact Schedule.push_recorded above below same
  rw [free.choose_returns_iff]
  simp only [pushes, Except.ok.injEq, Prod.mk.injEq]
  constructor
  · rintro ⟨_, _, branched, ⟨rfl, rfl⟩, rfl, answered⟩
    exact (answer_recorded_iff single).mp answered
  · intro answered
    exact ⟨_, _, _, ⟨rfl, rfl⟩, rfl, (answer_recorded_iff single).mpr answered⟩

theorem choose_recorded_iff
    (above : List Frame) {entry : Frame.Entry} {index : Nat} (systematic : policy.Systematic)
    (stacked : policy.schedule = .ofStack (above ++ frame :: below) below.length)
    (same : frame.actors = actors) (single : frame.selections = [(entry, index)]) :
    (choose actors current).Returns (policy, log) decision after ↔
      .run entry.id = decision ∧
        (policy.withSchedule (.ofStack (above ++ frame :: below) (below.length + 1)), log) =
          after :=
  systematic.free.choose_recorded_iff above stacked same single

theorem advance_returns_iff
    {more : Bool} (systematic : policy.Systematic) (plain : policy.reduction = false) :
    advance.Returns (policy, log) more after ↔
      ∃ schedule, policy.schedule.advance = .ok (more, schedule) ∧
        (policy.withSchedule schedule, log) = after := by
  simp only [advance, returns_bind_iff, returns_get_iff]
  constructor
  · rintro ⟨_, _, ⟨rfl, rfl⟩, worked⟩
    simp only [systematic.orderly, plain, Bool.false_eq_true, if_false] at worked
    exact returns_onSchedule_iff.mp worked
  · intro moved
    refine ⟨policy, (policy, log), ⟨rfl, rfl⟩, ?_⟩
    simp only [systematic.orderly, plain, Bool.false_eq_true, if_false]
    exact returns_onSchedule_iff.mpr moved

theorem analyze_returns
    {recording : Bool} {before : Search × Log} {causality : Causality}
    (returned : (analyze recording).Returns before causality after) :
    ∃ analyzed, (Analysis.run recording).Returns (⟨before.1.schedule, .empty⟩, before.2) ()
        (analyzed, after.2) ∧
      after.1 = before.1.withSchedule analyzed.schedule ∧ causality = analyzed.causality := by
  simp only [analyze, returns_bind_iff, returns_get_iff, returns_liftLog_iff] at returned
  obtain ⟨_, _, ⟨rfl, rfl⟩, ⟨result, analyzed⟩, between, ⟨ran, rest⟩, returned⟩ := returned
  simp only [modifySchedule, returns_modify_iff, returns_ofExcept_iff, returns_pure_iff] at returned
  obtain ⟨_, _, rfl, _, _, ⟨rfl, rfl⟩, rfl, rfl⟩ := returned
  exact ⟨analyzed, ran, by rw [rest]; rfl, rfl⟩

theorem analyze_fails
    {recording : Bool} {before : Search × Log} {fault : Fault}
    (failed : (analyze recording).Fails before fault) :
    (Analysis.run recording).Fails (⟨before.1.schedule, .empty⟩, before.2) fault := by
  simp only [analyze, modifySchedule, fails_bind_iff, fails_get_iff, returns_get_iff,
    fails_liftLog_iff, returns_liftLog_iff, fails_modify_iff, returns_modify_iff,
    fails_ofExcept_iff, fails_pure_iff, false_or, and_false, exists_false, or_false] at failed
  obtain ⟨_, _, ⟨rfl, rfl⟩, ⟨result, analyzed⟩, _, ⟨ran, -⟩, _, _, -, rfl⟩ := failed
  unfold Attempt.Fails outcome
  rw [ran]

theorem exists_analyzed_of_advance
    {more : Bool} (orderly : policy.randomized = false)
    (returned : advance.Returns (policy, log) more after) :
    ∃ analyzed schedule : Schedule,
      (analyzed = policy.schedule ∨ policy.reduction = true ∧ ∃ last,
        (Analysis.run false).Returns (⟨policy.schedule, .empty⟩, log) () last ∧
          last.1.schedule = analyzed) ∧
      analyzed.advance = .ok (more, schedule) ∧ after.1 = policy.withSchedule schedule := by
  simp only [advance, returns_bind_iff, returns_get_iff] at returned
  obtain ⟨_, _, ⟨rfl, rfl⟩, worked⟩ := returned
  simp only [orderly, Bool.false_eq_true, if_false] at worked
  split at worked
  · rename_i reduces
    obtain ⟨causality, between, analyzes, moved⟩ := returns_bind_iff.mp worked
    obtain ⟨analyzed, ran, rest, -⟩ := analyze_returns analyzes
    obtain ⟨schedule, moves, rfl⟩ := returns_onSchedule_iff.mp moved
    rw [rest] at moves
    exact ⟨analyzed.schedule, schedule, .inr ⟨reduces, _, ran, rfl⟩, moves, by rw [rest]; rfl⟩
  · obtain ⟨schedule, moves, rfl⟩ := returns_onSchedule_iff.mp worked
    exact ⟨policy.schedule, schedule, .inl rfl, moves, rfl⟩

theorem advance_returns_of_orderly
    {more : Bool} (orderly : policy.randomized = false) (marks : policy.schedule.MarksEnabled)
    (returned : advance.Returns (policy, log) more after) :
    ∃ analyzed schedule : Schedule, analyzed.unmark = policy.schedule.unmark ∧
      analyzed.MarksEnabled ∧ (policy.reduction = false → analyzed = policy.schedule) ∧
      analyzed.advance = .ok (more, schedule) ∧ after.1 = policy.withSchedule schedule := by
  obtain ⟨analyzed, schedule, rfl | ⟨reduces, last, ran, rfl⟩, moves, rest⟩ :=
    exists_analyzed_of_advance orderly returned
  · exact ⟨_, schedule, rfl, marks, fun _ => rfl, moves, rest⟩
  · refine ⟨_, schedule, Analysis.unmark_of_run ran, Analysis.marksEnabled_of_run marks ran, ?_,
      moves, rest⟩
    intro plain
    rw [plain] at reduces
    cases reduces

theorem advance_returns
    {more : Bool} (systematic : policy.Systematic) (marks : policy.schedule.MarksEnabled)
    (returned : advance.Returns (policy, log) more after) :
    ∃ analyzed schedule : Schedule, analyzed.unmark = policy.schedule.unmark ∧
      analyzed.MarksEnabled ∧ (policy.reduction = false → analyzed = policy.schedule) ∧
      analyzed.advance = .ok (more, schedule) ∧ after.1 = policy.withSchedule schedule :=
  advance_returns_of_orderly systematic.orderly marks returned

end Search

end Policy

end Interleave
