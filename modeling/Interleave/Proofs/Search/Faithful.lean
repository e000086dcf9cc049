import Interleave.Proofs.Search.Exploring

namespace Interleave

namespace Frame

theorem tidy_findWithin (frame : Frame) (start : Nat) (property : Entry → Bool) :
    Checked.Tidy (frame.findWithin start property) := by
  unfold findWithin
  dsimp only
  split
  · exact Checked.tidy_ok _
  · split
    · rintro _ ⟨⟩
      rfl
    · exact Checked.tidy_ok _

end Frame

namespace Schedule

theorem exists_of_frame_ofStack
    {stack : List Frame} {position step : Nat} {frame : Frame}
    (found : (ofStack stack position).frame step = .ok frame) :
    ∃ above below, stack = above ++ frame :: below ∧ below.length + 1 = step := by
  obtain ⟨positive, there⟩ := frame_eq_ok_iff.mp found
  have listed : stack.reverse[step - 1]? = some frame := by simpa [ofStack] using there
  obtain ⟨inside, same⟩ := List.getElem?_eq_some_iff.mp listed
  have length : (stack.reverse.take (step - 1)).length = step - 1 := by
    rw [List.length_take]
    omega
  have whole : stack.reverse =
      stack.reverse.take (step - 1) ++ frame :: stack.reverse.drop (step - 1 + 1) := by
    rw [← same, ← List.drop_eq_getElem_cons inside, List.take_append_drop]
  generalize stack.reverse.take (step - 1) = first at length whole
  have whole := congrArg List.reverse whole
  rw [List.reverse_reverse, List.reverse_append, List.reverse_cons, List.append_assoc] at whole
  exact ⟨_, first.reverse, whole, by rw [List.length_reverse]; omega⟩

theorem tidy_updateFrame
    {schedule : Schedule} {step : Nat} {change : Frame → Except Fault Frame}
    (tidy : ∀ frame, Checked.Tidy (change frame)) :
    Checked.Tidy (schedule.updateFrame step change) :=
  (schedule.tidy_frame step).bind fun frame _ => (tidy frame).bind fun _ _ => Checked.tidy_pure _

end Schedule

namespace Race

open Checked

variable {schedule : Schedule}

theorem tidy_split
    {causality : Causality} {first step count : Nat} (taken : schedule.Taken first)
    (between : ∀ other, step ≤ other → other < step + count → schedule.Taken other) :
    Tidy (split causality schedule first step count) := by
  induction count generalizing step with
  | zero => exact tidy_ok _
  | succ count induction =>
      have later : Tidy (split causality schedule first (step + 1) count) :=
        induction fun other lower upper => between other (by omega) (by omega)
      refine (schedule.tidy_frame step).bind fun frame found =>
        ((between step (Nat.le_refl _) (by omega)).tidy found).bind fun entry _ => ?_
      refine (Causality.tidy_happensBefore taken causality step).bind fun before _ => ?_
      split
      · exact later.bind fun _ _ => tidy_pure _
      · exact later.bind fun _ _ => tidy_pure _

theorem tidy_mapM
    {α β : Type} {change : α → Except Fault β} (each : ∀ item, Tidy (change item))
    (items : List α) : Tidy (items.mapM change) := by
  induction items with
  | nil => exact tidy_ok _
  | cons item rest induction =>
      rw [List.mapM_cons]
      exact (each item).bind fun _ _ => induction.bind fun _ _ => tidy_pure _

theorem tidy_suffix
    {causality : Causality} {race : Race}
    (taken : ∀ step, step ≤ race.second → schedule.Taken step)
    (ordered : race.first < race.second) :
    Tidy (suffix causality schedule race) := by
  refine (tidy_add _ _).bind fun next added => ?_
  have same : next = race.first + 1 := by
    unfold add at added
    split at added
    · exact (Except.ok.inj added).symm
    · cases added
  subst same
  refine (tidy_split (taken _ (by omega)) fun other _ upper => taken other (by omega)).bind
    fun ⟨kept, missing⟩ _ => ?_
  refine (schedule.tidy_frame race.second).bind fun frame found =>
    ((taken _ (Nat.le_refl _)).tidy found).bind fun entry _ => ?_
  refine tidy_mapM (fun actor => ?_) _
  exact (tidy_sub _ _).bind fun _ _ => tidy_pure _

end Race

namespace Policy.Search

open Attempt

variable {policy next : Search} {log written : Log} {actors : List Snapshot} {current : ActorId}
  {below stack : List Frame} {turns : List Turn}

theorem tidy_marked (policy : Search) (current : ActorId) (frame : Frame) :
    Checked.Tidy (policy.marked current frame) := by
  unfold marked
  split
  · refine (frame.tidy_findWithin _ _).bind fun index _ => ?_
    cases index with
    | none => exact Checked.tidy_pure _
    | some index => exact Checked.tidy_pure _
  · exact Checked.tidy_ok _

theorem tidy_onSchedule
    {α : Type} {step : Schedule → Except Fault (α × Schedule)} {before : Search × Log}
    (tidy : Checked.Tidy (step before.1.schedule)) : (onSchedule step).Tidy before := by
  intro fault failed
  exact (tidy.bind fun _ _ => Checked.tidy_pure _) fault (fails_tryChange_iff.mp failed)

theorem tidy_changeTop
    {change : Frame → Except Fault Frame} {before : Search × Log}
    (tidy : ∀ frame, Checked.Tidy (change frame)) : (changeTop change).Tidy before :=
  tidy_onSchedule ((Schedule.tidy_updateFrame tidy).bind fun _ _ => Checked.tidy_pure _)

theorem tidy_markBranches
    (singles : ∀ frame ∈ below, ∃ entry index, frame.selections = [(entry, index)])
    (current : ActorId) :
    (markBranches current).Tidy
      (policy.withSchedule (.ofStack (.ofActors actors :: below) (below.length + 1)), log) := by
  refine .get_bind ?_
  dsimp only
  split
  · refine .bind (tidy_onSchedule ?_) fun _ _ _ => tidy_changeTop (tidy_marked policy current)
    rw [schedule_withSchedule, Schedule.carrySleepSet_ofStack actors fun previous first =>
      singles previous (List.mem_of_head? first)]
    exact Checked.tidy_ok _
  · exact tidy_changeTop (tidy_marked policy current)

theorem Free.tidy_choose_new
    (free : policy.Free) (stacked : policy.schedule = .ofStack below below.length)
    (singles : ∀ frame ∈ below, ∃ entry index, frame.selections = [(entry, index)]) :
    (choose actors current).Tidy (policy, log) := by
  refine .get_bind ?_
  simp only [free.any_eq_false, Bool.false_eq_true, if_false]
  refine .bind (tidy_onSchedule ?_) ?_
  · simp only [stacked, Schedule.push_new]
    exact Checked.tidy_ok _
  intro isNew between returned
  obtain ⟨pushed, pushes, rfl⟩ := returns_onSchedule_iff.mp returned
  simp only [stacked, Schedule.push_new, Except.ok.injEq, Prod.mk.injEq] at pushes
  obtain ⟨rfl, rfl⟩ := pushes
  have answers : ∀ branched, (policy.branch current).Returns
      (policy.withSchedule (.ofStack (.ofActors actors :: below) (below.length + 1)), log) ()
      branched → (answer current).Tidy branched := by
    intro branched marks
    obtain ⟨_, _, frame, rfl, -, opened⟩ := opened_of_branch (continues_of_singles singles) marks
    obtain ⟨decision, changed, picks⟩ := exists_picks frame current
    exact ((answer_open_iff opened.unselected).mpr ⟨changed, picks, rfl⟩).tidy
  rw [if_pos rfl]
  by_cases random : policy.randomized = true
  · rw [branch, if_pos random] at answers
    obtain ⟨_, _, _, marks, -⟩ := branches_markRandomly policy log actors current below
    rw [if_pos random]
    exact .bind marks.tidy fun _ => answers
  · rw [branch, if_neg random] at answers
    rw [if_neg random]
    exact .bind (tidy_markBranches singles current) fun _ => answers

/-- No message is received before it is sent. -/
def Timely (turns : List Turn) : Prop :=
  ∀ (index : Nat) (turn : Turn), turns[index]? = some turn → ∀ snapshot ∈ turn.actors,
    ∀ sendStep, snapshot.sendStep = some sendStep → sendStep ≤ index

theorem Ends.frame_cases
    {step : Nat} {frame : Frame} (ends : Ends turns below stack)
    (found : (Schedule.ofStack stack stack.length).frame step = .ok frame) :
    (∃ turn entry index, turns[step - 1]? = some turn ∧ Settles frame turn entry index) ∨
      (frame.selections = [] ∧ step = stack.length) := by
  obtain ⟨above, lower, rfl, rfl⟩ := Schedule.exists_of_frame_ofStack found
  rw [Nat.add_sub_cancel]
  by_cases short : (frame :: lower).length ≤ below.length
  · obtain ⟨first, before, recorded⟩ := ends.recorded_of_append short
    rw [← List.nil_append (frame :: lower)] at recorded
    obtain ⟨turn, entry, index, there, settles⟩ := recorded.exists_settles
    exact .inl ⟨turn, entry, index, getElem?_of_isPrefix before there, settles⟩
  · generalize shape : above ++ frame :: lower = whole at ends
    cases ends with
    | settled recorded =>
        have length := congrArg List.length shape
        rw [List.length_append] at length
        omega
    | @idle top recorded unselected _ =>
        have length := congrArg List.length shape
        simp only [List.length_append, List.length_cons] at length short
        obtain rfl := List.eq_nil_of_length_eq_zero (show above.length = 0 by omega)
        cases shape
        exact .inr ⟨unselected, rfl⟩

theorem Ends.selects (ends : Ends turns below stack) (timely : Timely turns) :
    (Schedule.ofStack stack stack.length).Selects where
  single := by
    intro step frame before found
    rcases ends.frame_cases found with ⟨turn, entry, index, -, settles⟩ | ⟨-, rfl⟩
    · rw [settles.single]
      rfl
    · exact absurd before (Nat.lt_irrefl _)
  last := by
    intro frame found
    rcases ends.frame_cases found with ⟨turn, entry, index, -, settles⟩ | ⟨unselected, -⟩
    · rw [settles.single]
      exact Nat.le_refl _
    · rw [unselected]
      exact Nat.zero_le _
  sent := by
    intro step frame entry sendStep found selected receives sent
    have positive := (Schedule.frame_eq_ok_iff.mp found).1
    rcases ends.frame_cases found with ⟨turn, other, index, there, settles⟩ | ⟨unselected, -⟩
    · cases selected.symm.trans (Frame.selected_eq_of_single settles.single)
      have listed : entry.snapshot ∈ turn.actors := by
        rw [← settles.actors]
        exact List.mem_map_of_mem
          (List.mem_of_getElem? (Frame.get?_of_single settles.single))
      have earlier := timely _ turn there entry.snapshot listed sendStep sent
      omega
    · simp only [Frame.selected, Frame.selection, Frame.selection?, unselected] at selected
      cases selected

theorem tidy_analyze
    {recording : Bool} {before : Search × Log} (selects : before.1.schedule.Selects) :
    (analyze recording).Tidy before :=
  fun fault failed => Analysis.tidy_run selects fault (analyze_fails failed)

theorem tidy_reverseRace {before : Search × Log} (selects : before.1.schedule.Selects) :
    reverseRace.Tidy before := by
  refine .bind (tidy_analyze selects) ?_
  intro causality between analyzes
  obtain ⟨analyzed, ran, rest, rfl⟩ := analyze_returns analyzes
  have same := Analysis.unmark_of_run ran
  refine .get_bind ?_
  cases chosen : Race.choose analyzed.causality.races between.1.source with
  | mk race source =>
      dsimp only
      refine .bind (tidy_of_not_fails fun _ => fails_set_iff.mp) ?_
      intro _ next changed
      obtain rfl := returns_set_iff.mp changed
      cases race with
      | none => exact tidy_modify _
      | some race =>
          obtain ⟨-, ordered, past, last⟩ :=
            Analysis.partners_run ran race (Race.mem_of_choose chosen)
          have taken : ∀ step, step ≤ race.second → analyzed.schedule.Taken step := by
            intro step within
            have past : race.second < before.1.schedule.position + 1 := past
            rcases Nat.lt_or_eq_of_le within with earlier | rfl
            · exact (selects.taken (by omega)).of_unmark_eq same
            · exact last.of_unmark_eq same
          refine .lift_bind ?_ fun suffix _ => .log_bind (tidy_modify _)
          rw [rest]
          exact Race.tidy_suffix taken ordered

/-- To prepare the next execution, a search never finds its schedule in disorder. -/
theorem Ends.tidy_advance
    (ends : Ends turns below stack) (timely : Timely turns)
    (stacked : policy.schedule = .ofStack stack stack.length) : advance.Tidy (policy, log) := by
  have selects := ends.selects timely
  rw [← stacked] at selects
  have marks : policy.schedule.MarksEnabled := by
    rw [stacked, Schedule.marksEnabled_ofStack_iff]
    exact ends.marksEnabled
  refine .get_bind ?_
  dsimp only
  split
  · refine .bind (tidy_of_not_fails fun _ => fails_set_iff.mp) ?_
    intro _ between changed
    obtain rfl := returns_set_iff.mp changed
    split
    · exact .bind (tidy_reverseRace selects) fun _ _ _ => tidy_pure _
    · exact .bind (tidy_modify _) fun _ _ _ => tidy_pure _
  · split
    · refine .bind (tidy_analyze selects) ?_
      intro causality between analyzes
      obtain ⟨analyzed, ran, rest, -⟩ := analyze_returns analyzes
      have same := Analysis.unmark_of_run ran
      simp only [stacked] at same
      obtain ⟨others, lower, shape, -, again, -⟩ :=
        ends.of_schedule same (Analysis.marksEnabled_of_run marks ran)
      refine tidy_onSchedule ?_
      rw [rest, schedule_withSchedule, shape, again.advance_eq]
      exact Checked.tidy_ok _
    · refine tidy_onSchedule ?_
      rw [stacked, ends.advance_eq]
      exact Checked.tidy_ok _

end Policy.Search

namespace TransitionSystem

open Attempt Policy.Search

/-- Whenever a message can be received, it has been sent before. -/
def Timely (system : TransitionSystem) : Prop :=
  ∀ run, system.Runs system.initial run →
    ∀ snapshot ∈ system.actors (system.after system.initial run),
      ∀ sendStep, snapshot.sendStep = some sendStep → sendStep ≤ run.length

variable {system : TransitionSystem} {settings : Settings} {policy between next : Policy.Search}
  {log written : Log} {finished : List (List ActorId × Decision)} {rounds : List Round}
  {turns : List Turn} {current : Nat → List ActorId → ActorId}
  {point : Point Policy.Search system} {fault : Fault}

theorem timely_turns
    (timely : system.Timely) (past : system.Past settings rounds policy turns between) :
    Policy.Search.Timely turns := by
  intro index turn there snapshot member sendStep sends
  obtain ⟨runs, -⟩ := past.runs
  rw [← List.take_append_drop index turns, ran_append, runs_append] at runs
  rw [past.shown index turn there] at member
  have earlier := timely _ runs.1 snapshot member sendStep sends
  exact Nat.le_trans earlier
    (Nat.le_trans (List.length_filterMap_le _ _) (List.length_take_le _ _))

theorem not_disorder_of_stops
    (numbered : system.Numbered) (timely : system.Timely)
    (reaches : system.Reaches current (.start (ofSettings settings) log) point)
    (stops : system.Stops current point fault) : fault.isDisorder = false := by
  cases recounts_of_reaches numbered reaches with
  | running past _ =>
      cases stops with
      | running failed =>
          rcases past.returns_or_new _ _ with
            ⟨decision, after, chosen⟩ | ⟨stack, free, stacked, recorded⟩
          · exact chosen.tidy fault failed
          · exact free.tidy_choose_new stacked recorded.singles fault failed
  | ended past _ finishes =>
      cases stops with
      | ended failed =>
          obtain ⟨kept, stack, whole, -, -, -, stacked, ends⟩ := past.ends finishes
          exact ends.tidy_advance (timely_turns timely past) stacked fault failed

end TransitionSystem

namespace Policy.Search

open Attempt TransitionSystem

/-- The actor has been run at this position in an execution since which all have kept the frame
there. -/
def HasRun (rounds : List Round) (position : Nat) (actor : ActorId) : Prop :=
  ∃ earlier round later, rounds = earlier ++ round :: later ∧
    (∀ other ∈ round :: later, position < other.kept) ∧
    (ran round.turns)[position]? = some actor

/-- While a search repeats a prefix of an execution, it stops exactly where it is shown other actors
than at the same step of that execution. Otherwise it runs the same actor, or, at the last frame of
the prefix, in a search that is not a random walk, one that it has not run there since that frame
was recorded. If it drives a system that shows the same actors after the same run, it never finds
its schedule in disorder. -/
theorem repeats_faithfully (settings : Settings) :
    (∀ (rounds : List Round) (last : Round) (policy next : Search) (turns : List Turn),
      History settings (rounds ++ [last]) policy → Plays policy turns next →
      turns.length < last.kept → ∀ (actors : List Snapshot) (current : ActorId) (log : Log),
      ∃ turn, last.turns[turns.length]? = some turn ∧
        ((choose actors current).Fails (next, log)
          (.diverged (turns.length + 1) turn.actors actors) ↔ actors ≠ turn.actors) ∧
        (actors = turn.actors → ∃ actor after,
          (choose actors current).Returns (next, log) (.run actor) after ∧
          (settings.randomized = true ∨ turns.length + 1 < last.kept →
            turn.decision = .run actor) ∧
          (settings.randomized = false → turns.length + 1 = last.kept →
            ¬ HasRun (rounds ++ [last]) turns.length actor))) ∧
    ∀ system : TransitionSystem, system.Numbered → system.Timely →
      ∀ (log : Log) (current : Nat → List ActorId → ActorId) (point : Point Search system)
        (fault : Fault), system.Reaches current (.start (ofSettings settings) log) point →
        system.Stops current point fault → fault.isDisorder = false := by
  refine ⟨?_, fun system numbered timely log current point fault reaches stops =>
    not_disorder_of_stops numbered timely reaches stops⟩
  intro rounds last policy next turns history plays within actors current log
  obtain ⟨turn, there, differs, agrees⟩ := history.exists_former plays within actors current log
  refine ⟨turn, there, ⟨?_, fun other => differs other.symm⟩, ?_⟩
  · rintro failed same
    obtain ⟨actor, after, chosen, -⟩ := agrees same.symm
    exact chosen.not_fails failed
  · intro same
    obtain ⟨actor, after, chosen, again, new⟩ := agrees same.symm
    refine ⟨actor, after, chosen, again, ?_⟩
    rintro orderly top ⟨earlier, round, later, shape, since, took⟩
    exact new orderly top earlier round later shape
      (fun other member => by rw [← top]; exact since other member) took

theorem timely_posts : posts.Timely := by
  intro run _ snapshot member sendStep sends
  simp only [posts, List.mem_cons, List.not_mem_nil, or_false] at member
  rcases member with rfl | rfl | rfl <;> cases sends

theorem exists_history_posts :
    ∃ policy, History { stepLimit := some 1, reduction := false }
      [⟨[⟨⟨0⟩, posts.actors posts.initial, .run ⟨0⟩⟩], 1⟩] policy := by
  obtain ⟨second, third, fourth, takes, stops, advances, kept⟩ :
      ∃ second third fourth,
        (choose (posts.actors posts.initial) ⟨0⟩).Returns
          (ofSettings { stepLimit := some 1, reduction := false }, .empty .error) (.run ⟨0⟩) second ∧
        (choose (posts.actors posts.initial) ⟨0⟩).Returns second .hitStepLimit third ∧
        advance.Returns third true fourth ∧ fourth.1.schedule.length = 1 :=
    ⟨_, _, _, returns_of_ok (by decide +kernel), returns_of_ok (by decide +kernel),
      returns_of_ok (by decide +kernel), by decide +kernel⟩
  have numbered : Numbered (posts.actors posts.initial) := lawful_posts.numbered posts.initial
  have history :=
    History.start.round (.snoc .nil numbered takes) (.idle numbered stops rfl) advances
  rw [kept] at history
  exact ⟨_, history⟩

/-- After an execution of one step, the search runs another actor at that step, or finds that the
actors are others. A search whose scan goes beyond the last number stops, but not in disorder. -/
theorem repeats_faithfully_posts :
    posts.Numbered ∧ posts.Timely ∧
      (∃ (policy : Search) (actor : ActorId) (after : Search × Log),
        History { stepLimit := some 1, reduction := false }
          [⟨[⟨⟨0⟩, posts.actors posts.initial, .run ⟨0⟩⟩], 1⟩] policy ∧
        (choose [] ⟨0⟩).Fails (policy, .empty .error)
          (.diverged 1 (posts.actors posts.initial) []) ∧
        (choose (posts.actors posts.initial) ⟨0⟩).Returns (policy, .empty .error) (.run actor)
          after ∧ actor ≠ ⟨0⟩) ∧
      posts.Stops (fun _ _ => ⟨wordSize⟩) (.start (ofSettings {}) (.empty .error))
        .additionOverflow ∧
      Fault.additionOverflow.isDisorder = false := by
  obtain ⟨policy, history⟩ := exists_history_posts
  have repeats := (repeats_faithfully _).1 [] _ _ _ [] history .nil Nat.zero_lt_one
  obtain ⟨turn, there, -, agrees⟩ := repeats (posts.actors posts.initial) ⟨0⟩ (.empty .error)
  obtain ⟨other, same, fails, -⟩ := repeats [] ⟨0⟩ (.empty .error)
  cases there
  cases same
  obtain ⟨actor, after, chosen, -, new⟩ := agrees rfl
  have overflows : posts.Stops (fun _ _ => ⟨wordSize⟩) (.start (ofSettings {}) (.empty .error))
      .additionOverflow := .running (by unfold Attempt.Fails; decide +kernel)
  refine ⟨lawful_posts.numbered, timely_posts, ⟨policy, actor, after, history,
    fails.mpr (by decide), chosen, ?_⟩, overflows, ?_⟩
  · rintro rfl
    exact new rfl rfl ⟨[], _, [], rfl, by simp, rfl⟩
  · exact (repeats_faithfully {}).2 posts lawful_posts.numbered timely_posts (.empty .error)
      (fun _ _ => ⟨wordSize⟩) _ _ .refl overflows

end Policy.Search

end Interleave
