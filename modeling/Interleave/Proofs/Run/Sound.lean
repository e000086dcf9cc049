import Interleave.Proofs.Run.Searches

namespace Interleave

/-- Only enabled actors are marked or selected, and wherever some are enabled, one of these is marked
or asleep. A frame stays so whatever an exploration has done before. -/
structure Frame.Sound (frame : Frame) : Prop where
  marks : frame.MarksEnabled
  selected : ∀ index entry, frame.get? index = some entry → entry.selected = true →
    entry.enabled = true
  heeded : (∃ index entry, frame.get? index = some entry ∧ entry.enabled = true) →
    ∃ index entry, frame.get? index = some entry ∧ entry.enabled = true ∧
      (entry.backtrack = true ∨ entry.asleep = true)

def Schedule.Sound (schedule : Schedule) : Prop := schedule.Every Frame.Sound

namespace Frame

variable {frame : Frame} {index : Nat} {entry : Entry} {actors : List Snapshot}

theorem Sound.modify
    (sound : frame.Sound) (change : Entry → Entry)
    (kept : ∀ entry, (change entry).snapshot = entry.snapshot)
    (marks : ∀ entry, frame.get? index = some entry → (change entry).backtrack = true →
      entry.enabled = true)
    (selects : ∀ entry, frame.get? index = some entry → (change entry).selected = true →
      entry.enabled = true)
    (heeds : ∀ entry, entry.backtrack = true ∨ entry.asleep = true →
      (change entry).backtrack = true ∨ (change entry).asleep = true) :
    (frame.modify index change).Sound := by
  have enabled (entry : Entry) : (change entry).enabled = entry.enabled :=
    congrArg Snapshot.enabled (kept entry)
  refine ⟨enabled_of_modify Entry.backtrack sound.marks change kept marks,
    enabled_of_modify Entry.selected sound.selected change kept selects, ?_⟩
  rintro ⟨position, after, found, able⟩
  rw [get?_modify] at found
  obtain ⟨before, there, rfl⟩ := Option.map_eq_some_iff.mp found
  have able : before.enabled = true := by
    split at able
    · exact (enabled before).symm.trans able
    · exact able
  obtain ⟨place, other, listed, runnable, heeded⟩ := sound.heeded ⟨position, before, there, able⟩
  refine ⟨place, if index = place then change other else other, ?_, ?_⟩
  · rw [get?_modify, listed]
    rfl
  · split
    · exact ⟨(enabled other).trans runnable, heeds other heeded⟩
    · exact ⟨runnable, heeded⟩

theorem Sound.mark
    (sound : frame.Sound) (found : frame.get? index = some entry) (enabled : entry.enabled = true) :
    (frame.modify index Entry.mark).Sound := by
  refine sound.modify Entry.mark (fun _ => rfl) ?_ (sound.selected index) fun _ _ => .inl rfl
  intro other there _
  cases found.symm.trans there
  exact enabled

theorem Sound.select
    (sound : frame.Sound) (found : frame.get? index = some entry) (enabled : entry.enabled = true) :
    (frame.modify index Entry.select).Sound := by
  refine sound.modify Entry.select (fun _ => rfl) (sound.marks index) ?_ fun _ => id
  intro other there _
  cases found.symm.trans there
  exact enabled

theorem Sound.sleep (sound : frame.Sound) : (frame.modify index Entry.sleep).Sound :=
  sound.modify Entry.sleep (fun _ => rfl) (sound.marks index) (sound.selected index)
    fun _ _ => .inr rfl

theorem Sound.deselect (sound : frame.Sound) : (frame.modify index Entry.deselect).Sound :=
  sound.modify Entry.deselect (fun _ => rfl) (sound.marks index) nofun fun _ => id

/-- Where nothing is left to explore, there is a deadlock only if nobody is enabled. -/
theorem Sound.disabled
    (sound : frame.Sound) (done : frame.isDone = true)
    (deadlock : Policy.Search.verdict frame = .deadlock) :
    ∀ entry ∈ frame.entries, entry.enabled = false := by
  intro entry member
  by_contra able
  obtain ⟨index, there⟩ := List.mem_iff_getElem?.mp member
  obtain ⟨place, other, found, enabled, heeded⟩ :=
    sound.heeded ⟨index, entry, there, eq_true_of_ne_false able⟩
  have asleep : other.asleep = true := by
    rcases heeded with marked | asleep
    · exact isDone_iff.mp done other (List.mem_of_getElem? found) marked
    · exact asleep
  rw [Policy.Search.disabled_of_verdict deadlock found asleep] at enabled
  cases enabled

theorem sound_of_opened {inherits : Bool} (opened : Policy.Search.Opened inherits actors frame) :
    frame.Sound := by
  refine ⟨opened.marks, ?_, ?_⟩
  · intro index entry found selected
    rw [selections_eq_nil_iff.mp opened.unselected index entry found] at selected
    cases selected
  · rintro ⟨index, entry, found, enabled⟩
    by_cases done : frame.isDone = true
    · exact ⟨index, entry, found, enabled, .inr (opened.asleep done index entry found enabled)⟩
    · rw [isDone_iff] at done
      push Not at done
      obtain ⟨other, member, marked, -⟩ := done
      obtain ⟨place, there⟩ := List.mem_iff_getElem?.mp member
      exact ⟨place, other, there, opened.marks place other there marked, .inl marked⟩

theorem isEngine_of_selection? {fault : Fault} (fails : frame.selection? = .error fault) :
    fault.isEngine = true := by
  unfold selection? at fails
  split at fails
  · cases fails
  · cases fails
  · cases fails
    rfl

theorem selections_cases (frame : Frame) :
    frame.selections = [] ∨ (∃ entry index, frame.selections = [(entry, index)]) ∨
      ∃ fault, fault.isEngine = true ∧ frame.selection? = .error fault := by
  cases selection : frame.selection? with
  | error fault => exact .inr (.inr ⟨fault, isEngine_of_selection? selection, rfl⟩)
  | ok found =>
      cases found with
      | none => exact .inl (selection?_eq_none_iff.mp selection)
      | some pair => exact .inr (.inl ⟨_, _, selection?_eq_some_iff.mp selection⟩)

theorem selection_of_selections_eq_nil (unselected : frame.selections = []) :
    frame.selection = .error .noneSelected := by
  simp only [selection, selection?_eq_none_iff.mpr unselected]
  rfl

theorem selection_of_selection? {fault : Fault} (fails : frame.selection? = .error fault) :
    frame.selection = .error fault := by
  simp only [selection, fails]
  rfl

theorem exists_fault_of_selected (several : ∀ entry index, frame.selections ≠ [(entry, index)]) :
    ∃ fault, fault.isEngine = true ∧ frame.selection = .error fault := by
  rcases frame.selections_cases with unselected | ⟨entry, index, single⟩ | ⟨fault, engine, fails⟩
  · exact ⟨.noneSelected, rfl, selection_of_selections_eq_nil unselected⟩
  · exact absurd single (several entry index)
  · exact ⟨fault, engine, selection_of_selection? fails⟩

end Frame

namespace Schedule

variable {schedule next : Schedule} {frame : Frame} {above below : List Frame} {fault : Fault}

theorem push_cases (schedule : Schedule) :
    schedule.length < schedule.position ∨
      (∃ below, schedule = ofStack below below.length) ∨
        ∃ above frame below, schedule = ofStack (above ++ frame :: below) below.length := by
  obtain ⟨stack, same⟩ := exists_ofStack schedule
  rcases Nat.lt_or_ge stack.length schedule.position with beyond | within
  · left
    rw [same]
    simpa using beyond
  have shape := List.take_append_drop (stack.length - schedule.position) stack
  have depth : (stack.drop (stack.length - schedule.position)).length = schedule.position := by
    rw [List.length_drop]
    omega
  generalize stack.take (stack.length - schedule.position) = first at shape
  generalize stack.drop (stack.length - schedule.position) = below at shape depth
  rw [← shape, ← depth] at same
  rcases List.eq_nil_or_concat' first with rfl | ⟨above, frame, rfl⟩
  · exact .inr (.inl ⟨below, same⟩)
  · refine .inr (.inr ⟨above, frame, below, ?_⟩)
    rw [same, List.append_assoc, List.singleton_append]

theorem Sound.pop (sound : schedule.Sound) (popped : schedule.pop = .ok next) : next.Sound := by
  unfold Schedule.pop at popped
  split at popped
  · obtain ⟨position, -, same⟩ := Checked.bind_eq_ok_iff.mp popped
    cases same
    intro index frame found
    rw [Array.getElem?_pop] at found
    split at found
    · exact sound index frame found
    · cases found
  · cases popped

theorem Sound.retreat
    {frames : Nat} (sound : schedule.Sound) (gone : schedule.retreat frames = .ok next) :
    next.Sound := by
  induction frames generalizing schedule with
  | zero =>
      cases gone
      exact sound
  | succ frames induction =>
      rw [Schedule.retreat] at gone
      split at gone
      · cases gone
        exact sound
      · obtain ⟨top, last, gone⟩ := Checked.bind_eq_ok_iff.mp gone
        obtain ⟨asleep, sleeps, gone⟩ := Checked.bind_eq_ok_iff.mp gone
        obtain ⟨slept, clears, gone⟩ := Checked.bind_eq_ok_iff.mp gone
        obtain ⟨first, -, sleeps⟩ := Checked.bind_eq_ok_iff.mp sleeps
        obtain ⟨second, -, clears⟩ := Checked.bind_eq_ok_iff.mp clears
        cases sleeps
        cases clears
        have there : schedule.frame schedule.position = .ok top := by
          unfold realTop at last
          split at last
          · exact last
          · cases last
        have here := sound _ _ (frame_eq_ok_iff.mp there).2
        have still := sound.modifyFrame there
          (fun _ => (top.modify first Frame.Entry.sleep).modify second Frame.Entry.deselect)
          here.sleep.deselect
        dsimp only at gone
        split at gone
        · obtain ⟨lower, popped, gone⟩ := Checked.bind_eq_ok_iff.mp gone
          exact induction (Sound.pop still popped) gone
        · cases gone
          exact still

theorem Sound.advance
    {more : Bool} (sound : schedule.Sound) (advanced : schedule.advance = .ok (more, next)) :
    next.Sound := by
  unfold Schedule.advance at advanced
  split at advanced
  · cases advanced
    exact sound
  · obtain ⟨top, -, advanced⟩ := Checked.bind_eq_ok_iff.mp advanced
    obtain ⟨selection, -, advanced⟩ := Checked.bind_eq_ok_iff.mp advanced
    have onward : ∀ trimmed : Schedule, trimmed.Sound →
        (do
          let next ← trimmed.retreat trimmed.length
          return (next.length != 0, { next with position := 0 })) = Except.ok (more, next) →
        next.Sound := by
      intro trimmed sound moved
      obtain ⟨last, gone, same⟩ := Checked.bind_eq_ok_iff.mp moved
      cases same
      have moved : last.Sound := sound.retreat gone
      exact moved
    split at advanced
    · obtain ⟨trimmed, popped, advanced⟩ := Checked.bind_eq_ok_iff.mp advanced
      exact onward trimmed (sound.pop popped) advanced
    · exact onward schedule sound advanced

theorem Sound.truncate (sound : schedule.Sound) (length : Nat) :
    (schedule.truncate length).Sound := by
  intro index frame found
  refine sound index frame ?_
  rw [Schedule.truncate, Array.take_eq_extract, Array.getElem?_extract] at found
  simp only [Nat.zero_add] at found
  split at found
  · exact found
  · cases found

theorem Sound.analyzed
    {recording : Bool} {log : Log} {after : Analysis × Log} (sound : schedule.Sound)
    (ran : (Analysis.run recording).Returns (⟨schedule, .empty⟩, log) () after) :
    after.1.schedule.Sound := by
  refine Analysis.every_of_run ?_ ?_ ran
  · intro frame index entry sound found enabled
    exact sound.mark found enabled
  · exact sound

theorem select_of_selection? (fails : frame.selection? = .error fault) (start : ActorId) :
    (ofStack (above ++ frame :: below) (below.length + 1)).select start = .error fault := by
  unfold select
  refine Checked.bind_eq_error_iff.mpr (.inr ⟨frame, frame_ofStack above, ?_⟩)
  split
  · simp only [Frame.selectedIndex, Frame.selection_of_selection? fails]
    rfl
  · simp only [Frame.selectedIndex?, fails]
    rfl

theorem select_of_ahead
    (unselected : frame.selections = []) (ahead : above ≠ []) (start : ActorId) :
    (ofStack (above ++ frame :: below) (below.length + 1)).select start =
      .error .noneSelected := by
  unfold select
  refine Checked.bind_eq_error_iff.mpr (.inr ⟨frame, frame_ofStack above, ?_⟩)
  have tall := List.length_pos_iff.mpr ahead
  have deep : (ofStack (above ++ frame :: below) (below.length + 1)).atFrontier = false := by
    simp only [atFrontier, position_ofStack, length_ofStack, List.length_append, List.length_cons,
      decide_eq_false_iff_not]
    omega
  simp only [deep, Bool.not_false, if_true, Frame.selectedIndex,
    Frame.selection_of_selections_eq_nil unselected]
  rfl

end Schedule

namespace Policy.Search

open Attempt

variable {policy next : Search} {log : Log} {actors : List Snapshot} {current : ActorId}
  {decision : Decision} {after : Search × Log} {frame changed : Frame} {above below : List Frame}

theorem Picks.sound
    (picks : Picks frame current decision changed) (sound : frame.Sound) :
    Fits frame.actors (.ok decision) ∧ changed.Sound := by
  rcases picks with ⟨index, entry, search, there, rfl, rfl⟩ | ⟨nothing, rfl, rfl⟩
  · obtain ⟨_, also, pending⟩ := Frame.exists_of_find_eq_some search
    cases there.symm.trans also
    have enabled := sound.marks index entry there (Bool.and_eq_true_iff.mp pending).1
    have listed := List.mem_map_of_mem (f := Frame.Entry.snapshot) (List.mem_of_getElem? there)
    exact ⟨⟨entry.snapshot, listed, rfl, enabled⟩, sound.select there enabled⟩
  · refine ⟨?_, sound⟩
    rcases verdict_cases changed with deadlock | blocked
    · rw [deadlock]
      intro snapshot member
      obtain ⟨entry, listed, rfl⟩ := List.mem_map.mp member
      exact sound.disabled (Frame.isDone_of_find_eq_none nothing) deadlock entry listed
    · rw [blocked]
      trivial

/-- What a search answers in a sound state: either the engine is at fault, or the answer fits the
actors and the state is sound again. -/
def Answers (policy : Search) (log : Log) (actors : List Snapshot) (current : ActorId) : Prop :=
  (∃ fault, fault.isEngine = true ∧ (choose actors current).Fails (policy, log) fault) ∨
    ∃ decision after, (choose actors current).Returns (policy, log) decision after ∧
      Fits actors (.ok decision) ∧ after.1.schedule.Sound

theorem fails_of_not_continues
    (stopped : ¬ policy.Continues below) (log : Log) (actors : List Snapshot) (current : ActorId) :
    ∃ fault, fault.isEngine = true ∧ (policy.branch current).Fails
      (policy.withSchedule (.ofStack (.ofActors actors :: below) (below.length + 1)), log) fault := by
  unfold Continues at stopped
  push Not at stopped
  obtain ⟨inherits, previous, first, several⟩ := stopped
  obtain ⟨sleeps, orderly⟩ := Bool.and_eq_true_iff.mp inherits
  obtain ⟨rest, rfl⟩ := List.head?_eq_some_iff.mp first
  obtain ⟨fault, engine, fails⟩ := Frame.exists_fault_of_selected several
  refine ⟨fault, engine, ?_⟩
  have carries := Schedule.carrySleepSet_ofStack_cons actors previous rest
  rw [Frame.selected, fails] at carries
  have stops : (onSchedule fun schedule => return ((), ← schedule.carrySleepSet)).Fails
      (policy.withSchedule (.ofStack (.ofActors actors :: previous :: rest)
        ((previous :: rest).length + 1)), log) fault :=
    fails_onSchedule_iff.mpr (Checked.bind_eq_error_iff.mpr (.inl carries))
  rw [branch, if_neg (by simpa using orderly)]
  simp only [markBranches, fails_bind_iff, fails_get_iff, returns_get_iff, false_or]
  refine ⟨_, _, ⟨rfl, rfl⟩, ?_⟩
  change (if policy.sleepSets then _ else _ : Attempt Search Unit).Fails _ _
  rw [if_pos sleeps]
  exact fails_bind_iff.mpr (.inl stops)

theorem fails_of_select
    {schedule : Schedule} {fault : Fault} (fails : schedule.select current = .error fault) :
    (answer current).Fails (policy.withSchedule schedule, log) fault := by
  unfold answer
  exact fails_bind_iff.mpr (.inl (fails_onSchedule_iff.mpr fails))

theorem answers_of_recorded
    (sound : policy.schedule.Sound) (free : policy.Free)
    (stacked : policy.schedule = .ofStack (above ++ frame :: below) below.length)
    (current : ActorId) (log : Log) : policy.Answers log frame.actors current := by
  have pushes : policy.schedule.push frame.actors =
      .ok (false, .ofStack (above ++ frame :: below) (below.length + 1)) := by
    rw [stacked]
    exact Schedule.push_recorded above below rfl
  rw [stacked, Schedule.Sound, Schedule.every_ofStack_iff] at sound
  have here : frame.Sound := sound frame (by simp)
  rcases frame.selections_cases with unselected | ⟨entry, index, single⟩ | ⟨fault, engine, fails⟩
  · by_cases last : above = []
    · subst last
      obtain ⟨decision, changed, picks⟩ := exists_picks frame current
      obtain ⟨fits, still⟩ := picks.sound here
      refine .inr ⟨decision, _, (free.choose_open_iff stacked rfl unselected).mpr
        ⟨changed, picks, rfl⟩, fits, Schedule.every_ofStack_iff.mpr ?_⟩
      rw [List.forall_mem_cons]
      exact ⟨still, fun other member => sound other (.tail _ member)⟩
    · exact .inl ⟨.noneSelected, rfl, free.fails_of_answer pushes
        (fails_of_select (Schedule.select_of_ahead unselected last current))⟩
  · have there := Frame.get?_of_single single
    have enabled := here.selected index entry there (Frame.selected_of_single single)
    have listed := List.mem_map_of_mem (f := Frame.Entry.snapshot) (List.mem_of_getElem? there)
    exact .inr ⟨.run entry.id, _, (free.choose_recorded_iff above stacked rfl single).mpr ⟨rfl, rfl⟩,
      ⟨entry.snapshot, listed, rfl, enabled⟩, Schedule.every_ofStack_iff.mpr sound⟩
  · exact .inl ⟨fault, engine, free.fails_of_answer pushes
      (fails_of_select (Schedule.select_of_selection? fails current))⟩

theorem answers_of_new
    (sound : policy.schedule.Sound) (free : policy.Free)
    (stacked : policy.schedule = .ofStack below below.length)
    (room : policy.Room actors current) (log : Log) : policy.Answers log actors current := by
  by_cases continues : policy.Continues below
  · obtain ⟨decision, after, chosen⟩ := free.exists_choose_new continues stacked room log
    obtain ⟨next, written, frame, changed, kin, opened, picks, rfl⟩ :=
      free.opens continues stacked chosen
    obtain ⟨fits, still⟩ := picks.sound (Frame.sound_of_opened opened)
    rw [opened.actors] at fits
    rw [stacked, Schedule.Sound, Schedule.every_ofStack_iff] at sound
    refine .inr ⟨decision, _, chosen, fits, Schedule.every_ofStack_iff.mpr ?_⟩
    rw [List.forall_mem_cons]
    exact ⟨still, sound⟩
  · obtain ⟨fault, engine, fails⟩ := fails_of_not_continues continues log actors current
    refine .inl ⟨fault, engine, free.fails_of_branch ?_ fails⟩
    rw [stacked, Schedule.push_new]

theorem answers_of_sound
    (sound : policy.schedule.Sound) (room : policy.Room actors current) (log : Log) :
    policy.Answers log actors current := by
  by_cases cut : ∃ limit, policy.stepLimit = some limit ∧ limit ≤ policy.schedule.position
  · obtain ⟨limit, limited, reached⟩ := cut
    exact .inr ⟨.hitStepLimit, _, choose_of_limited limited reached, trivial, sound⟩
  have free : policy.Free := fun limit limited =>
    Nat.lt_of_not_le fun reached => cut ⟨limit, limited, reached⟩
  rcases policy.schedule.push_cases with beyond | ⟨below, stacked⟩ | ⟨above, frame, below, stacked⟩
  · exact .inl ⟨_, rfl, free.fails_of_push (if_pos beyond)⟩
  · exact answers_of_new sound free stacked room log
  · by_cases same : frame.actors = actors
    · subst same
      exact answers_of_recorded sound free stacked current log
    · exact .inl ⟨_, rfl, free.fails_of_diverged above stacked same⟩

theorem sound_of_advance
    {more : Bool} (sound : policy.schedule.Sound)
    (returned : advance.Returns (policy, log) more after) : after.1.schedule.Sound := by
  cases random : policy.randomized with
  | false =>
      obtain ⟨analyzed, schedule, rfl | ⟨-, last, ran, rfl⟩, moves, same⟩ :=
        exists_analyzed_of_advance random returned
      · rw [same]
        exact sound.advance moves
      · rw [same]
        exact (sound.analyzed ran).advance moves
  | true =>
      obtain ⟨-, nothing | ⟨analyzed, race, ran, -, truncated⟩⟩ :=
        advance_returns_of_random random returned
      · rw [nothing]
        nofun
      · rw [truncated]
        exact (sound.analyzed ran).truncate _

end Policy.Search

namespace Run

open Attempt Machine

variable {σ μ : Type} {program : Program σ μ} {run next first : Run Policy.Search σ μ}
  {policy : Policy.Search} {log : Log} {id : ActorId} {number : Nat}

def Guarded (run : Run Policy.Search σ μ) : Prop :=
  run.policy.schedule.Sound ∨ run.machine.ended = true ∧ run.machine.crashes ≠ []

theorem Guarded.answers
    (guarded : run.Guarded) (sane : run.machine.Sane) (roomy : run.Roomy)
    (choosing : run.machine.control = .choosing id) (log : Log) :
    run.policy.Answers log run.machine.snapshots id := by
  rcases guarded with sound | ⟨ended, -⟩
  · refine Policy.Search.answers_of_sound sound (fun _ _ => ?_) log
    have present := sane.present id (by rw [choosing]; rfl)
    rw [length_snapshots]
    unfold Roomy at roomy
    omega
  · exact absurd choosing (sane.decided ended id)

theorem Steps.guarded
    (steps : Steps program run log next) (guarded : run.Guarded) (sane : run.machine.Sane)
    (roomy : run.Roomy) : next.Guarded := by
  have onward := steps.onward sane
  cases steps with
  | tick undecided =>
      exact guarded.imp_right fun halted =>
        ⟨onward.ended halted.1, onward.crashes halted.2⟩
  | @decide id decision policy written choosing chosen =>
      rcases guarded.answers sane roomy choosing log with
        ⟨fault, -, fails⟩ | ⟨also, after, answers, -, sound⟩
      · exact absurd fails chosen.not_fails
      · rw [(answers.unique chosen).2] at sound
        exact .inl sound
  | @fail id fault policy choosing failed =>
      have fails : (Policy.Search.choose run.machine.snapshots id).Fails (run.policy, log) fault :=
        congrArg Prod.fst failed
      rcases guarded.answers sane roomy choosing log with
        ⟨other, engine, also⟩ | ⟨decision, after, chosen, -⟩
      · cases fails.symm.trans also
        exact .inr ⟨ended_crashed engine id, crashes_crashed engine id⟩
      · exact absurd fails chosen.not_fails

theorem Reached.guarded
    (reached : Reached program first run) (guarded : first.Guarded) (sane : first.machine.Sane)
    (roomy : run.Roomy) : run.Guarded := by
  induction reached with
  | here => exact guarded
  | @step run reached log induction =>
      have steps : Steps program run log _ := steps_step (reached.sane sane) log
      have before : run.Roomy :=
        Nat.le_trans (Nat.mul_le_mul_left 2 (steps.onward (reached.sane sane)).size) roomy
      exact steps.guarded (induction before) (reached.sane sane) before

/-- Whatever a search has done before, in this execution its answers fit the actors. -/
theorem heedful_search
    (sound : policy.schedule.Sound)
    (roomy : ∀ steps, (((start program number policy).complete program steps).run log).1.Roomy) :
    (start program number policy).Heedful program log := by
  intro steps id choosing
  have reached := reached_complete program steps (start program number policy) log
  have room := roomy steps
  generalize ((start program number policy).complete program steps).run log = after at *
  have sane := reached.sane (sane_start (program.root number))
  have guarded := reached.guarded (.inl sound) (sane_start (program.root number)) room
  rcases guarded.answers sane room choosing after.2 with
    ⟨fault, engine, fails⟩ | ⟨decision, next, chosen, fits, -⟩
  · rw [show ((Scheduler.choose after.1.machine.snapshots id : Attempt _ Decision).outcome
      (after.1.policy, after.2)).1.1 = _ from fails]
    exact engine
  · rw [show (Scheduler.choose after.1.machine.snapshots id : Attempt _ Decision).outcome _ = _
      from chosen]
    exact fits

end Run

end Interleave
