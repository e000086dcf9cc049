import Interleave.Proofs.Race.Partners
import Interleave.Proofs.Search.Recorded

namespace Interleave

namespace Policy.Search

open Attempt

variable {policy next : Search} {log : Log} {after : Search × Log} {more : Bool}

/-- Between two random walks, the next one gets a prefix to repeat: without a race none, and else
the steps before the first step of the race. -/
theorem advance_returns_of_random
    (random : policy.randomized = true) (returned : advance.Returns (policy, log) more after) :
    policy.Kin after.1 ∧ (after.1.schedule = .empty ∨ ∃ analyzed race,
      (Analysis.run true).Returns (⟨policy.schedule, .empty⟩, log) () analyzed ∧
        race ∈ analyzed.1.causality.races ∧
        after.1.schedule = analyzed.1.schedule.truncate (race.first - 1)) := by
  obtain ⟨_, _, got, worked⟩ := returns_bind_iff.mp returned
  obtain ⟨rfl, rfl⟩ := returns_get_iff.mp got
  rw [if_pos random] at worked
  obtain ⟨_, _, changed, worked⟩ := returns_bind_iff.mp worked
  obtain rfl := returns_set_iff.mp changed
  split at worked
  · simp only [returns_bind_iff, returns_pure_iff, reverseRace, returns_get_iff] at worked
    obtain ⟨_, _, ⟨causality, between, analyzes, _, _, ⟨rfl, rfl⟩, reversed⟩, -, rfl⟩ := worked
    obtain ⟨analyzed, ran, rest, rfl⟩ := analyze_returns analyzes
    cases chosen : Race.choose analyzed.causality.races between.1.source with
    | mk race source =>
        simp only [chosen, returns_set_iff] at reversed
        obtain ⟨_, _, rfl, reversed⟩ := reversed
        rw [rest] at reversed
        cases race with
        | none =>
            obtain rfl := returns_modify_iff.mp reversed
            exact ⟨⟨rfl, rfl, rfl, rfl⟩, .inl rfl⟩
        | some race =>
            simp only [returns_bind_iff, returns_lift_iff, returns_log_iff, returns_modify_iff]
              at reversed
            obtain ⟨suffix, _, ⟨-, rfl⟩, _, _, rfl, rfl⟩ := reversed
            exact ⟨⟨rfl, rfl, rfl, rfl⟩, .inr ⟨_, race, ran, Race.mem_of_choose chosen, rfl⟩⟩
  · simp only [modifySchedule, returns_bind_iff, returns_modify_iff, returns_pure_iff] at worked
    obtain ⟨_, _, rfl, -, rfl⟩ := worked
    exact ⟨⟨rfl, rfl, rfl, rfl⟩, .inl rfl⟩

inductive Ends (turns : List Turn) (below : List Frame) : List Frame → Prop
  | settled (recorded : Recorded below turns) : Ends turns below below
  | idle {frame : Frame} (recorded : Recorded below turns) (unselected : frame.selections = [])
      (marks : frame.MarksEnabled) : Ends turns below (frame :: below)

/-- What an execution leaves for the next one: a prefix of its frames, the last of them reopened if
it is a search. There, or below, the execution departs, and so does whatever departed before. -/
structure Leaves (random : Bool) (turns : List Turn) (below kept : List Frame) : Prop where
  stands : Stands random turns kept 0 []
  length : kept.length ≤ below.length
  last : random = false → kept ≠ [] → ∀ run, ran turns <+: run → Departs kept run kept.length
  earlier : random = false → kept ≠ [] → ∀ run depth, Departs below run depth →
    ∃ lower, min depth kept.length ≤ lower ∧ Departs kept run lower

variable {turns past : List Turn} {turn : Turn} {stack below base kept others : List Frame}
  {top : Frame} {run : List ActorId} {depth : Nat}

namespace Ends

theorem recorded (ends : Ends turns below stack) : Recorded below turns := by
  cases ends with
  | settled recorded => exact recorded
  | idle recorded _ _ => exact recorded

theorem marksEnabled (ends : Ends turns below stack) : ∀ frame ∈ stack, frame.MarksEnabled := by
  cases ends with
  | settled recorded => exact recorded.marksEnabled
  | idle recorded _ marks =>
      intro frame member
      rcases List.mem_cons.mp member with rfl | member
      · exact marks
      · exact recorded.marksEnabled frame member

theorem of_unmark_eq
    (ends : Ends turns below stack) (same : others.map Frame.unmark = stack.map Frame.unmark)
    (marks : ∀ frame ∈ others, frame.MarksEnabled) :
    ∃ lower, Ends turns lower others ∧ lower.map Frame.unmark = below.map Frame.unmark := by
  cases ends with
  | settled recorded => exact ⟨others, .settled (recorded.of_unmark_eq same marks), same⟩
  | idle recorded unselected _ =>
      rw [List.map_cons, List.map_eq_cons_iff] at same
      obtain ⟨last, lower, rfl, sameLast, sameLower⟩ := same
      refine ⟨lower, .idle (recorded.of_unmark_eq sameLower fun frame member =>
        marks frame (List.mem_cons_of_mem _ member)) ?_ (marks last List.mem_cons_self), sameLower⟩
      exact Frame.selections_eq_nil_of_unmark_eq sameLast unselected

theorem of_schedule
    {analyzed : Schedule} (ends : Ends turns below stack)
    (same : analyzed.unmark = (Schedule.ofStack stack stack.length).unmark)
    (marked : analyzed.MarksEnabled) :
    ∃ others lower, analyzed = .ofStack others others.length ∧ others.length = stack.length ∧
      Ends turns lower others ∧ lower.map Frame.unmark = below.map Frame.unmark := by
  obtain ⟨others, rfl, frames⟩ := Schedule.exists_stack_of_unmark_eq same
  rw [Schedule.marksEnabled_ofStack_iff] at marked
  obtain ⟨lower, again, sameLower⟩ := ends.of_unmark_eq frames marked
  have length : others.length = stack.length := by simpa using congrArg List.length frames
  exact ⟨others, lower, by rw [length], length, again, sameLower⟩

theorem advance_eq (ends : Ends turns below stack) :
    (Schedule.ofStack stack stack.length).advance =
      .ok ((Schedule.rewind below).length != 0, .ofStack (Schedule.rewind below) 0) := by
  cases ends with
  | settled recorded => exact Schedule.advance_ofStack recorded.singles
  | idle recorded unselected _ => exact Schedule.advance_ofStack_cons unselected recorded.singles

theorem length_le (ends : Ends turns below stack) : stack.length ≤ below.length + 1 := by
  cases ends with
  | settled => exact Nat.le_succ _
  | idle => exact Nat.le_refl _

theorem recorded_of_append
    {above : List Frame} (ends : Ends turns below (above ++ kept))
    (short : kept.length ≤ below.length) : ∃ first, first <+: turns ∧ Recorded kept first := by
  generalize shape : above ++ kept = whole at ends
  cases ends with
  | settled recorded =>
      rw [← shape] at recorded
      exact recorded.of_append
  | idle recorded _ _ =>
      cases above with
      | nil =>
          rw [List.nil_append] at shape
          rw [shape, List.length_cons] at short
          omega
      | cons head rest =>
          cases shape
          exact recorded.of_append

end Ends

theorem Settles.reopened
    {entry : Frame.Entry} {index : Nat} (settles : Settles top turn entry index)
    (undone : (top.retire index).isDone = false) : Reopened (top.retire index) turn where
  actors := Frame.actors_retire.trans settles.actors
  numbered := settles.numbered
  marks := settles.marks.retire
  unselected := Frame.selections_retire settles.single
  undone := undone

theorem Recorded.of_rewind
    (recorded : Recorded stack turns) (rewound : Schedule.rewind stack = top :: base) :
    ∃ past turn, past ++ [turn] <+: turns ∧ Recorded base past ∧ Reopened top turn ∧
      base.length < stack.length ∧
      (∀ run, ran turns <+: run → Departs (top :: base) run (base.length + 1)) ∧
      ∀ run depth, Departs stack run depth →
        ∃ lower, min depth (base.length + 1) ≤ lower ∧ Departs (top :: base) run lower := by
  induction recorded with
  | nil => cases rewound
  | @cons frame below turn turns entry index recorded settles induction =>
      simp only [Schedule.rewind, settles.single] at rewound
      split at rewound
      · obtain ⟨past, last, before, again, reopened, short, whole, departed⟩ := induction rewound
        refine ⟨past, last, before.trans (List.prefix_append _ _), again, reopened,
          Nat.lt_succ_of_lt short, ?_, ?_⟩
        · intro run further
          exact whole run (List.IsPrefix.trans (by rw [ran_append]; exact List.prefix_append _ _)
            further)
        · intro run depth departs
          cases departs with
          | here follows asleep =>
              obtain rfl := follows.unique recorded.follows
              exact ⟨_, Nat.min_le_right _ _, whole _ (List.prefix_append _ _)⟩
          | deeper departs => exact departed run depth departs
      · rename_i undone
        cases rewound
        have found := Frame.get?_of_single settles.single
        refine ⟨turns, turn, List.prefix_rfl, recorded,
          settles.reopened (Bool.eq_false_iff.mpr undone), Nat.lt_succ_self _, ?_, ?_⟩
        · rintro run ⟨rest, rfl⟩
          rw [ran_append, settles.ran_eq, settles.id_eq, List.append_assoc, List.singleton_append]
          have there : (frame.get? index).isSome := by rw [found]; rfl
          exact .here recorded.follows (Frame.sleeps_retire_iff.mpr (.inr ⟨rfl, there⟩))
        · intro run depth departs
          exact ⟨depth, Nat.min_le_left _ _,
            departs.of_sleeps fun index sleeps => Frame.sleeps_retire_iff.mpr (.inl sleeps)⟩

/-- What a search leaves: it goes back to the last frame that has another branch. -/
theorem Recorded.leaves (recorded : Recorded below turns) :
    Leaves false turns below (Schedule.rewind below) := by
  cases rewound : Schedule.rewind below with
  | nil =>
      exact ⟨.frontier .nil, Nat.zero_le _, fun _ some => absurd rfl some,
        fun _ some => absurd rfl some⟩
  | cons top base =>
      obtain ⟨past, turn, before, again, reopened, short, whole, departed⟩ :=
        recorded.of_rewind rewound
      rw [← List.append_nil base] at again ⊢
      exact ⟨.search rfl again before reopened .nil, by simpa using Nat.succ_le_of_lt short,
        fun _ _ run further => by simpa using whole run further,
        fun _ _ run depth departs => by simpa using departed run depth departs⟩

theorem Leaves.of_unmark_eq
    {random : Bool} (leaves : Leaves random turns others kept)
    (same : others.map Frame.unmark = below.map Frame.unmark) : Leaves random turns below kept := by
  have lengths : others.length = below.length := by simpa using congrArg List.length same
  exact ⟨leaves.stands, lengths ▸ leaves.length, leaves.last, fun orderly some run depth departs =>
    leaves.earlier orderly some run depth (departs.of_unmark_eq same)⟩

theorem Ends.advances
    (ends : Ends turns below stack)
    (stacked : policy.schedule = .ofStack stack stack.length)
    (returned : advance.Returns (policy, log) more after) :
    ∃ kept, after.1.schedule = .ofStack kept 0 ∧ policy.Kin after.1 ∧
      Leaves policy.randomized turns below kept ∧
      (policy.randomized = false → more = (kept.length != 0)) := by
  have marks : policy.schedule.MarksEnabled := by
    rw [stacked, Schedule.marksEnabled_ofStack_iff]
    exact ends.marksEnabled
  cases random : policy.randomized with
  | false =>
      obtain ⟨analyzed, schedule, same, marked, -, advances, rest⟩ :=
        advance_returns_of_orderly random marks returned
      rw [stacked] at same
      obtain ⟨others, lower, rfl, -, again, sameLower⟩ := ends.of_schedule same marked
      rw [again.advance_eq] at advances
      cases advances
      rw [rest]
      exact ⟨_, rfl, kin_withSchedule policy _, again.recorded.leaves.of_unmark_eq sameLower,
        fun _ => rfl⟩
  | true =>
      obtain ⟨kin, nothing | ⟨analyzed, race, ran, member, truncated⟩⟩ :=
        advance_returns_of_random random returned
      · exact ⟨[], nothing, kin, ⟨.frontier .nil, Nat.zero_le _, nofun, nofun⟩, nofun⟩
      · obtain ⟨-, ordered, past, -⟩ := Analysis.partners_run ran race member
        have same := Analysis.unmark_of_run ran
        simp only [stacked, Schedule.position_ofStack] at same past
        obtain ⟨others, lower, shape, length, again, sameLower⟩ :=
          ends.of_schedule same (Analysis.marksEnabled_of_run marks ran)
        have lengths : lower.length = below.length := by
          simpa using congrArg List.length sameLower
        have tall := ends.length_le
        obtain ⟨above, kept, rfl, size⟩ :
            ∃ above kept, others = above ++ kept ∧ kept.length = race.first - 1 :=
          ⟨_, _, (List.take_append_drop (others.length - (race.first - 1)) others).symm,
            by rw [List.length_drop]; omega⟩
        obtain ⟨first, before, recorded⟩ := again.recorded_of_append (by omega)
        rw [truncated, shape, ← size, Schedule.truncate_ofStack]
        rw [← List.append_nil kept] at recorded ⊢
        exact ⟨_, rfl, kin, ⟨.walk rfl recorded before .nil, by rw [List.append_nil]; omega, nofun,
          nofun⟩, nofun⟩

inductive Plays (first : Search) : List Turn → Search → Prop
  | nil : Plays first [] first
  | snoc {policy next : Search} {turns : List Turn} {current actor : ActorId}
      {actors : List Snapshot} {log written : Log} (plays : Plays first turns policy)
      (numbered : Numbered actors)
      (chosen : (choose actors current).Returns (policy, log) (.run actor) (next, written)) :
      Plays first (turns ++ [⟨current, actors, .run actor⟩]) next

/-- An execution that is over: the turns that ran somebody, and how many frames were kept. -/
structure Round where
  turns : List Turn
  kept : Nat

/-- An execution is over at a decision that runs nobody, or because nothing has asked for another
one, beyond all that was to be repeated. -/
inductive Over (first : Search) (turns : List Turn) (between : Search) : Search → Prop
  | idle {ended : Search} {current : ActorId} {actors : List Snapshot} {decision : Decision}
      {log written : Log} (numbered : Numbered actors)
      (chosen : (choose actors current).Returns (between, log) decision (ended, written))
      (idle : decision.actor? = none) : Over first turns between ended
  | stopped (beyond : first.schedule.length ≤ turns.length) : Over first turns between between

/-- Executions of a search, each with the preparation of the next one. -/
inductive History (settings : Settings) : List Round → Search → Prop
  | start : History settings [] (.ofSettings settings)
  | round {policy between ended next : Search} {rounds : List Round} {turns : List Turn}
      {more : Bool} {before after : Log} (history : History settings rounds policy)
      (plays : Plays policy turns between) (finishes : Over policy turns between ended)
      (advanced : advance.Returns (ended, before) more (next, after)) :
      History settings (rounds ++ [⟨turns, next.schedule.length⟩]) next

def former (rounds : List Round) : List Turn := (rounds.getLast?.map Round.turns).getD []

/-- Where a search is in an execution that has begun with a prefix to repeat. -/
structure Along (policy : Search) (former : List Turn) (kept : List Frame) (turns : List Turn)
    (next : Search) (stack : List Frame) : Prop where
  kin : policy.Kin next
  stacked : next.schedule = .ofStack stack turns.length
  stands : Stands policy.randomized former stack turns.length turns
  departs : ∀ run depth, Departs kept run depth → Departs stack run depth
  length : stack.length = max kept.length turns.length
  bounded : ∀ limit, policy.stepLimit = some limit → turns.length ≤ limit

/-- Where a search is between two executions: it is to repeat the frames that were kept. An
execution departs from them at or above any depth that all have kept since. -/
structure Between (settings : Settings) (rounds : List Round) (policy : Search)
    (kept : List Frame) : Prop where
  kin : (ofSettings settings).Kin policy
  stacked : policy.schedule = .ofStack kept 0
  stands : Stands settings.randomized (former rounds) kept 0 []
  length : ∀ round ∈ rounds.getLast?, round.kept = kept.length
  bounded : ∀ limit, settings.stepLimit = some limit → kept.length ≤ limit
  departs : settings.randomized = false → ∀ earlier round later,
    rounds = earlier ++ round :: later → ∀ depth, 0 < depth →
      (∀ other ∈ round :: later, depth ≤ other.kept) →
      ∃ lower, depth ≤ lower ∧ Departs kept (ran round.turns) lower

section Along

variable {former : List Turn} {current actor : ActorId} {actors : List Snapshot}
  {decision : Decision} {written : Log} {between ended : Search}

theorem Along.start
    (stacked : policy.schedule = .ofStack kept 0)
    (stands : Stands policy.randomized former kept 0 []) :
    Along policy former kept [] policy kept where
  kin := .refl policy
  stacked := stacked
  stands := stands
  departs _ _ departs := departs
  length := (Nat.max_eq_left (Nat.zero_le _)).symm
  bounded _ _ := Nat.zero_le _

theorem Along.chooses
    (along : Along policy former kept turns between stack) (numbered : Numbered actors)
    (chosen : (choose actors current).Returns (between, log) decision (ended, written)) :
    Chooses between former stack turns.length turns actors current decision ended := by
  refine Stands.chooses ?_ numbered along.stacked chosen
  rw [along.kin.randomized]
  exact along.stands

theorem Along.snoc
    (along : Along policy former kept turns between stack) (numbered : Numbered actors)
    (chosen : (choose actors current).Returns (between, log) (.run actor) (ended, written)) :
    ∃ others, Along policy former kept (turns ++ [⟨current, actors, .run actor⟩]) ended others := by
  cases along.chooses numbered chosen with
  | @run _ others _ kin free stacked stands departs length =>
      refine ⟨others, along.kin.trans kin, ?_, ?_, ?_, ?_, ?_⟩
      · rw [List.length_append]
        exact stacked
      · rw [List.length_append, ← along.kin.randomized]
        exact stands
      · exact fun run depth before => departs run depth (along.departs run depth before)
      · rw [List.length_append, List.length_singleton, length, along.length]
        omega
      · intro limit limited
        rw [List.length_append]
        exact free limit (along.kin.stepLimit.trans limited)
  | @idle _ frame _ _ _ _ _ _ _ _ judged =>
      have nobody := verdict_actor? frame
      rw [← judged] at nobody
      cases nobody

theorem Plays.along
    (plays : Plays policy turns next) (stacked : policy.schedule = .ofStack kept 0)
    (stands : Stands policy.randomized former kept 0 []) :
    ∃ stack, Along policy former kept turns next stack := by
  induction plays with
  | nil => exact ⟨kept, .start stacked stands⟩
  | snoc _ numbered chosen induction =>
      obtain ⟨stack, along⟩ := induction
      exact along.snoc numbered chosen

theorem Along.ends
    (along : Along policy former kept turns between stack)
    (stacked : policy.schedule = .ofStack kept 0)
    (within : ∀ limit, policy.stepLimit = some limit → kept.length ≤ limit)
    (finishes : Over policy turns between ended) :
    ∃ whole, ended.schedule = .ofStack whole whole.length ∧ policy.Kin ended ∧
      Ends turns stack whole := by
  have settled (beyond : kept.length ≤ turns.length) :
      between.schedule = .ofStack stack stack.length ∧ Recorded stack turns := by
    have length := along.length
    obtain ⟨same, recorded⟩ := along.stands.recorded_of_le (by omega)
    exact ⟨same ▸ along.stacked, recorded⟩
  cases finishes with
  | stopped beyond =>
      rw [stacked, Schedule.length_ofStack] at beyond
      exact ⟨stack, (settled beyond).1, along.kin, .settled (settled beyond).2⟩
  | idle numbered chosen idle =>
      cases along.chooses numbered chosen with
      | @limited limit limited reached =>
          have short := within limit (along.kin.stepLimit.symm.trans limited)
          have beyond := Nat.le_trans short reached
          exact ⟨stack, (settled beyond).1, along.kin, .settled (settled beyond).2⟩
      | run => cases idle
      | @idle _ frame kin _ stacked _ recorded opened _ =>
          exact ⟨frame :: stack, stacked, along.kin.trans kin,
            .idle recorded opened.unselected opened.marks⟩

end Along

theorem former_snoc (rounds : List Round) (round : Round) :
    former (rounds ++ [round]) = round.turns := by
  simp [former]

theorem between_start (settings : Settings) :
    Between settings [] (.ofSettings settings) [] where
  kin := .refl _
  stacked := rfl
  stands := .frontier .nil
  length := nofun
  bounded _ _ := Nat.zero_le _
  departs := by
    intro _ earlier round later shape
    cases earlier with
    | nil | cons => cases shape

theorem Between.round
    {settings : Settings} {rounds : List Round} {between ended : Search} {before : Log}
    (stays : Between settings rounds policy kept) (plays : Plays policy turns between)
    (finishes : Over policy turns between ended)
    (advanced : advance.Returns (ended, before) more after) :
    ∃ left, Between settings (rounds ++ [⟨turns, after.1.schedule.length⟩]) after.1 left ∧
      (settings.randomized = false → more = (left.length != 0)) := by
  have mode : policy.randomized = settings.randomized := stays.kin.randomized
  have stands := stays.stands
  rw [← mode] at stands
  obtain ⟨stack, along⟩ := plays.along stays.stacked stands
  have within : ∀ limit, policy.stepLimit = some limit → kept.length ≤ limit :=
    fun limit limited => stays.bounded limit (stays.kin.stepLimit.symm.trans limited)
  obtain ⟨whole, stacked, kin, ends⟩ := along.ends stays.stacked within finishes
  obtain ⟨left, leftStacked, leftKin, leaves, goes⟩ := ends.advances stacked advanced
  have same : ended.randomized = settings.randomized := kin.randomized.trans mode
  rw [same] at leaves goes
  have length : after.1.schedule.length = left.length := by
    rw [leftStacked, Schedule.length_ofStack]
  refine ⟨left, ⟨stays.kin.trans (kin.trans leftKin), leftStacked, ?_, ?_, ?_, ?_⟩, goes⟩
  · rw [former_snoc]
    exact leaves.stands
  · intro round last
    rw [List.getLast?_concat, Option.mem_some_iff] at last
    rw [← last]
    exact length
  · intro limit limited
    have short := leaves.length
    rw [← ends.recorded.length_eq] at short
    exact Nat.le_trans short (along.bounded limit (stays.kin.stepLimit.trans limited))
  · -- The execution itself departs at the last frame that is left. An earlier one departs from the
    -- frames that were kept before it, and so from those that are left now.
    intro orderly earlier round later shape depth positive since
    rcases List.eq_nil_or_concat later with rfl | ⟨others, last, rfl⟩
    · obtain ⟨rfl, same⟩ := List.append_inj' shape rfl
      cases same
      have deep : depth ≤ left.length := length ▸ since _ List.mem_cons_self
      exact ⟨left.length, deep, leaves.last orderly (List.ne_nil_of_length_pos (by omega)) _
        List.prefix_rfl⟩
    · rw [List.concat_eq_append, ← List.cons_append, ← List.append_assoc] at shape
      obtain ⟨rfl, same⟩ := List.append_inj' shape rfl
      cases same
      have deep : depth ≤ left.length :=
        length ▸ since ⟨turns, after.1.schedule.length⟩ (by simp)
      have before : ∀ other ∈ round :: others, depth ≤ other.kept := by
        intro other member
        apply since other
        rw [List.concat_eq_append, ← List.cons_append]
        exact List.mem_append_left _ member
      obtain ⟨lower, upward, departs⟩ :=
        stays.departs orderly earlier round others rfl depth positive before
      obtain ⟨other, above, departs⟩ := leaves.earlier orderly
        (List.ne_nil_of_length_pos (by omega)) _ _ (along.departs _ _ departs)
      exact ⟨other, by omega, departs⟩

theorem Between.free
    {settings : Settings} {rounds : List Round} {former : List Turn}
    (stays : Between settings rounds policy kept)
    (along : Along policy former kept turns next stack)
    (within : turns.length < kept.length) : next.Free := by
  intro limit limited
  have short := stays.bounded limit
    (stays.kin.stepLimit.symm.trans (along.kin.stepLimit.symm.trans limited))
  rw [along.stacked, Schedule.position_ofStack]
  omega

theorem History.between
    {settings : Settings} {rounds : List Round} (history : History settings rounds policy) :
    ∃ kept, Between settings rounds policy kept := by
  induction history with
  | start => exact ⟨[], between_start settings⟩
  | round _ plays finishes advanced induction =>
      obtain ⟨kept, stays⟩ := induction
      obtain ⟨left, still, -⟩ := stays.round plays finishes advanced
      exact ⟨left, still⟩

/-- Replay of a recorded prefix: with other actors than at the same step of the execution before,
the choice is a fault; with the same actors it runs the same actor, but at the last frame of a search
one that has not been run there since the frame was recorded. -/
theorem History.exists_former
    {settings : Settings} {rounds : List Round} {last : Round}
    (history : History settings (rounds ++ [last]) policy) (plays : Plays policy turns next)
    (within : turns.length < last.kept) (actors : List Snapshot) (current : ActorId) (log : Log) :
    ∃ turn, last.turns[turns.length]? = some turn ∧
      (turn.actors ≠ actors → (choose actors current).Fails (next, log)
        (.diverged (turns.length + 1) turn.actors actors)) ∧
      (turn.actors = actors → ∃ actor after,
        (choose actors current).Returns (next, log) (.run actor) after ∧
        (settings.randomized = true ∨ turns.length + 1 < last.kept →
          turn.decision = .run actor) ∧
        (settings.randomized = false → turns.length + 1 = last.kept →
          ∀ earlier round later, rounds ++ [last] = earlier ++ round :: later →
            (∀ other ∈ round :: later, last.kept ≤ other.kept) →
            (ran round.turns)[turns.length]? ≠ some actor)) := by
  obtain ⟨kept, stays⟩ := history.between
  have mode : policy.randomized = settings.randomized := stays.kin.randomized
  have size : last.kept = kept.length := stays.length last (by rw [List.getLast?_concat]; rfl)
  have stands := stays.stands
  rw [← mode, former_snoc] at stands
  obtain ⟨stack, along⟩ := plays.along stays.stacked stands
  have tall : stack.length = last.kept := by
    have length := along.length
    omega
  have free := stays.free along (by omega)
  have standing := along.stands
  rw [← along.kin.randomized] at standing
  obtain ⟨turn, there, numbered, differs, agrees⟩ :=
    standing.exists_former (by omega) free along.stacked actors current log
  refine ⟨turn, there, differs, fun same => ?_⟩
  obtain ⟨actor, after, chosen, again⟩ := agrees same
  rw [along.kin.randomized, mode, tall] at again
  refine ⟨actor, after, chosen, again, ?_⟩
  -- With this step all that was kept has been repeated, and the earlier execution departs from that.
  intro orderly top earlier round later shape since
  obtain ⟨lower, upward, departs⟩ := stays.departs orderly earlier round later shape last.kept
    (by omega) since
  rw [same] at numbered
  obtain ⟨others, onward⟩ := along.snoc numbered chosen
  have length := onward.length
  rw [List.length_append, List.length_singleton] at length
  obtain ⟨-, recorded⟩ := onward.stands.recorded_of_le (by
    rw [List.length_append, List.length_singleton]
    omega)
  obtain ⟨one, other, took, takes, distinct⟩ := (onward.departs _ _ departs).differs recorded
  have deep := departs.le_length
  rw [show lower - 1 = turns.length by omega] at took takes
  have position : (ran turns).length = turns.length := by
    obtain ⟨above, below, -, length, recorded⟩ := along.stands.exists_recorded
    rw [recorded.follows.length_eq, length]
  rw [ran_append, ← position, List.getElem?_append_right (Nat.le_refl _), Nat.sub_self] at takes
  cases takes
  rw [took]
  rintro ⟨rfl⟩
  exact distinct rfl

end Policy.Search

end Interleave
