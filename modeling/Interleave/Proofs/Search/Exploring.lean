import Interleave.Proofs.Search.Driver
import Interleave.Proofs.Search.Rounds

namespace Interleave

namespace TransitionSystem

open Policy.Search

variable {system : TransitionSystem} {settings : Settings} {policy between : Policy.Search}
  {log : Log} {finished : List (List ActorId × Decision)} {rounds : List Round}
  {turns first : List Turn} {turn : Turn} {stack : List Frame}
  {current : Nat → List ActorId → ActorId} {point : Point Policy.Search system}

def Shown (system : TransitionSystem) (turns : List Turn) : Prop :=
  ∀ (index : Nat) (turn : Turn), turns[index]? = some turn →
    turn.actors = system.actors (system.after system.initial (ran (turns.take index)))

theorem shown_nil : system.Shown [] := nofun

theorem Shown.of_isPrefix (shown : system.Shown turns) (before : first <+: turns) :
    system.Shown first := by
  obtain ⟨rest, rfl⟩ := before
  intro index turn there
  have within := (List.getElem?_eq_some_iff.mp there).1
  have whole := shown index turn (by rw [List.getElem?_append_left within, there])
  rwa [List.take_append_of_le_length (Nat.le_of_lt within)] at whole

theorem Shown.snoc
    (shown : system.Shown turns)
    (same : turn.actors = system.actors (system.after system.initial (ran turns))) :
    system.Shown (turns ++ [turn]) := by
  intro index other there
  rcases Nat.lt_or_ge index turns.length with within | beyond
  · rw [List.take_append_of_le_length (Nat.le_of_lt within)]
    rw [List.getElem?_append_left within] at there
    exact shown index other there
  · have reached := (List.getElem?_eq_some_iff.mp there).1
    rw [List.length_append, List.length_singleton] at reached
    obtain rfl : index = turns.length := by omega
    rw [List.getElem?_concat_length] at there
    cases there
    rw [List.take_left]
    exact same

theorem Shown.last (shown : system.Shown (turns ++ [turn])) :
    turn.actors = system.actors (system.after system.initial (ran turns)) := by
  have same := shown turns.length turn (List.getElem?_concat_length ..)
  rwa [List.take_left] at same

theorem Shown.runs (shown : system.Shown turns) (recorded : Recorded stack turns) :
    system.Runs system.initial (ran turns) := by
  induction recorded with
  | nil => trivial
  | @cons frame below turn turns entry index recorded settles induction =>
      have earlier := induction (shown.of_isPrefix (List.prefix_append _ _))
      rw [ran_append, settles.ran_eq, runs_append]
      refine ⟨earlier, ?_, trivial⟩
      have found : frame.get? index = some entry := Frame.get?_of_single settles.single
      have there : (system.actors (system.after system.initial (ran turns)))[entry.id.index]? =
          some entry.snapshot := by
        rw [← shown.last, ← settles.actors, settles.id_eq]
        rw [Frame.getElem?_actors, found]
        rfl
      rw [operation?_eq_some there settles.enabled]
      rfl

structure Past (system : TransitionSystem) (settings : Settings) (rounds : List Round)
    (policy : Policy.Search) (turns : List Turn) (between : Policy.Search) : Prop where
  history : History settings rounds policy
  plays : Plays policy turns between
  earlier : ∀ round ∈ rounds, system.Shown round.turns
  shown : system.Shown turns

structure Tells (settings : Settings) (finished : List (List ActorId × Decision))
    (rounds : List Round) : Prop where
  finished : finished.map Prod.fst = rounds.map fun round => ran round.turns
  kept : settings.randomized = false → ∀ round ∈ rounds, 0 < round.kept

inductive Recounts (settings : Settings) : Point Policy.Search system → Prop
  | running {policy between : Policy.Search} {log : Log}
      {finished : List (List ActorId × Decision)} {rounds : List Round} {turns : List Turn}
      (past : system.Past settings rounds policy turns between)
      (tells : Tells settings finished rounds) :
      Recounts settings
        ⟨between, log, finished, .running (system.after system.initial (ran turns)) (ran turns)⟩
  | ended {policy between next : Policy.Search} {log : Log}
      {finished : List (List ActorId × Decision)} {rounds : List Round} {turns : List Turn}
      {decision : Decision} (past : system.Past settings rounds policy turns between)
      (tells : Tells settings finished rounds) (finishes : Over policy turns between next) :
      Recounts settings ⟨next, log, finished ++ [(ran turns, decision)], .ended⟩

theorem past_start : system.Past settings [] (.ofSettings settings) [] (.ofSettings settings) :=
  ⟨.start, .nil, nofun, shown_nil⟩

namespace Past

variable {next : Policy.Search} {written before : Log} {actor : ActorId} {decision : Decision}
  {after : Policy.Search × Log} (past : system.Past settings rounds policy turns between)

include past

theorem exists_along :
    ∃ kept stack, Between settings rounds policy kept ∧
      Along policy (former rounds) kept turns between stack := by
  obtain ⟨kept, stays⟩ := past.history.between
  have stands := stays.stands
  rw [← show policy.randomized = settings.randomized from stays.kin.randomized] at stands
  obtain ⟨stack, along⟩ := past.plays.along stays.stacked stands
  exact ⟨kept, stack, stays, along⟩

theorem runs : system.Runs system.initial (ran turns) ∧ (ran turns).length = turns.length := by
  obtain ⟨kept, stack, -, along⟩ := past.exists_along
  obtain ⟨above, below, -, length, recorded⟩ := along.stands.exists_recorded
  exact ⟨past.shown.runs recorded, by rw [recorded.follows.length_eq, length]⟩

theorem shown_former : system.Shown (former rounds) := by
  rcases List.eq_nil_or_concat rounds with rfl | ⟨others, last, rfl⟩
  · exact shown_nil
  · rw [List.concat_eq_append, former_snoc]
    exact past.earlier last (by simp)

/-- The search makes a choice wherever it repeats frames, since the system shows the same actors
again. What is left is to open a new frame. -/
theorem returns_or_new (actor : ActorId) (log : Log) :
    (∃ decision after, (choose (system.actors (system.after system.initial (ran turns)))
        actor).Returns (between, log) decision after) ∨
      ∃ stack, between.Free ∧ between.schedule = .ofStack stack stack.length ∧
        Recorded stack turns := by
  obtain ⟨kept, stack, stays, along⟩ := past.exists_along
  have position : between.schedule.position = turns.length := by rw [along.stacked]; rfl
  rcases free_or_limited between turns.length with free | ⟨limit, limited, reached⟩
  swap
  · exact .inl ⟨_, _, choose_of_limited limited (by rw [position]; exact reached)⟩
  have going : between.Free := by
    unfold Free
    rw [position]
    exact free
  have stacked := along.stacked
  have stands := along.stands
  rw [← along.kin.randomized] at stands
  by_cases within : turns.length < stack.length
  · obtain ⟨turn, there, -, -, agrees⟩ := stands.exists_former within going stacked
      (system.actors (system.after system.initial (ran turns))) actor log
    have same := past.shown_former turns.length turn there
    rw [← stands.ran_eq within] at same
    obtain ⟨actor, after, chosen, -⟩ := agrees same
    exact .inl ⟨_, _, chosen⟩
  · obtain ⟨same, recorded⟩ := stands.recorded_of_le (Nat.le_of_not_lt within)
    rw [same] at stacked
    exact .inr ⟨stack, going, stacked, recorded⟩

theorem exists_choice
    (room : settings.randomized = false → settings.reduction = true → actor.index +
      (system.actors (system.after system.initial (ran turns))).length ≤ wordSize) (log : Log) :
    ∃ decision after, (choose (system.actors (system.after system.initial (ran turns)))
      actor).Returns (between, log) decision after := by
  obtain ⟨kept, stack, stays, along⟩ := past.exists_along
  rcases past.returns_or_new actor log with answers | ⟨stack, free, stacked, recorded⟩
  · exact answers
  · refine free.exists_choose_new (continues_of_singles recorded.singles) stacked ?_ log
    have kin := stays.kin.trans along.kin
    intro orderly reduces
    exact room (kin.randomized.symm.trans orderly) (kin.reduction.symm.trans reduces)

theorem snoc
    {other : ActorId} (numbered : system.Numbered)
    (chosen : (choose (system.actors (system.after system.initial (ran turns))) actor).Returns
      (between, log) (.run other) (next, written)) :
    system.Past settings rounds policy
      (turns ++ [⟨actor, system.actors (system.after system.initial (ran turns)), .run other⟩])
      next :=
  ⟨past.history, past.plays.snoc (numbered _) chosen, past.earlier, past.shown.snoc rfl⟩

variable (finishes : Over policy turns between next)

include finishes

theorem ends :
    ∃ kept stack whole, Between settings rounds policy kept ∧
      Along policy (former rounds) kept turns between stack ∧ policy.Kin next ∧
      next.schedule = .ofStack whole whole.length ∧ Ends turns stack whole := by
  obtain ⟨kept, stack, stays, along⟩ := past.exists_along
  have within : ∀ limit, policy.stepLimit = some limit → kept.length ≤ limit :=
    fun limit limited => stays.bounded limit (stays.kin.stepLimit.symm.trans limited)
  obtain ⟨whole, stacked, kin, ends⟩ := along.ends stays.stacked within finishes
  exact ⟨kept, stack, whole, stays, along, kin, stacked, ends⟩

theorem restart {more : Bool} (advanced : advance.Returns (next, before) more after) :
    system.Past settings (rounds ++ [⟨turns, after.1.schedule.length⟩]) after.1 [] after.1 := by
  refine ⟨past.history.round past.plays finishes advanced, .nil, ?_, shown_nil⟩
  intro round member
  rcases List.mem_append.mp member with member | member
  · exact past.earlier round member
  · rw [List.mem_singleton.mp member]
    exact past.shown

theorem tells
    (tells : Tells settings finished rounds)
    (advanced : advance.Returns (next, before) true after) :
    Tells settings (finished ++ [(ran turns, decision)])
      (rounds ++ [⟨turns, after.1.schedule.length⟩]) := by
  obtain ⟨kept, stays⟩ := past.history.between
  obtain ⟨left, still, goes⟩ := stays.round past.plays finishes advanced
  refine ⟨by rw [List.map_append, List.map_append, tells.finished]; rfl, ?_⟩
  intro orderly round member
  rcases List.mem_append.mp member with member | member
  · exact tells.kept orderly round member
  · rw [List.mem_singleton.mp member, still.stacked, Schedule.length_ofStack]
    exact Nat.pos_of_ne_zero (by simpa using goes orderly)

end Past

theorem recounts_of_reaches
    (numbered : system.Numbered)
    (reaches : system.Reaches current (.start (ofSettings settings) log) point) :
    Recounts settings point := by
  induction reaches with
  | refl => exact .running past_start ⟨rfl, fun _ => nofun⟩
  | tail _ drives induction =>
      cases drives with
      | @run _ next _ written _ _ _ actor chosen =>
          cases induction with
          | running past tells =>
              have recounts : Recounts settings ⟨next, written, _, _⟩ :=
                .running (past.snoc numbered chosen) tells
              rw [ran_append, after_append] at recounts
              exact recounts
      | finish chosen idle =>
          cases induction with
          | running past tells =>
              exact .ended past tells (.idle (numbered _) chosen idle)
      | restart advanced =>
          cases induction with
          | ended past tells finishes =>
              exact .running (past.restart finishes advanced) (past.tells finishes tells advanced)

end TransitionSystem

end Interleave
