import Interleave.Proofs.Race.Recording
import Interleave.Race.Reversal

namespace Interleave

theorem Checked.mapM_eq_ok
    {α β : Type} {change : α → Except Fault β} {result : α → β} {items : List α}
    (all : ∀ item ∈ items, change item = .ok (result item)) :
    items.mapM change = .ok (items.map result) := by
  induction items with
  | nil => rfl
  | cons item rest induction =>
      rw [List.mapM_cons, all item List.mem_cons_self,
        induction fun other member => all other (List.mem_cons_of_mem _ member)]
      rfl

def Frame.names (frame : Frame) (actor : Nat) : Option Nat :=
  if actor < frame.size then some actor else none

theorem Frame.names_eq_some
    {frame : Frame} {actor name : Nat} (named : frame.names actor = some name) :
    actor = name := by
  unfold names at named
  split at named
  · exact Option.some.inj named
  · cases named

namespace Schedule

/-- The step creates the actor of this number. -/
structure CreatesAt (schedule : Schedule) (actor step : Nat) : Prop where
  frame : ∃ frame, schedule.frame step = .ok frame ∧ frame.size = actor
  creates : ∃ snapshot, schedule.selected? step = some snapshot ∧ snapshot.kind = .create

/-- Actors are added by creates, one by one, and an actor that was not there at first begins with its
start. -/
structure Peopled (schedule : Schedule) : Prop where
  grows : ∀ step frame next snapshot, schedule.frame step = .ok frame →
    schedule.frame (step + 1) = .ok next → step < schedule.position →
      schedule.selected? step = some snapshot →
        next.size = if snapshot.kind = .create then frame.size + 1 else frame.size
  starts : ∀ first step snapshot, schedule.frame 1 = .ok first →
    schedule.selected? step = some snapshot → first.size ≤ snapshot.id.index →
      (∀ earlier < step, ¬ schedule.ActsAt snapshot.id earlier) →
        snapshot.operation = .start snapshot.id

/-- Who runs if only these steps are taken, where some actors have names and so many names have been
given away: a create names its child by the next number. -/
inductive Reruns (schedule : Schedule) :
    (names : Nat → Option Nat) → (count : Nat) → List Nat → List ActorId → Prop
  | done {names : Nat → Option Nat} {count : Nat} : Reruns schedule names count [] []
  | create {names : Nat → Option Nat} {count step child name : Nat} {snapshot : Snapshot}
      {steps : List Nat} {ids : List ActorId}
      (creates : schedule.CreatesAt child step) (selected : schedule.selected? step = some snapshot)
      (named : names snapshot.id.index = some name)
      (rest : Reruns schedule (Function.update names child (some count)) (count + 1) steps ids) :
      Reruns schedule names count (step :: steps) (⟨name⟩ :: ids)
  | other {names : Nat → Option Nat} {count step name : Nat} {snapshot : Snapshot}
      {steps : List Nat} {ids : List ActorId}
      (selected : schedule.selected? step = some snapshot) (differs : snapshot.kind ≠ .create)
      (named : names snapshot.id.index = some name)
      (rest : Reruns schedule names count steps ids) :
      Reruns schedule names count (step :: steps) (⟨name⟩ :: ids)

/-- The steps that a reversal runs: those between the steps of a race that do not happen after the
first, and then the second. -/
structure Keeps (schedule : Schedule) (race : Race) (listed : List Nat) : Prop where
  sorted : listed.Pairwise (· < ·)
  mem_iff : ∀ step, step ∈ listed ↔
    race.first < step ∧ step < race.second ∧ ¬ schedule.Reaches race.first step ∨
      step = race.second
  /-- But for the first step of the race, what happens before a step of these is one of them. -/
  closed : ∀ step later, later ∈ listed → race.first < step → schedule.Reaches step later →
    step ∈ listed

variable {schedule : Schedule} {step : Nat}

theorem index_lt_of_acts
    (numbered : schedule.Numbered) {actor : ActorId} (acts : schedule.ActsAt actor step)
    {frame : Frame} (found : schedule.frame step = .ok frame) : actor.index < frame.size := by
  obtain ⟨snapshot, selected, rfl⟩ := acts
  have within := ActsAt.le_position ⟨snapshot, selected, rfl⟩
  rw [selected?_of_frame found within] at selected
  obtain ⟨⟨entry, index⟩, first, rfl⟩ := Option.map_eq_some_iff.mp selected
  have there : frame.get? index = some entry :=
    List.mem_zipIdx_iff_getElem?.mp (List.mem_filter.mp (List.mem_of_head? first)).1
  have id : entry.id = ⟨index⟩ := Frame.id_of_numbered (numbered step frame found) there
  change entry.id.index < frame.size
  rw [id]
  exact (List.getElem?_eq_some_iff.mp there).1

theorem WellFormed.exists_frame
    (wellFormed : schedule.WellFormed) (positive : 0 < step) (within : step ≤ schedule.position) :
    ∃ frame, schedule.frame step = .ok frame :=
  Schedule.exists_frame positive (Nat.le_trans within wellFormed.position_le)

section Peopled

variable (wellFormed : schedule.WellFormed) (peopled : schedule.Peopled) {frame next : Frame}

include wellFormed peopled

theorem Peopled.size_le
    {later : Nat} (found : schedule.frame step = .ok frame)
    (also : schedule.frame later = .ok next) (le : step ≤ later)
    (within : later ≤ schedule.position) : frame.size ≤ next.size := by
  induction le generalizing next with
  | refl =>
      rw [found] at also
      cases also
      exact Nat.le_refl _
  | @step later le induction =>
      have positive : 0 < later := Nat.lt_of_lt_of_le (frame_eq_ok_iff.mp found).1 le
      obtain ⟨between, there⟩ := wellFormed.exists_frame positive (Nat.le_of_succ_le within)
      obtain ⟨snapshot, selected⟩ :=
        Option.isSome_iff_exists.mp (wellFormed.isSome_selected? positive within)
      have grown := peopled.grows later between next snapshot there also within selected
      have below := induction there (Nat.le_of_succ_le within)
      split at grown <;> omega

theorem Peopled.reaches_of_creates
    (numbered : schedule.Numbered) {actor created : Nat}
    (creates : schedule.CreatesAt actor created) (acts : schedule.ActsAt ⟨actor⟩ step) :
    schedule.Reaches created step := by
  induction step using Nat.strongRecOn with
  | ind step induction =>
      by_cases again : ∃ earlier < step, schedule.ActsAt ⟨actor⟩ earlier
      · obtain ⟨earlier, below, before⟩ := again
        exact (induction earlier below before).trans
          (reaches_of_acts before acts (Nat.le_of_lt below))
      · obtain ⟨⟨parent, there, size⟩, snapshot, selected, isCreate⟩ := creates
        have positive := (frame_eq_ok_iff.mp there).1
        obtain ⟨shown, found⟩ := wellFormed.exists_frame acts.positive acts.le_position
        -- The actor is not among those that its create shows, so that it acts later.
        have after : created < step := by
          apply Nat.lt_of_not_le
          intro early
          have within : created ≤ schedule.position :=
            ActsAt.le_position ⟨snapshot, selected, rfl⟩
          have above := peopled.size_le wellFormed found there early within
          have inside := index_lt_of_acts numbered acts found
          change actor < shown.size at inside
          omega
        have lived : schedule.lifeTarget? created = some actor := by
          have here := (frame_eq_ok_iff.mp there).2
          simp [lifeTarget?, selected, isCreate, here, size,
            Nat.lt_of_lt_of_le after acts.le_position]
        have begun : schedule.lifeTarget? step = some actor := by
          obtain ⟨starting, chosen, id⟩ := acts
          obtain ⟨first, root⟩ := wellFormed.exists_frame Nat.one_pos
            (Nat.le_trans positive (ActsAt.le_position ⟨snapshot, selected, rfl⟩))
          have newcomer : first.size ≤ starting.id.index := by
            rw [id, ← size]
            exact peopled.size_le wellFormed root there positive
              (ActsAt.le_position ⟨snapshot, selected, rfl⟩)
          have starts := peopled.starts first step starting root chosen newcomer (by
            intro earlier below before
            exact again ⟨earlier, below, id ▸ before⟩)
          rw [id] at starts
          simp [lifeTarget?, chosen, Snapshot.kind, starts, Operation.start]
        exact reaches_of_life positive lived begun (Nat.le_of_lt after)

theorem Peopled.lt_of_creates
    {actor later : Nat} (creates : schedule.CreatesAt actor step)
    (found : schedule.frame later = .ok frame) (lt : step < later)
    (within : later ≤ schedule.position) : actor < frame.size := by
  obtain ⟨⟨parent, there, rfl⟩, snapshot, selected, isCreate⟩ := creates
  obtain ⟨next, also⟩ := wellFormed.exists_frame (Nat.succ_pos step) (Nat.le_trans lt within)
  have grown := peopled.grows step parent next snapshot there also
    (Nat.lt_of_lt_of_le lt within) selected
  rw [if_pos isCreate] at grown
  have above := peopled.size_le wellFormed also found lt within
  omega

end Peopled

/-- Nothing between the steps of a race happens after the first and before the second of them. -/
theorem Reversible.not_between
    {race : Race} (wellFormed : schedule.WellFormed) (reversible : schedule.Reversible race)
    (after : race.first < step) (reached : schedule.Reaches race.first step)
    (reaches : schedule.Reaches step race.second) : step = race.second := by
  rcases reaches_iff.mp reaches with same | ⟨middle, precedes, before⟩
  · exact same
  · have above : race.first < middle := Nat.lt_of_lt_of_le after (before.le wellFormed)
    obtain ⟨target, sends, latest⟩ := reversible.sends
    obtain ⟨snapshot, selected⟩ := Option.isSome_iff_exists.mp (isSome_of_sendTarget? sends)
    have isSend := kind_of_sendTarget? selected sends
    exfalso
    cases precedes with
    | program acts positive previous =>
        obtain ⟨_, last, again, isLast, unordered⟩ := reversible.unordered
        obtain rfl := acts.unique again
        obtain rfl := previous.unique isLast
        rcases unordered with none | unreached
        · omega
        · exact unreached (reached.trans before)
    | life touches =>
        rw [(kind_of_lifeTarget? selected touches).1] at sends
        cases sends
    | send also positive isLast =>
        cases sends.symm.trans also
        have same := latest.unique isLast
        omega
    | receive chosen receives =>
        cases selected.symm.trans chosen
        rw [isSend] at receives
        cases receives
    | awaitDeadlock chosen awaits =>
        cases selected.symm.trans chosen
        rw [isSend] at awaits
        cases awaits

end Schedule

theorem Causality.Traces.exists_happensBefore
    {causality : Causality} {schedule : Schedule}
    (traces : causality.Traces schedule (schedule.position + 1)) (wellFormed : schedule.WellFormed)
    {earlier later : Nat} (earlierSelected : (schedule.selected? earlier).isSome)
    (laterSelected : (schedule.selected? later).isSome) :
    ∃ answer, causality.happensBefore schedule earlier later = .ok answer ∧
      (answer = true ↔ schedule.Reaches earlier later) := by
  obtain ⟨snapshot, selected⟩ := Option.isSome_iff_exists.mp earlierSelected
  obtain ⟨_, laterActs⟩ := Option.isSome_iff_exists.mp laterSelected
  have acts : schedule.ActsAt snapshot.id earlier := ⟨snapshot, selected, rfl⟩
  have within := Schedule.ActsAt.le_position ⟨_, laterActs, rfl⟩
  obtain ⟨frame, entry, found, chosen, rfl⟩ := wellFormed.exists_entry rfl selected
  refine ⟨_, Causality.happensBefore_eq_ok found chosen
    (Schedule.ActsAt.positive ⟨_, laterActs, rfl⟩) (traces.clocks ▸ within), ?_⟩
  have short : earlier < 2 ^ 32 := Nat.lt_of_le_of_lt acts.le_position wellFormed.short
  rw [decide_eq_true_iff, UInt32.le_iff_toNat_le, UInt32.toNat_ofNat_of_lt' short]
  exact traces.known later (Nat.lt_succ_of_le within) laterSelected earlier _ acts

namespace Race

variable {schedule : Schedule} {causality : Causality} {names : Nat → Option Nat}
  {first step count : Nat} {missing : List Nat}

/-- A new number is the old one without those of the actors that are missing below it. -/
def shift (missing : List Nat) (actor : Nat) : Nat :=
  actor - missing.countP fun other => other < actor

theorem countP_lt_le (ascending : missing.Pairwise (· < ·)) (actor : Nat) :
    (missing.countP fun other => other < actor) ≤ actor := by
  rw [List.countP_eq_length_filter]
  have few : (missing.filter fun other => other < actor) ⊆ List.range actor := by
    intro other member
    simpa using (List.mem_filter.mp member).2
  have distinct : (missing.filter fun other => other < actor).Nodup :=
    (ascending.imp Nat.ne_of_lt).filter _
  simpa using (List.subperm_of_subset distinct few).length_le

theorem renumber_eq_ok (ascending : missing.Pairwise (· < ·)) (actor : Nat) :
    renumber missing actor = .ok ⟨shift missing actor⟩ := by
  unfold renumber Checked.sub
  rw [if_pos (countP_lt_le ascending actor)]
  rfl

/-- After a race's first step a walk has come here, with the children of the creates that it has left
out. The other actors that there are have new names. -/
structure LeavesOut (schedule : Schedule) (first step : Nat) (names : Nat → Option Nat)
    (count : Nat) (missing : List Nat) : Prop where
  ascending : missing.Pairwise (· < ·)
  creates : ∀ actor ∈ missing, ∃ created, first < created ∧ created < step ∧
    schedule.CreatesAt actor created ∧ schedule.Reaches first created
  total : ∀ frame, schedule.frame step = .ok frame → frame.size = count + missing.length
  named : ∀ frame, schedule.frame step = .ok frame → ∀ actor < frame.size, actor ∉ missing →
    names actor = some (shift missing actor)

variable {frame : Frame} {snapshot : Snapshot}

theorem LeavesOut.lt_size
    (wellFormed : schedule.WellFormed) (peopled : schedule.Peopled)
    (leaves : LeavesOut schedule first step names count missing)
    (found : schedule.frame step = .ok frame) (within : step ≤ schedule.position)
    {actor : Nat} (member : actor ∈ missing) : actor < frame.size := by
  obtain ⟨created, -, before, creates, -⟩ := leaves.creates actor member
  exact peopled.lt_of_creates wellFormed creates found before within

theorem LeavesOut.named_of_acts
    (wellFormed : schedule.WellFormed) (peopled : schedule.Peopled) (numbered : schedule.Numbered)
    (leaves : LeavesOut schedule first step names count missing) {actor : ActorId}
    (found : schedule.frame step = .ok frame) (acts : schedule.ActsAt actor step)
    (unreached : ∀ created, first < created → created < step → schedule.Reaches first created →
      ¬ schedule.Reaches created step) :
    names actor.index = some (shift missing actor.index) := by
  refine leaves.named frame found _ (Schedule.index_lt_of_acts numbered acts found) ?_
  intro member
  obtain ⟨created, after, before, creates, reached⟩ := leaves.creates _ member
  exact unreached created after before reached
    (peopled.reaches_of_creates wellFormed numbered creates acts)

section Walk

variable (peopled : schedule.Peopled) (leaves : LeavesOut schedule first step names count missing)
  (found : schedule.frame step = .ok frame) (selected : schedule.selected? step = some snapshot)
  (within : step < schedule.position)

include peopled leaves found selected within

theorem LeavesOut.other (differs : snapshot.kind ≠ .create) :
    LeavesOut schedule first (step + 1) names count missing where
  ascending := leaves.ascending
  creates := by
    intro actor member
    obtain ⟨created, after, before, rest⟩ := leaves.creates actor member
    exact ⟨created, after, Nat.lt_succ_of_lt before, rest⟩
  total := by
    intro next also
    rw [peopled.grows step frame next snapshot found also within selected, if_neg differs]
    exact leaves.total frame found
  named := by
    intro next also
    rw [peopled.grows step frame next snapshot found also within selected, if_neg differs]
    exact leaves.named frame found

/-- A create that is kept gives the next name to its child. -/
theorem LeavesOut.create (wellFormed : schedule.WellFormed) (isCreate : snapshot.kind = .create) :
    LeavesOut schedule first (step + 1) (Function.update names frame.size (some count)) (count + 1)
      missing where
  ascending := leaves.ascending
  creates := by
    intro actor member
    obtain ⟨created, after, before, rest⟩ := leaves.creates actor member
    exact ⟨created, after, Nat.lt_succ_of_lt before, rest⟩
  total := by
    intro next also
    rw [peopled.grows step frame next snapshot found also within selected, if_pos isCreate,
      leaves.total frame found]
    omega
  named := by
    intro next also actor inside present
    rw [peopled.grows step frame next snapshot found also within selected,
      if_pos isCreate] at inside
    rcases Nat.lt_succ_iff_lt_or_eq.mp inside with old | rfl
    · rw [Function.update_of_ne (Nat.ne_of_lt old)]
      exact leaves.named frame found actor old present
    · have all : (missing.countP fun other => other < frame.size) = missing.length := by
        rw [List.countP_eq_length]
        intro other member
        simpa using leaves.lt_size wellFormed peopled found (Nat.le_of_lt within) member
      have total := leaves.total frame found
      rw [Function.update_self, shift, all]
      congr 1
      omega

/-- A create that is left out leaves its child out. -/
theorem LeavesOut.omit_create
    (wellFormed : schedule.WellFormed) (isCreate : snapshot.kind = .create) (after : first < step)
    (reached : schedule.Reaches first step) :
    LeavesOut schedule first (step + 1) names count (missing ++ [frame.size]) where
  ascending := by
    rw [List.pairwise_append]
    refine ⟨leaves.ascending, List.pairwise_singleton _ _, ?_⟩
    intro actor member child last
    rw [List.mem_singleton.mp last]
    exact leaves.lt_size wellFormed peopled found (Nat.le_of_lt within) member
  creates := by
    intro actor member
    rcases List.mem_append.mp member with old | last
    · obtain ⟨created, after, before, rest⟩ := leaves.creates actor old
      exact ⟨created, after, Nat.lt_succ_of_lt before, rest⟩
    · rw [List.mem_singleton.mp last]
      exact ⟨step, after, Nat.lt_succ_self step,
        ⟨⟨frame, found, rfl⟩, snapshot, selected, isCreate⟩, reached⟩
  total := by
    intro next also
    rw [peopled.grows step frame next snapshot found also within selected, if_pos isCreate,
      leaves.total frame found, List.length_append, List.length_singleton, Nat.add_assoc]
  named := by
    intro next also actor inside present
    rw [peopled.grows step frame next snapshot found also within selected,
      if_pos isCreate] at inside
    rw [List.mem_append, List.mem_singleton, not_or] at present
    have old : actor < frame.size := by omega
    rw [leaves.named frame found actor old present.1, shift, shift, List.countP_append,
      List.countP_singleton, if_neg (by simpa using Nat.le_of_lt old), Nat.add_zero]

end Walk

theorem shift_append
    {later : List Nat} {actor : Nat} (above : ∀ other ∈ later, actor ≤ other) :
    shift (missing ++ later) actor = shift missing actor := by
  have none : (later.countP fun other => other < actor) = 0 := by
    rw [List.countP_eq_zero]
    intro other member
    simpa using above other member
  rw [shift, shift, List.countP_append, none, Nat.add_zero]

theorem split_succ
    {entry : Frame.Entry} {answer : Bool} {kept later : List Nat} {rest : Nat}
    (found : schedule.frame step = .ok frame) (selected : frame.selected = .ok entry)
    (ordered : causality.happensBefore schedule first step = .ok answer)
    (after : split causality schedule first (step + 1) rest = .ok (kept, later)) :
    split causality schedule first step (rest + 1) =
      .ok (if answer = true then
          (kept, if entry.kind = .create then frame.size :: later else later)
        else (entry.id.index :: kept, later)) := by
  rw [split, found]
  change (frame.selected >>= _) = _
  rw [selected]
  change (causality.happensBefore schedule first step >>= _) = _
  rw [ordered]
  cases answer with
  | true | false =>
      change (split causality schedule first (step + 1) rest >>= _) = _
      rw [after]
      rfl

/-- What the walk from a step to the end of a race keeps, and what else it leaves out. -/
structure Splits (schedule : Schedule) (race : Race) (step : Nat) (names : Nat → Option Nat)
    (count : Nat) (missing : List Nat) (kept later listed : List Nat) (last : Nat) : Prop where
  ascending : (missing ++ later).Pairwise (· < ·)
  above : ∀ frame, schedule.frame step = .ok frame → ∀ actor ∈ later, frame.size ≤ actor
  sorted : listed.Pairwise (· < ·)
  mem_iff : ∀ other, other ∈ listed ↔
    step ≤ other ∧ other < race.second ∧ ¬ schedule.Reaches race.first other
  reruns : schedule.Reruns names count (listed ++ [race.second])
    ((kept ++ [last]).map fun actor => ⟨shift (missing ++ later) actor⟩)

section Splits

variable {race : Race} {later kept listed : List Nat} {last : Nat}
  (wellFormed : schedule.WellFormed) (peopled : schedule.Peopled) (within : step < schedule.position)

include wellFormed peopled within

theorem size_le_of_above
    (found : schedule.frame step = .ok frame)
    (above : ∀ next, schedule.frame (step + 1) = .ok next → ∀ actor ∈ later, next.size ≤ actor) :
    ∀ actor ∈ later, frame.size ≤ actor := by
  intro actor member
  obtain ⟨next, also⟩ := wellFormed.exists_frame (Nat.succ_pos step) within
  exact Nat.le_trans (peopled.size_le wellFormed found also (Nat.le_succ step) within)
    (above next also actor member)

theorem Splits.leave
    (splits : Splits schedule race (step + 1) names count missing kept later listed last)
    (reached : schedule.Reaches race.first step) :
    Splits schedule race step names count missing kept later listed last where
  ascending := splits.ascending
  above := by
    intro frame also
    exact size_le_of_above wellFormed peopled within also splits.above
  sorted := splits.sorted
  mem_iff := by
    intro other
    rw [splits.mem_iff]
    constructor
    · rintro ⟨above, rest⟩
      exact ⟨Nat.le_of_succ_le above, rest⟩
    · rintro ⟨above, below, unreached⟩
      refine ⟨Nat.lt_of_le_of_ne above ?_, below, unreached⟩
      rintro rfl
      exact unreached reached
  reruns := splits.reruns

theorem Splits.leave_create
    (found : schedule.frame step = .ok frame)
    (splits : Splits schedule race (step + 1) names count (missing ++ [frame.size]) kept later
      listed last)
    (reached : schedule.Reaches race.first step) :
    Splits schedule race step names count missing kept (frame.size :: later) listed last := by
  have same : missing ++ [frame.size] ++ later = missing ++ frame.size :: later := by simp
  have left := splits.leave wellFormed peopled within reached
  exact {
    ascending := same ▸ left.ascending
    above := by
      intro other also actor member
      rw [found] at also
      cases also
      rcases List.mem_cons.mp member with rfl | old
      · exact Nat.le_refl _
      · exact left.above frame found actor old
    sorted := left.sorted
    mem_iff := left.mem_iff
    reruns := same ▸ left.reruns }

theorem Splits.keep
    {others : Nat → Option Nat} {more actor : Nat} (found : schedule.frame step = .ok frame)
    (splits : Splits schedule race (step + 1) others more missing kept later listed last)
    (below : step < race.second) (unreached : ¬ schedule.Reaches race.first step)
    (inside : actor < frame.size)
    (reruns : ∀ steps ids, schedule.Reruns others more steps ids →
      schedule.Reruns names count (step :: steps) (⟨shift missing actor⟩ :: ids)) :
    Splits schedule race step names count missing (actor :: kept) later (step :: listed) last := by
  have above := size_le_of_above wellFormed peopled within found splits.above
  exact {
    ascending := splits.ascending
    above := by
      intro other also
      rw [found] at also
      cases also
      exact above
    sorted := by
      refine .cons ?_ splits.sorted
      intro other member
      exact ((splits.mem_iff other).mp member).1
    mem_iff := by
      intro other
      rw [List.mem_cons, splits.mem_iff]
      constructor
      · rintro (rfl | ⟨after, rest⟩)
        · exact ⟨Nat.le_refl _, below, unreached⟩
        · exact ⟨Nat.le_of_succ_le after, rest⟩
      · rintro ⟨after, rest⟩
        exact (Nat.eq_or_lt_of_le after).imp Eq.symm fun later => ⟨later, rest⟩
    reruns := by
      have same : shift (missing ++ later) actor = shift missing actor :=
        shift_append fun other member => Nat.le_of_lt (Nat.lt_of_lt_of_le inside (above other member))
      have further := reruns _ _ splits.reruns
      rwa [← same] at further }

end Splits

section Split

variable (wellFormed : schedule.WellFormed) (numbered : schedule.Numbered)
  (peopled : schedule.Peopled) (traces : causality.Traces schedule (schedule.position + 1))
  {race : Race} (reversible : schedule.Reversible race) {second : Snapshot}
  (ends : schedule.selected? race.second = some second)

include wellFormed numbered peopled reversible ends

/-- The walk ends at the second action of the race, which comes last. -/
theorem LeavesOut.splits_last
    (leaves : LeavesOut schedule race.first race.second names count missing) :
    Splits schedule race race.second names count missing [] [] [] second.id.index := by
  obtain ⟨frame, entry, found, -, same⟩ := wellFormed.exists_entry rfl ends
  have named := leaves.named_of_acts wellFormed peopled numbered found ⟨second, ends, rfl⟩ (by
    intro created above below reached reaches
    exact Nat.ne_of_lt below (reversible.not_between wellFormed above reached reaches))
  obtain ⟨target, sends, -⟩ := reversible.sends
  have isSend := Schedule.kind_of_sendTarget? ends sends
  constructor
  case ascending => exact (List.append_nil missing).symm ▸ leaves.ascending
  case above => simp
  case sorted => exact .nil
  case mem_iff =>
    intro other
    simp only [List.not_mem_nil, false_iff, not_and]
    omega
  case reruns =>
    rw [List.append_nil]
    exact .other ends (by rw [isSend]; nofun) named .done

include traces

theorem exists_split
    {rest : Nat} (leaves : LeavesOut schedule race.first step names count missing)
    (after : race.first < step) (upTo : step + rest = race.second) :
    ∃ kept later listed, split causality schedule race.first step rest = .ok (kept, later) ∧
      Splits schedule race step names count missing kept later listed second.id.index := by
  induction rest generalizing step names count missing with
  | zero =>
      obtain rfl : step = race.second := upTo
      exact ⟨[], [], [], rfl, leaves.splits_last wellFormed numbered peopled reversible ends⟩
  | succ rest induction =>
      have below : step < race.second := by omega
      have within : step < schedule.position := Nat.lt_of_lt_of_le below reversible.le_position
      have positive : 0 < step := Nat.lt_of_le_of_lt (Nat.zero_le _) after
      have chosen := wellFormed.isSome_selected? positive within
      obtain ⟨snapshot, selected⟩ := Option.isSome_iff_exists.mp chosen
      obtain ⟨frame, entry, found, selectedEntry, rfl⟩ := wellFormed.exists_entry rfl selected
      obtain ⟨answer, ordered, iff⟩ := traces.exists_happensBefore wellFormed
        (wellFormed.isSome_selected? reversible.positive (Nat.lt_trans after within)) chosen
      cases answer with
      | true =>
          have reached := iff.mp rfl
          by_cases isCreate : entry.kind = .create
          · obtain ⟨kept, later, listed, walked, splits⟩ := induction
              (leaves.omit_create peopled found selected within wellFormed isCreate after reached)
              (Nat.lt_succ_of_lt after) (by omega)
            refine ⟨kept, frame.size :: later, listed, ?_,
              splits.leave_create wellFormed peopled within found reached⟩
            rw [split_succ found selectedEntry ordered walked, if_pos rfl, if_pos isCreate]
          · obtain ⟨kept, later, listed, walked, splits⟩ := induction
              (leaves.other peopled found selected within isCreate)
              (Nat.lt_succ_of_lt after) (by omega)
            refine ⟨kept, later, listed, ?_, splits.leave wellFormed peopled within reached⟩
            rw [split_succ found selectedEntry ordered walked, if_pos rfl, if_neg isCreate]
      | false =>
          have unreached : ¬ schedule.Reaches race.first step :=
            fun reaches => Bool.false_ne_true (iff.mpr reaches)
          have acts : schedule.ActsAt entry.id step := ⟨entry.snapshot, selected, rfl⟩
          have inside := Schedule.index_lt_of_acts numbered acts found
          have named := leaves.named_of_acts wellFormed peopled numbered found acts
            fun created _ _ reached reaches => unreached (reached.trans reaches)
          by_cases isCreate : entry.kind = .create
          · have creates : schedule.CreatesAt frame.size step :=
              ⟨⟨frame, found, rfl⟩, entry.snapshot, selected, isCreate⟩
            obtain ⟨kept, later, listed, walked, splits⟩ := induction
              (leaves.create peopled found selected within wellFormed isCreate)
              (Nat.lt_succ_of_lt after) (by omega)
            refine ⟨entry.id.index :: kept, later, step :: listed, ?_,
              splits.keep wellFormed peopled within found below unreached inside
                fun steps ids rest => .create creates selected named rest⟩
            rw [split_succ found selectedEntry ordered walked, if_neg Bool.false_ne_true]
          · obtain ⟨kept, later, listed, walked, splits⟩ := induction
              (leaves.other peopled found selected within isCreate)
              (Nat.lt_succ_of_lt after) (by omega)
            refine ⟨entry.id.index :: kept, later, step :: listed, ?_,
              splits.keep wellFormed peopled within found below unreached inside
                fun steps ids rest => .other selected isCreate named rest⟩
            rw [split_succ found selectedEntry ordered walked, if_neg Bool.false_ne_true]

end Split

theorem Splits.keeps
    {race : Race} {kept later listed : List Nat} {last : Nat}
    (splits : Splits schedule race (race.first + 1) names count missing kept later listed last)
    (wellFormed : schedule.WellFormed) (reversible : schedule.Reversible race) :
    schedule.Keeps race (listed ++ [race.second]) := by
  have mem_iff : ∀ step, step ∈ listed ++ [race.second] ↔
      race.first < step ∧ step < race.second ∧ ¬ schedule.Reaches race.first step ∨
        step = race.second := by
    intro step
    rw [List.mem_append, List.mem_singleton, splits.mem_iff]
    exact Iff.rfl
  refine ⟨?_, mem_iff, ?_⟩
  · rw [List.pairwise_append]
    refine ⟨splits.sorted, List.pairwise_singleton _ _, ?_⟩
    intro step member second last
    rw [List.mem_singleton.mp last]
    exact ((splits.mem_iff step).mp member).2.1
  · intro step later member above reaches
    rw [mem_iff] at member ⊢
    by_cases isSecond : step = race.second
    · exact .inr isSecond
    · have le := reaches.le wellFormed
      refine .inl ⟨above, ?_, ?_⟩
      · rcases member with ⟨-, below, -⟩ | rfl <;> omega
      · intro reached
        rcases member with ⟨-, -, unreached⟩ | rfl
        · exact unreached (reached.trans reaches)
        · exact isSecond (reversible.not_between wellFormed above reached reaches)

theorem leavesOut_start
    (peopled : schedule.Peopled) {snapshot : Snapshot} (found : schedule.frame first = .ok frame)
    (selected : schedule.selected? first = some snapshot) (within : first < schedule.position)
    (differs : snapshot.kind ≠ .create) :
    LeavesOut schedule first (first + 1) frame.names frame.size [] where
  ascending := .nil
  creates := by
    intro actor member
    cases member
  total := by
    intro next also
    rw [peopled.grows first frame next snapshot found also within selected, if_neg differs]
    rfl
  named := by
    intro next also actor inside _
    rw [peopled.grows first frame next snapshot found also within selected,
      if_neg differs] at inside
    exact if_pos inside

theorem suffix_eq_ok
    {race : Race} {kept missing : List Nat} {entry : Frame.Entry} (short : race.first + 1 < 2 ^ 32)
    (walked : split causality schedule race.first (race.first + 1)
      (race.second - (race.first + 1)) = .ok (kept, missing))
    (found : schedule.frame race.second = .ok frame) (selected : frame.selected = .ok entry)
    (ascending : missing.Pairwise (· < ·)) :
    suffix causality schedule race =
      .ok ((kept ++ [entry.id.index]).map fun actor => ⟨shift missing actor⟩) := by
  have counted : Checked.add race.first 1 = .ok (race.first + 1) := by
    have word : wordSize = 2 ^ 64 := rfl
    exact if_pos (by omega)
  unfold suffix
  rw [counted]
  change (split causality schedule race.first (race.first + 1) _ >>= _) = _
  rw [walked]
  change (schedule.frame race.second >>= _) = _
  rw [found]
  change (frame.selected >>= _) = _
  rw [selected]
  exact Checked.mapM_eq_ok fun actor _ => renumber_eq_ok ascending actor

end Race

namespace Schedule

variable {schedule : Schedule} {names : Nat → Option Nat} {count : Nat} {steps : List Nat}
  {ids : List ActorId}

theorem Reruns.not_mem
    (reruns : schedule.Reruns names count steps ids) {actor : ActorId} {name : Nat}
    (below : name < count) (only : ∀ other, names other = some name → other = actor.index)
    (absent : ∀ step ∈ steps, ¬ schedule.ActsAt actor step) : ⟨name⟩ ∉ ids := by
  induction reruns with
  | done => exact List.not_mem_nil
  | @create names count step child given snapshot steps ids creates selected named rest induction =>
      rw [List.mem_cons, not_or]
      constructor
      · intro same
        cases same
        exact absent step List.mem_cons_self
          ⟨snapshot, selected, ActorId.ext_iff.mpr (only _ named)⟩
      · apply induction (Nat.lt_succ_of_lt below)
        · intro other renamed
          by_cases isChild : other = child
          · rw [isChild, Function.update_self] at renamed
            cases renamed
            exact absurd below (Nat.lt_irrefl _)
          · rw [Function.update_of_ne isChild] at renamed
            exact only other renamed
        · exact fun step member => absent step (List.mem_cons_of_mem _ member)
  | @other names count step given snapshot steps ids selected differs named rest induction =>
      rw [List.mem_cons, not_or]
      constructor
      · intro same
        cases same
        exact absent step List.mem_cons_self
          ⟨snapshot, selected, ActorId.ext_iff.mpr (only _ named)⟩
      · exact induction below only fun step member => absent step (List.mem_cons_of_mem _ member)

theorem Keeps.not_acts
    {race : Race} {listed : List Nat} (keeps : schedule.Keeps race listed)
    (reversible : schedule.Reversible race) {actor : ActorId}
    (acts : schedule.ActsAt actor race.first) (step : Nat) (member : step ∈ listed) :
    ¬ schedule.ActsAt actor step := by
  intro again
  rcases (keeps.mem_iff step).mp member with ⟨after, -, unreached⟩ | rfl
  · exact unreached (reaches_of_acts acts again (Nat.le_of_lt after))
  · exact reversible.not_acts again acts

end Schedule

namespace Analysis

open Attempt

variable {before after : Analysis × Log}

/-- The reversal of a race that an analysis has recorded names an actor for each step that it runs:
an actor that was there at the first step of the race keeps its number, and the children of the
creates that are run get the next numbers one by one. -/
theorem suffix_reruns
    (wellFormed : before.1.schedule.WellFormed) (numbered : before.1.schedule.Numbered)
    (peopled : before.1.schedule.Peopled) (returned : (run true).Returns before () after)
    {race : Race} (recorded : race ∈ after.1.causality.races) :
    ∃ frame listed ids, before.1.schedule.frame race.first = .ok frame ∧
      Race.suffix after.1.causality after.1.schedule race = .ok ids ∧
      before.1.schedule.Keeps race listed ∧
      before.1.schedule.Reruns frame.names frame.size listed ids ∧
      ∀ actor, before.1.schedule.ActsAt actor race.first → actor ∉ ids := by
  have storable := storable_of_run wellFormed returned
  obtain ⟨other, also, unchanged, reported⟩ := exists_recording wellFormed numbered storable
  obtain rfl := (returned.unique also).2
  have traces := traces_run wellFormed returned
  rw [unchanged]
  have reversible := (reported.mem_iff race).mp recorded
  generalize before.1.schedule = schedule at *
  have le := reversible.le_position
  have ordered := reversible.ordered
  have chosen := wellFormed.isSome_selected? reversible.positive (Nat.lt_of_lt_of_le ordered le)
  obtain ⟨snapshot, selected⟩ := Option.isSome_iff_exists.mp chosen
  obtain ⟨frame, entry, found, -, -⟩ := wellFormed.exists_entry rfl selected
  obtain ⟨target, sends, latest⟩ := reversible.sends
  obtain ⟨second, ends⟩ := Option.isSome_iff_exists.mp (Schedule.isSome_of_sendTarget? sends)
  obtain ⟨lastFrame, last, there, selectedLast, rfl⟩ := wellFormed.exists_entry rfl ends
  have isSend := Schedule.kind_of_sendTarget? selected (latest.holds reversible.positive)
  have start := Race.leavesOut_start peopled found selected (Nat.lt_of_lt_of_le ordered le)
    (by rw [isSend]; nofun)
  obtain ⟨kept, missing, listed, walked, splits⟩ := Race.exists_split wellFormed numbered peopled
    traces reversible ends start (Nat.lt_succ_self _)
    (show race.first + 1 + (race.second - (race.first + 1)) = race.second by omega)
  have short := wellFormed.short
  have keeps := splits.keeps wellFormed reversible
  refine ⟨frame, _, _, found, Race.suffix_eq_ok (by omega) walked there selectedLast
    splits.ascending, keeps, splits.reruns, ?_⟩
  intro actor acts
  apply splits.reruns.not_mem (Schedule.index_lt_of_acts numbered acts found)
  · intro other named
    exact Frame.names_eq_some named
  · exact keeps.not_acts reversible acts

end Analysis

namespace Schedule

theorem peopled_of_frames
    {schedule : Schedule}
    (grows : ∀ step < schedule.position, ∀ frame ∈ schedule.frames[step - 1]?,
      ∀ next ∈ schedule.frames[step]?, ∀ snapshot ∈ schedule.selected? step,
        next.size = if snapshot.kind = .create then frame.size + 1 else frame.size)
    (starts : ∀ first ∈ schedule.frames[0]?, ∀ step < schedule.position + 1,
      ∀ snapshot ∈ schedule.selected? step, first.size ≤ snapshot.id.index →
        (∀ earlier < step, ∀ other ∈ schedule.selected? earlier, other.id ≠ snapshot.id) →
          snapshot.operation = .start snapshot.id) : schedule.Peopled where
  grows := by
    intro step frame next snapshot found also within selected
    exact grows step within frame (frame_eq_ok_iff.mp found).2 next (frame_eq_ok_iff.mp also).2
      snapshot selected
  starts := by
    intro first step snapshot found selected newcomer absent
    have within := ActsAt.le_position ⟨snapshot, selected, rfl⟩
    apply starts first (frame_eq_ok_iff.mp found).2 step (Nat.lt_succ_of_le within) snapshot
      selected newcomer
    intro earlier below other chosen same
    exact absent earlier below ⟨other, chosen, same⟩

/-- Between two sends to the first actor, the second actor and the third create one each. The fifth
actor, which the third creates, sends the second message. -/
def offspring : Schedule :=
  ⟨#[⟨[recorded 0 (.receive ⟨0⟩) none false, recorded 1 (.send ⟨0⟩) none true,
       recorded 2 .create none false]⟩,
     ⟨[recorded 0 (.receive ⟨0⟩) (some 1) false, recorded 1 .create none true,
       recorded 2 .create none false]⟩,
     ⟨[recorded 0 (.receive ⟨0⟩) (some 1) false, recorded 1 (.stop ⟨1⟩) none false,
       recorded 2 .create none true, recorded 3 (.start ⟨3⟩) none false]⟩,
     ⟨[recorded 0 (.receive ⟨0⟩) (some 1) false, recorded 1 (.stop ⟨1⟩) none false,
       recorded 2 (.stop ⟨2⟩) none false, recorded 3 (.start ⟨3⟩) none false,
       recorded 4 (.start ⟨4⟩) none true]⟩,
     ⟨[recorded 0 (.receive ⟨0⟩) (some 1) false, recorded 1 (.stop ⟨1⟩) none false,
       recorded 2 (.stop ⟨2⟩) none false, recorded 3 (.start ⟨3⟩) none false,
       recorded 4 (.send ⟨0⟩) none true]⟩],
   5⟩

end Schedule

namespace Analysis

theorem suffix_reruns_offspring :
    ∃ after, (run true).Returns (⟨.offspring, .empty⟩, .empty .error) () after ∧
      ⟨1, 5⟩ ∈ after.1.causality.races ∧
      Race.suffix after.1.causality after.1.schedule ⟨1, 5⟩ = .ok [⟨2⟩, ⟨3⟩, ⟨3⟩] ∧
      ∃ frame listed ids, Schedule.offspring.frame 1 = .ok frame ∧
        Race.suffix after.1.causality after.1.schedule ⟨1, 5⟩ = .ok ids ∧
        Schedule.offspring.Keeps ⟨1, 5⟩ listed ∧
        Schedule.offspring.Reruns frame.names frame.size listed ids := by
  have wellFormed : Schedule.offspring.WellFormed :=
    Schedule.wellFormed_of_frames (by decide) (by decide) (by decide) (by decide) (by decide)
  have numbered : Schedule.offspring.Numbered := Schedule.numbered_of_ids (by decide)
  have peopled : Schedule.offspring.Peopled :=
    Schedule.peopled_of_frames (by decide) (by decide)
  obtain ⟨after, returned, races, suffix⟩ :
      ∃ after, (run true).Returns (⟨.offspring, .empty⟩, .empty .error) () after ∧
        ⟨1, 5⟩ ∈ after.1.causality.races ∧
        Race.suffix after.1.causality after.1.schedule ⟨1, 5⟩ = .ok [⟨2⟩, ⟨3⟩, ⟨3⟩] :=
    ⟨_, Attempt.returns_of_isOk (by decide +kernel), by decide +kernel, by decide +kernel⟩
  obtain ⟨frame, listed, ids, found, runs, keeps, reruns, -⟩ :=
    suffix_reruns wellFormed numbered peopled returned races
  exact ⟨after, returned, races, suffix, frame, listed, ids, found, runs, keeps, reruns⟩

end Analysis

end Interleave
