import Interleave.Proofs.Race.Reversals
import Interleave.Proofs.Search.Frames

namespace Interleave

theorem Checked.exists_foldlM
    {α β : Type} {step : α → β → Except Fault α} {motive : α → Prop} {items : List β} {first : α}
    (start : motive first)
    (round : ∀ state item, item ∈ items → motive state →
      ∃ next, step state item = .ok next ∧ motive next) :
    ∃ last, items.foldlM step first = .ok last ∧ motive last := by
  induction items generalizing first with
  | nil => exact ⟨first, rfl, start⟩
  | cons item rest induction =>
      obtain ⟨next, stepped, kept⟩ := round first item List.mem_cons_self start
      obtain ⟨last, folded, holds⟩ := induction kept
        fun state item member => round state item (List.mem_cons_of_mem _ member)
      rw [List.foldlM_cons]
      exact ⟨last, Checked.bind_eq_ok_iff.mpr ⟨next, stepped, folded⟩, holds⟩

theorem Attempt.exists_loop
    {σ : Type} {body : Nat → Attempt σ Unit} {motive : Nat → σ × Log → Prop} {first count : Nat}
    {before : σ × Log} (start : motive first before)
    (round : ∀ step between, first ≤ step → step < first + count → motive step between →
      ∃ next, Returns (body step) between () next ∧ motive (step + 1) next) :
    ∃ after, Returns (forIn (List.range' first count) PUnit.unit fun step _ => do
        body step
        pure (ForInStep.yield PUnit.unit)) before ⟨⟩ after ∧ motive (first + count) after := by
  induction count generalizing first before with
  | zero => exact ⟨before, by simp, start⟩
  | succ count induction =>
      obtain ⟨next, worked, kept⟩ := round first before (Nat.le_refl first) (by omega) start
      obtain ⟨after, looped, holds⟩ := induction kept
        fun step between lower upper => round step between (by omega) (by omega)
      refine ⟨after, ?_, by rwa [show first + (count + 1) = first + 1 + count by omega]⟩
      simp only [List.range'_succ, List.forIn_cons, returns_bind_iff, returns_pure_iff]
      exact ⟨_, next, ⟨_, next, worked, rfl, rfl⟩, looped⟩

namespace Schedule

def Numbered (schedule : Schedule) : Prop :=
  ∀ step frame, schedule.frame step = .ok frame → Interleave.Numbered frame.actors

/-- A table has a place for everybody that a step touches: it could be allocated up to there. -/
def Storable (schedule : Schedule) : Prop :=
  ∀ step target, schedule.lifeTarget? step = some target ∨ schedule.sendTarget? step = some target →
    target + 1 < 2 ^ 60

variable {schedule current : Schedule} {step : Nat}

theorem inside_of_touches
    {target : Nat}
    (touches : schedule.lifeTarget? step = some target ∨ schedule.sendTarget? step = some target) :
    0 < step ∧ step ≤ schedule.position := by
  have chosen : (schedule.selected? step).isSome :=
    touches.elim isSome_of_lifeTarget? isSome_of_sendTarget?
  obtain ⟨snapshot, selected⟩ := Option.isSome_iff_exists.mp chosen
  have acts : schedule.ActsAt snapshot.id step := ⟨snapshot, selected, rfl⟩
  exact ⟨acts.positive, acts.le_position⟩

theorem exists_frame (positive : 0 < step) (inside : step ≤ schedule.length) :
    ∃ frame, schedule.frame step = .ok frame := by
  have there : step - 1 < schedule.frames.size := by
    simp only [length] at inside
    omega
  exact ⟨_, frame_eq_ok_iff.mpr ⟨positive, Array.getElem?_eq_getElem there⟩⟩

theorem numbered_of_ids
    (ids : ∀ frame ∈ schedule.frames.toList,
      frame.actors.map Snapshot.id = (List.range frame.size).map ActorId.mk) :
    schedule.Numbered := by
  intro step frame found index snapshot there
  have member : frame ∈ schedule.frames.toList :=
    List.mem_of_getElem? (by simpa using (frame_eq_ok_iff.mp found).2)
  have id := congrArg (fun ids => ids[index]?) (ids frame member)
  simp only [List.getElem?_map, there, Option.map_some] at id
  obtain ⟨position, inside, same⟩ := Option.map_eq_some_iff.mp id.symm
  rw [(List.getElem?_eq_some_iff.mp inside).2.symm, List.getElem_range] at same
  exact same.symm

theorem Numbered.index_lt
    (numbered : schedule.Numbered) (recorded : current.unmark = schedule.unmark)
    {frame : Frame} {entry : Frame.Entry} {index : Nat} (found : current.frame step = .ok frame)
    (selection : frame.selection? = .ok (some (entry, index))) :
    frame.get? index = some entry ∧ entry.id = ⟨index⟩ ∧ index < frame.size := by
  have there : frame.get? index = some entry := by
    have member : (entry, index) ∈ frame.selections := by
      rw [Frame.selection?_eq_some_iff.mp selection]
      exact List.mem_singleton_self _
    exact List.mem_zipIdx_iff_getElem?.mp (List.mem_filter.mp member).1
  obtain ⟨other, also, equal⟩ := frame_of_unmark_eq recorded found
  have sameActors : frame.actors = other.actors := by
    rw [← Frame.actors_unmark frame, ← equal, Frame.actors_unmark]
  have here : Interleave.Numbered frame.actors := by
    rw [sameActors]
    exact numbered step other also
  exact ⟨there, Frame.id_of_numbered here there, (List.getElem?_eq_some_iff.mp there).1⟩

end Schedule

theorem Latest.exists_assign (latest : Latest) {key : Nat} (step : Nat) (fits : key + 1 < 2 ^ 60) :
    ∃ changed, latest.assign key step = .ok changed := by
  have room : Checked.room (key + 1) 8 = .ok () := by
    have word : wordSize = 2 ^ 64 := rfl
    rw [Checked.room_eq_ok_iff, word]
    omega
  exact ⟨_, Checked.bind_eq_ok_iff.mpr ⟨(), room, rfl⟩⟩

theorem Latest.fits_of_assign
    {latest changed : Latest} {key step : Nat} (assigns : latest.assign key step = .ok changed) :
    key + 1 < 2 ^ 60 := by
  obtain ⟨_, room, -⟩ := Checked.bind_eq_ok_iff.mp assigns
  have word : wordSize = 2 ^ 64 := rfl
  have fits := Checked.room_eq_ok_iff.mp room
  rw [word] at fits
  omega

namespace Causality

variable {causality followed : Causality} {schedule : Schedule} {step : Nat}

theorem exists_joinStep
    {earlier : Nat} (positive : 0 < earlier) (within : earlier ≤ causality.clocks.size)
    (later : Nat) : ∃ joined, causality.joinStep later earlier = .ok joined :=
  ⟨_, Checked.bind_eq_ok_iff.mpr ⟨_, clock_eq_ok_iff.mpr ⟨positive, within, rfl⟩, rfl⟩⟩

theorem Traces.exists_follow
    (traces : causality.Traces schedule step) {actor : Nat} (positive : 0 < step)
    (within : step ≤ schedule.position) (known : actor < causality.actors) :
    ∃ followed, causality.follow actor step = .ok followed := by
  have below := (traces.lastStep actor).1
  rw [← traces.clocks] at within
  unfold Causality.follow
  dsimp only
  rw [if_neg (Nat.not_le.mpr known)]
  split
  · rename_i taken
    exact ⟨_, Checked.bind_eq_ok_iff.mpr
      ⟨_, clock_eq_ok_iff.mpr ⟨taken, by omega, rfl⟩, rfl⟩⟩
  · exact ⟨_, Checked.bind_eq_ok_iff.mpr ⟨_, clock_eq_ok_iff.mpr ⟨positive, within, rfl⟩, rfl⟩⟩

theorem exists_joinOthers
    (recorded : ∀ other, causality.lastStep.get other ≤ causality.clocks.size) (actor step : Nat) :
    ∃ joined, causality.joinOthers actor step = .ok joined := by
  have joins : ∃ joined, causality.joinOthers actor step = .ok joined ∧
      joined.lastStep = causality.lastStep ∧ joined.clocks.size = causality.clocks.size := by
    apply Checked.exists_foldlM (motive := fun state : Causality =>
      state.lastStep = causality.lastStep ∧ state.clocks.size = causality.clocks.size) ⟨rfl, rfl⟩
    rintro state other - ⟨sameLast, sameSize⟩
    dsimp only
    rw [sameLast]
    split
    · rename_i due
      have within : causality.lastStep.get other ≤ state.clocks.size := by
        rw [sameSize]
        exact recorded other
      obtain ⟨joined, joins⟩ := exists_joinStep due.2 within step
      obtain ⟨-, rfl⟩ := joinStep_eq_ok joins
      exact ⟨_, joins, sameLast, (size_clocks_modifyClock step _).trans sameSize⟩
    · exact ⟨state, rfl, sameLast, sameSize⟩
  exact joins.imp fun _ joined => joined.1

theorem Traces.exists_touch
    (wellFormed : schedule.WellFormed) (storable : schedule.Storable)
    (traces : causality.Traces schedule step) {frame : Frame} {entry : Frame.Entry}
    (within : step ≤ schedule.position)
    (sized : schedule.frames[step - 1]?.map Frame.size = some frame.size)
    (selected : schedule.selected? step = some entry.snapshot)
    (follows : causality.Followed schedule step entry.id.index followed) :
    ∃ partner touched,
      followed.touch schedule.position step frame entry = .ok (partner, touched) := by
  rw [touch_eq sized selected]
  cases life : schedule.lifeTarget? step with
  | some target =>
      obtain ⟨table, assigns⟩ := followed.lastOfLife.exists_assign step
        (storable step target (.inl life))
      exact ⟨_, _, Checked.bind_eq_ok_iff.mpr ⟨table, assigns, rfl⟩⟩
  | none =>
      cases send : schedule.sendTarget? step with
      | some target =>
          obtain ⟨table, assigns⟩ := followed.lastSend.exists_assign step
            (storable step target (.inr send))
          exact ⟨_, _, Checked.bind_eq_ok_iff.mpr ⟨table, assigns, rfl⟩⟩
      | none =>
          cases kind : entry.kind
          case awaitDeadlock =>
            have recorded : ∀ other, followed.lastStep.get other ≤ followed.clocks.size := by
              intro other
              rw [follows.sameClocks.1, traces.clocks, follows.rest]
              simp only [Latest.get_set]
              split
              · exact within
              · exact Nat.le_of_lt (Nat.lt_of_lt_of_le (traces.lastStep other).1 within)
            obtain ⟨joined, joins⟩ := exists_joinOthers recorded entry.id.index step
            exact ⟨_, _, Checked.bind_eq_ok_iff.mpr ⟨joined, joins, rfl⟩⟩
          case invalid => exact absurd kind (wellFormed.valid step _ selected)
          all_goals exact ⟨_, _, rfl⟩

/-- Whoever a step touches has a place in the table where the step is noted. -/
theorem fits_of_touch
    {touched : Causality} {partner target : Nat} {frame : Frame} {entry : Frame.Entry}
    (sized : schedule.frames[step - 1]?.map Frame.size = some frame.size)
    (selected : schedule.selected? step = some entry.snapshot)
    (touches : causality.touch schedule.position step frame entry = .ok (partner, touched))
    (targets : schedule.lifeTarget? step = some target ∨ schedule.sendTarget? step = some target) :
    target + 1 < 2 ^ 60 := by
  rw [touch_eq sized selected] at touches
  rcases targets with life | send
  · rw [life] at touches
    obtain ⟨table, assigns, -⟩ := Checked.bind_eq_ok_iff.mp touches
    exact Latest.fits_of_assign assigns
  · have noLife : schedule.lifeTarget? step = none := by
      have kind := Schedule.kind_of_sendTarget? selected send
      simp only [Schedule.lifeTarget?, selected, Option.bind_some, kind]
    rw [noLife, send] at touches
    obtain ⟨table, assigns, -⟩ := Checked.bind_eq_ok_iff.mp touches
    exact Latest.fits_of_assign assigns

end Causality

namespace Analysis

open Attempt

variable {schedule : Schedule} {recording : Bool} {step partner index : Nat}
  {before after between : Analysis × Log} {frame : Frame} {entry : Frame.Entry}
  {followed touched joined : Causality}

theorem visit_idle
    (found : before.1.schedule.frame step = .ok frame) (nothing : frame.selection? = .ok none) :
    (visit recording step).Returns before () before := by
  simp only [visit, returns_bind_iff, returns_get_iff, returns_lift_iff]
  refine ⟨_, _, ⟨rfl, rfl⟩, frame, _, ⟨found, rfl⟩, none, _, ⟨nothing, rfl⟩, ?_⟩
  simp only [returns_pure_iff, and_self]

section Selected

variable (found : before.1.schedule.frame step = .ok frame)
  (selection : frame.selection? = .ok (some (entry, index)))
  (follows : before.1.causality.follow entry.id.index step = .ok followed)

include found selection follows

theorem visit_alone
    (touches : followed.touch before.1.schedule.position step frame entry = .ok (0, touched)) :
    (visit recording step).Returns before () (before.1.setCausality touched, before.2) := by
  simp only [visit, returns_bind_iff, returns_get_iff, returns_lift_iff]
  refine ⟨_, _, ⟨rfl, rfl⟩, frame, _, ⟨found, rfl⟩, _, _, ⟨selection, rfl⟩, ?_⟩
  simp only [returns_bind_iff, returns_get_iff, returns_lift_iff, returns_modify_iff]
  refine ⟨_, _, ⟨rfl, rfl⟩, followed, _, ⟨follows, rfl⟩, _, _, ⟨touches, rfl⟩, ⟨⟩, _, rfl, ?_⟩
  simp only [if_true, returns_pure_iff, and_self]

theorem visit_joins
    (touches : followed.touch before.1.schedule.position step frame entry = .ok (partner, touched))
    (somebody : partner ≠ 0) {isRace : Bool} {clock : Clock}
    (decided : touched.isRace before.1.schedule partner step = .ok isRace)
    (timed : touched.clock step = .ok clock)
    (answers : Answers recording ⟨partner, step⟩ entry isRace
      (before.1.setCausality touched,
        if isRace then before.2.add (.race partner step clock) else before.2) between)
    (joins : between.1.causality.joinStep step partner = .ok joined) :
    (visit recording step).Returns before () (between.1.setCausality joined, between.2) := by
  simp only [visit, returns_bind_iff, returns_get_iff, returns_lift_iff]
  refine ⟨_, _, ⟨rfl, rfl⟩, frame, _, ⟨found, rfl⟩, _, _, ⟨selection, rfl⟩, ?_⟩
  simp only [returns_bind_iff, returns_get_iff, returns_lift_iff, returns_modify_iff]
  refine ⟨_, _, ⟨rfl, rfl⟩, followed, _, ⟨follows, rfl⟩, _, _, ⟨touches, rfl⟩, ⟨⟩, _, rfl, ?_⟩
  rw [if_neg somebody]
  simp only [returns_bind_iff, returns_lift_iff]
  refine ⟨isRace, _, ⟨decided, rfl⟩, ?_⟩
  cases isRace with
  | false =>
      obtain rfl : _ = between := answers
      simp only [Bool.false_eq_true, if_false, returns_bind_iff, returns_get_iff, returns_lift_iff,
        returns_modify_iff]
      exact ⟨_, _, ⟨rfl, rfl⟩, joined, _, ⟨joins, rfl⟩, rfl⟩
  | true =>
      simp only [if_true, returns_bind_iff, returns_lift_iff, returns_log_iff]
      refine ⟨clock, _, ⟨timed, rfl⟩, ⟨⟩, _, rfl, ?_⟩
      cases recording with
      | false =>
          simp only [Bool.false_eq_true, if_false, returns_bind_iff, returns_get_iff,
            returns_lift_iff, returns_modify_iff]
          exact ⟨⟨⟩, between, answers, _, _, ⟨rfl, rfl⟩, joined, _, ⟨joins, rfl⟩, rfl⟩
      | true =>
          simp only [if_true, returns_bind_iff, returns_get_iff, returns_lift_iff,
            returns_modify_iff]
          exact ⟨⟨⟩, between, answers, _, _, ⟨rfl, rfl⟩, joined, _, ⟨joins, rfl⟩, rfl⟩

end Selected

structure Walked (schedule : Schedule) (step : Nat) (between : Analysis × Log) : Prop where
  recorded : between.1.schedule.unmark = schedule.unmark
  traces : between.1.causality.Traces schedule step
  roomy : ∀ other frame, other ≤ schedule.position → schedule.frame other = .ok frame →
    frame.size ≤ between.1.causality.actors

theorem Walked.visited
    (wellFormed : schedule.WellFormed) (walked : Walked schedule step before) (positive : 0 < step)
    (within : step ≤ schedule.position) (returned : (visit recording step).Returns before () after) :
    Walked schedule (step + 1) after where
  recorded := (visit_unmark returned).trans walked.recorded
  traces := traces_visit wellFormed walked.recorded positive within walked.traces returned
  roomy := by
    intro other frame inside found
    rw [actors_visit returned]
    exact walked.roomy other frame inside found

theorem Walked.exists_visit
    (wellFormed : schedule.WellFormed) (numbered : schedule.Numbered)
    (storable : schedule.Storable) (walked : Walked schedule step before) (positive : 0 < step)
    (within : step ≤ schedule.position)
    (answer : ∀ first entry touched log, schedule.Reversible ⟨first, step⟩ →
      schedule.selected? step = some entry.snapshot → touched.Touched schedule step first →
      ∃ between, Answers recording ⟨first, step⟩ entry true
        (before.1.setCausality touched, log) between) :
    ∃ after, (visit recording step).Returns before () after := by
  have recorded := walked.recorded
  have samePosition := Schedule.position_eq_of_unmark_eq recorded
  obtain ⟨known, there⟩ :=
    schedule.exists_frame positive (Nat.le_trans within wellFormed.position_le)
  obtain ⟨frame, found, equal⟩ := Schedule.frame_of_unmark_eq recorded.symm there
  obtain ⟨chosen, selection⟩ :=
    Frame.exists_selection? (wellFormed.single recorded within frame found)
  cases chosen with
  | none => exact ⟨before, visit_idle found selection⟩
  | some chosen =>
      obtain ⟨entry, index⟩ := chosen
      have selected := Schedule.selected?_eq_some_of_recorded recorded found within selection
      have sized := Schedule.size_of_unmark_eq recorded found
      obtain ⟨-, number, bounded⟩ := numbered.index_lt recorded found selection
      have sameSize : known.size = frame.size := by
        rw [← Frame.size_unmark, ← equal, Frame.size_unmark]
      have room : entry.id.index < before.1.causality.actors := by
        rw [number]
        exact Nat.lt_of_lt_of_le (sameSize ▸ bounded) (walked.roomy step known within there)
      obtain ⟨followed, follows⟩ := walked.traces.exists_follow positive within room
      have following := walked.traces.follow wellFormed positive within ⟨_, selected, rfl⟩ follows
      obtain ⟨partner, touched, touches⟩ :=
        walked.traces.exists_touch wellFormed storable within sized selected following
      have reached :=
        walked.traces.touch wellFormed positive within sized selected follows touches
      have touchesHere : followed.touch before.1.schedule.position step frame entry =
          .ok (partner, touched) := by rw [samePosition]; exact touches
      by_cases nobody : partner = 0
      · subst nobody
        exact ⟨_, visit_alone found selection follows touchesHere⟩
      · obtain ⟨isRace, decided, iff⟩ := walked.traces.exists_isRace wellFormed recorded positive
          within found selection follows touches nobody
        have timed : touched.clock step = .ok (touched.clockAt step) :=
          Causality.clock_eq_ok_iff.mpr ⟨positive, by rw [reached.clocks]; exact within, rfl⟩
        obtain ⟨between, answers⟩ : ∃ between, Answers recording ⟨partner, step⟩ entry isRace
            (before.1.setCausality touched,
              if isRace then before.2.add (.race partner step (touched.clockAt step))
              else before.2) between := by
          cases isRace with
          | false => exact ⟨_, rfl⟩
          | true => exact answer partner entry touched _ (iff.mp rfl) selected reached
        have clocks : between.1.causality.clocks = touched.clocks := by
          rw [answers.kept.1]
          rfl
        have partnerWithin : partner ≤ between.1.causality.clocks.size := by
          rw [clocks, reached.clocks]
          exact Nat.le_of_lt (Nat.lt_of_lt_of_le reached.partner_lt within)
        obtain ⟨joined, joins⟩ :=
          Causality.exists_joinStep (Nat.pos_of_ne_zero nobody) partnerWithin step
        exact ⟨_, visit_joins found selection follows touchesHere nobody decided timed answers joins⟩

theorem exists_actorCount (inside : schedule.position ≤ schedule.length) :
    ∃ actors, actorCount schedule = .ok actors := by
  have counted : ∃ actors, actorCount schedule = .ok actors ∧ True := by
    apply Checked.exists_foldlM (motive := fun _ => True) trivial
    intro most step member _
    have bounds := List.mem_range'_1.mp member
    have positive : 0 < step := bounds.1
    obtain ⟨frame, found⟩ := schedule.exists_frame positive (by omega)
    exact ⟨_, Checked.bind_eq_ok_iff.mpr ⟨frame, found, rfl⟩, trivial⟩
  exact counted.imp fun _ => And.left

theorem size_le_of_actorCount
    {actors : Nat} (counted : actorCount schedule = .ok actors) (within : step ≤ schedule.position)
    (found : schedule.frame step = .ok frame) : frame.size ≤ actors := by
  have all : ∀ (steps : List Nat) (least : Nat),
      steps.foldlM (fun most step => do return max most (← schedule.frame step).size) least =
        .ok actors →
      least ≤ actors ∧ (step ∈ steps → frame.size ≤ actors) := by
    intro steps
    induction steps with
    | nil =>
        intro least folded
        cases folded
        exact ⟨Nat.le_refl _, nofun⟩
    | cons head rest induction =>
        intro least folded
        rw [List.foldlM_cons] at folded
        obtain ⟨most, stepped, folded⟩ := Checked.bind_eq_ok_iff.mp folded
        obtain ⟨here, there, done⟩ := Checked.bind_eq_ok_iff.mp stepped
        cases done
        obtain ⟨above, later⟩ := induction _ folded
        refine ⟨Nat.le_trans (Nat.le_max_left _ _) above, ?_⟩
        intro member
        rcases List.mem_cons.mp member with rfl | member
        · cases found.symm.trans there
          exact Nat.le_trans (Nat.le_max_right _ _) above
        · exact later member
  have positive := (Schedule.frame_eq_ok_iff.mp found).1
  exact (all _ 0 counted).2 (List.mem_range'_1.mpr ⟨positive, by omega⟩)

theorem walked_start
    {actors : Nat} (recorded : before.1.schedule.unmark = schedule.unmark)
    (counted : actorCount before.1.schedule = .ok actors) :
    Walked schedule 1 (before.1.setCausality (.start actors before.1.schedule.position), before.2) where
  recorded := recorded
  traces := by
    rw [Schedule.position_eq_of_unmark_eq recorded]
    exact Causality.traces_start actors schedule
  roomy := by
    intro other frame within found
    obtain ⟨known, there, equal⟩ := Schedule.frame_of_unmark_eq recorded.symm found
    rw [← Frame.size_unmark, ← equal, Frame.size_unmark]
    exact size_le_of_actorCount counted
      (by rwa [Schedule.position_eq_of_unmark_eq recorded]) there

theorem exists_run
    {motive : Nat → Analysis × Log → Prop} (wellFormed : schedule.WellFormed)
    (recorded : before.1.schedule.unmark = schedule.unmark)
    (start : ∀ between : Analysis × Log, between.1.schedule = before.1.schedule →
      between.1.causality.races = #[] → Walked schedule 1 between → motive 1 between)
    (round : ∀ step between, 0 < step → step ≤ schedule.position → motive step between →
      ∃ next, (visit recording step).Returns between () next ∧ motive (step + 1) next) :
    ∃ after, (run recording).Returns before () after ∧ motive (schedule.position + 1) after := by
  have samePosition := Schedule.position_eq_of_unmark_eq recorded
  have inside : before.1.schedule.position ≤ before.1.schedule.length := by
    have sameLength := congrArg Schedule.length recorded
    rw [Schedule.length_unmark, Schedule.length_unmark] at sameLength
    rw [samePosition, sameLength]
    exact wellFormed.position_le
  obtain ⟨actors, counted⟩ := exists_actorCount inside
  have walked := start
    (before.1.setCausality (.start actors before.1.schedule.position), before.2) rfl rfl
    (walked_start recorded counted)
  have rounds : ∀ step between, 1 ≤ step → step < 1 + before.1.schedule.position →
      motive step between →
      ∃ next, (visit recording step).Returns between () next ∧ motive (step + 1) next :=
    fun step between lower upper => round step between lower (by omega)
  obtain ⟨after, looped, holds⟩ := exists_loop walked rounds
  refine ⟨after, ?_, by rwa [Nat.add_comm, samePosition] at holds⟩
  simp only [run, returns_bind_iff, returns_get_iff, returns_lift_iff, returns_modify_iff,
    returns_pure_iff]
  exact ⟨_, _, ⟨rfl, rfl⟩, actors, _, ⟨counted, rfl⟩, ⟨⟩, _, rfl, ⟨⟩, after, looped, trivial, rfl⟩

end Analysis

end Interleave
