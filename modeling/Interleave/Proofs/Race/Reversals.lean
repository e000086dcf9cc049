import Interleave.Proofs.Race.Partners
import Interleave.Proofs.Race.HappensBefore

namespace Interleave

namespace Schedule

/-- Two sends that could take place in another order: no send to the same queue is between them, and
the first does not happen before the previous step of the actor that sends the second. -/
structure Reversible (schedule : Schedule) (race : Race) : Prop where
  positive : 0 < race.first
  sends : ∃ target, schedule.sendTarget? race.second = some target ∧
    IsLatest (fun step => schedule.sendTarget? step = some target) race.second race.first
  unordered : ∃ actor previous, schedule.ActsAt actor race.second ∧
    IsLatest (schedule.ActsAt actor) race.second previous ∧
      (previous = 0 ∨ ¬ schedule.Reaches race.first previous)

variable {schedule : Schedule} {race : Race}

theorem Reversible.ordered (reversible : schedule.Reversible race) : race.first < race.second := by
  obtain ⟨target, -, latest⟩ := reversible.sends
  exact latest.1

theorem Reversible.le_position (reversible : schedule.Reversible race) :
    race.second ≤ schedule.position := by
  obtain ⟨actor, previous, acts, -⟩ := reversible.unordered
  exact acts.le_position

theorem Reversible.unique
    {other : Race} (reversible : schedule.Reversible race) (also : schedule.Reversible other)
    (same : other.second = race.second) : other = race := by
  obtain ⟨target, sends, latest⟩ := reversible.sends
  obtain ⟨_, again, earlier⟩ := also.sends
  rw [same] at again earlier
  cases sends.symm.trans again
  cases race
  cases other
  rw [Race.mk.injEq]
  exact ⟨latest.unique earlier, same⟩

theorem Reversible.not_acts
    (reversible : schedule.Reversible race) {actor : ActorId}
    (acts : schedule.ActsAt actor race.second) : ¬ schedule.ActsAt actor race.first := by
  obtain ⟨_, previous, again, latest, unordered⟩ := reversible.unordered
  obtain rfl := acts.unique again
  intro first
  have between := latest.le_of_holds reversible.ordered first
  have positive : 0 < previous := Nat.lt_of_lt_of_le reversible.positive between
  rcases unordered with none | unreached
  · omega
  · exact unreached (reaches_of_acts first (latest.holds positive) between)

end Schedule

namespace Causality

variable {causality followed touched : Causality} {schedule current : Schedule} {step : Nat}

theorem isRace_eq_ok
    {earlier later : Nat} {before after : Frame} {first second : Frame.Entry}
    (found : schedule.frame earlier = .ok before) (selected : before.selected = .ok first)
    (also : schedule.frame later = .ok after) (chosen : after.selected = .ok second)
    (positive : 0 < later) (within : later ≤ causality.clocks.size) :
    causality.isRace schedule earlier later =
      .ok (!decide (UInt32.ofNat earlier ≤ (causality.clockAt later).get first.id.index) &&
        (decide (first.kind = .send) && decide (second.kind = .send))) := by
  unfold isRace
  rw [happensBefore_eq_ok found selected positive within]
  by_cases ordered : UInt32.ofNat earlier ≤ (causality.clockAt later).get first.id.index
  · rw [decide_eq_true ordered]
    rfl
  · rw [decide_eq_false ordered]
    change reversible schedule earlier later = _
    unfold reversible
    rw [found]
    change (before.selected >>= _) = _
    rw [selected]
    by_cases sends : first.kind = .send
    · rw [decide_eq_true sends]
      change ((if first.kind ≠ .send then _ else _) : Except Fault Bool) = _
      rw [if_neg (not_not_intro sends), also]
      change (after.selected >>= _) = _
      rw [chosen]
      rfl
    · rw [decide_eq_false sends]
      change ((if first.kind ≠ .send then _ else _) : Except Fault Bool) = _
      rw [if_pos sends]
      rfl

theorem Followed.touch_of_send
    {frame : Frame} {entry : Frame.Entry} {partner target : Nat}
    (sized : schedule.frames[step - 1]?.map Frame.size = some frame.size)
    (selected : schedule.selected? step = some entry.snapshot)
    (follows : causality.Followed schedule step entry.id.index followed)
    (touches : followed.touch schedule.position step frame entry = .ok (partner, touched))
    (sends : schedule.sendTarget? step = some target) :
    partner = causality.lastSend.get target ∧ touched.clockAt step = followed.clockAt step := by
  have sameSend : followed.lastSend = causality.lastSend := by rw [follows.rest]
  have noLife : schedule.lifeTarget? step = none := by
    have kind := Schedule.kind_of_sendTarget? selected sends
    simp only [Schedule.lifeTarget?, selected, Option.bind_some, kind]
  rw [touch_eq sized selected, noLife, sends] at touches
  obtain ⟨table, -, done⟩ := Checked.bind_eq_ok_iff.mp touches
  cases done
  exact ⟨by rw [sameSend], rfl⟩

theorem exists_sendTarget?
    {frame : Frame} {entry : Frame.Entry} {partner : Nat}
    (sized : schedule.frames[step - 1]?.map Frame.size = some frame.size)
    (selected : schedule.selected? step = some entry.snapshot)
    (touches : causality.touch schedule.position step frame entry = .ok (partner, touched))
    (isSend : entry.kind = .send) (somebody : partner ≠ 0) :
    ∃ target, schedule.sendTarget? step = some target := by
  have noLife : schedule.lifeTarget? step = none := by
    have kind : entry.snapshot.kind = .send := isSend
    simp only [Schedule.lifeTarget?, selected, Option.bind_some, kind]
  rw [touch_eq sized selected, noLife] at touches
  cases sends : schedule.sendTarget? step with
  | some target => exact ⟨target, rfl⟩
  | none =>
      simp only [sends, isSend, Except.ok.injEq, Prod.mk.injEq] at touches
      exact absurd touches.1.symm somebody

/-- In the middle of a visit, before the clocks are joined, the engine finds the races that could be
reversed. -/
theorem Traces.exists_isRace
    (wellFormed : schedule.WellFormed) (recorded : current.unmark = schedule.unmark)
    (traces : causality.Traces schedule step) (positive : 0 < step)
    (within : step ≤ schedule.position) {frame : Frame} {entry : Frame.Entry} {index partner : Nat}
    (found : current.frame step = .ok frame)
    (selection : frame.selection? = .ok (some (entry, index)))
    (follows : causality.follow entry.id.index step = .ok followed)
    (touches : followed.touch schedule.position step frame entry = .ok (partner, touched))
    (somebody : partner ≠ 0) :
    ∃ answer, touched.isRace current partner step = .ok answer ∧
      (answer = true ↔ schedule.Reversible ⟨partner, step⟩) := by
  have selected := Schedule.selected?_eq_some_of_recorded recorded found within selection
  have sized := Schedule.size_of_unmark_eq recorded found
  have reached := traces.touch wellFormed positive within sized selected follows touches
  have acts : schedule.ActsAt ⟨entry.id.index⟩ step := ⟨_, selected, rfl⟩
  have following := traces.follow wellFormed positive within acts follows
  obtain ⟨snapshot, sender⟩ := Option.isSome_iff_exists.mp
    (reached.partner_selected (Nat.pos_of_ne_zero somebody))
  have partnerActs : schedule.ActsAt snapshot.id partner := ⟨snapshot, sender, rfl⟩
  obtain ⟨before, first, there, chosen, same⟩ := wellFormed.exists_entry recorded sender
  have inside : step ≤ touched.clocks.size := by rw [reached.clocks]; exact within
  refine ⟨_, isRace_eq_ok there chosen found (Frame.selected_of_selection? selection) positive inside,
    ?_⟩
  simp only [Bool.and_eq_true, Bool.not_eq_true', decide_eq_false_iff_not, decide_eq_true_iff]
  constructor
  · rintro ⟨unordered, -, isSend⟩
    obtain ⟨target, sends⟩ := exists_sendTarget? sized selected touches isSend somebody
    obtain ⟨rfl, sameClock⟩ := following.touch_of_send sized selected touches sends
    refine ⟨Nat.pos_of_ne_zero somebody, ⟨target, sends, traces.lastSend target⟩,
      ⟨_, _, acts, traces.lastStep entry.id.index, ?_⟩⟩
    apply (Nat.eq_zero_or_pos _).imp_right
    intro previous reaches
    have short : causality.lastSend.get target < 2 ^ 32 :=
      Nat.lt_of_le_of_lt partnerActs.le_position wellFormed.short
    apply unordered
    rw [UInt32.le_iff_toNat_le, UInt32.toNat_ofNat_of_lt' short, sameClock]
    have sameId : first.id = snapshot.id := congrArg Snapshot.id same
    rw [sameId]
    exact (following.knows _ _ partnerActs).mpr (.inr ⟨previous, reaches⟩)
  · intro reversible
    obtain ⟨target, sends, latest⟩ := reversible.sends
    obtain ⟨rfl, sameClock⟩ := following.touch_of_send sized selected touches sends
    have firstSend : first.kind = .send := by
      have kind := Schedule.kind_of_sendTarget? sender (latest.holds reversible.positive)
      rw [← same] at kind
      exact kind
    refine ⟨?_, firstSend, Schedule.kind_of_sendTarget? selected sends⟩
    intro ordered
    have short : causality.lastSend.get target < 2 ^ 32 :=
      Nat.lt_of_le_of_lt partnerActs.le_position wellFormed.short
    have sameId : first.id = snapshot.id := congrArg Snapshot.id same
    rw [UInt32.le_iff_toNat_le, UInt32.toNat_ofNat_of_lt' short, sameClock, sameId] at ordered
    obtain ⟨_, previous, actsAgain, latestStep, unordered⟩ := reversible.unordered
    obtain rfl := acts.unique actsAgain
    obtain rfl := (traces.lastStep entry.id.index).unique latestStep
    rcases (following.knows _ _ partnerActs).mp ordered with equal | ⟨taken, reaches⟩
    · exact Nat.ne_of_lt reached.partner_lt equal
    · rcases unordered with none | unreached
      · exact Nat.ne_of_gt taken none
      · exact unreached reaches

theorem Traces.behind (traces : causality.Traces schedule step) : causality.Behind step :=
  fun key => ⟨(traces.lastOfLife key).1, (traces.lastSend key).1⟩

theorem kept_of_touch
    {steps partner : Nat} {frame : Frame} {entry : Frame.Entry}
    (touches : causality.touch steps step frame entry = .ok (partner, touched)) :
    touched.actors = causality.actors ∧ touched.races = causality.races := by
  unfold touch at touches
  split at touches
  any_goals
    obtain ⟨table, -, done⟩ := Checked.bind_eq_ok_iff.mp touches
    cases done
    exact ⟨rfl, rfl⟩
  · cases touches
    exact ⟨rfl, rfl⟩
  · obtain ⟨joined, joins, done⟩ := Checked.bind_eq_ok_iff.mp touches
    cases done
    have same := sameTables_foldlM joins
    exact ⟨same.actors, same.races⟩
  · cases touches
  · cases touches
    exact ⟨rfl, rfl⟩

end Causality

namespace Analysis

variable {schedule : Schedule} {recording : Bool} {step : Nat} {before after : Analysis × Log}

theorem actors_visit (returned : (visit recording step).Returns before () after) :
    after.1.causality.actors = before.1.causality.actors := by
  obtain ⟨frame, -, ⟨-, rfl⟩ |
    ⟨entry, index, followed, partner, touched, -, follows, touches, rest⟩⟩ := visit_cases returned
  · rfl
  · have following := (Causality.sameTables_follow follows).actors
    have touching := (Causality.kept_of_touch touches).1
    rcases rest with ⟨-, rfl⟩ | ⟨-, isRace, log, between, joined, -, answers, joins, rfl⟩
    · exact touching.trans following
    · have joining := (Causality.sameTables_joinStep joins).actors
      rw [answers.kept.1] at joining
      exact joining.trans (touching.trans following)

/-- The visit of a step finds the race that the step ends, if there is one. Only what is done about
it changes the schedule or the list of races. -/
theorem visit_reversible
    (wellFormed : schedule.WellFormed) (recorded : before.1.schedule.unmark = schedule.unmark)
    (positive : 0 < step) (within : step ≤ schedule.position)
    (traces : before.1.causality.Traces schedule step)
    (returned : (visit recording step).Returns before () after) :
    ((∀ first, ¬ schedule.Reversible ⟨first, step⟩) ∧
        after.1.schedule = before.1.schedule ∧
        after.1.causality.races = before.1.causality.races) ∨
      ∃ first entry touched log between,
        schedule.Reversible ⟨first, step⟩ ∧
        schedule.selected? step = some entry.snapshot ∧
        touched.Touched schedule step first ∧
        touched.races = before.1.causality.races ∧
        Answers recording ⟨first, step⟩ entry true (before.1.setCausality touched, log) between ∧
        after.1.schedule = between.1.schedule ∧
        after.1.causality.races = between.1.causality.races := by
  obtain ⟨frame, found, ⟨nothing, rfl⟩ |
    ⟨entry, index, followed, partner, touched, selection, follows, touches, rest⟩⟩ :=
    visit_cases returned
  · have unselected := Schedule.selected?_eq_none_of_recorded recorded found within nothing
    refine .inl ⟨?_, rfl, rfl⟩
    intro first reversible
    obtain ⟨_, _, ⟨_, selected, -⟩, -⟩ := reversible.unordered
    cases unselected.symm.trans selected
  · have selected := Schedule.selected?_eq_some_of_recorded recorded found within selection
    rw [Schedule.position_eq_of_unmark_eq recorded] at touches
    have sized := Schedule.size_of_unmark_eq recorded found
    have reached := traces.touch wellFormed positive within sized selected follows touches
    have following := traces.follow wellFormed positive within ⟨_, selected, rfl⟩ follows
    have kept : touched.races = before.1.causality.races :=
      (Causality.kept_of_touch touches).2.trans (Causality.sameTables_follow follows).races
    have isPartner : ∀ first, schedule.Reversible ⟨first, step⟩ → partner = first := by
      intro first reversible
      obtain ⟨target, sends, latest⟩ := reversible.sends
      rw [(following.touch_of_send sized selected touches sends).1]
      exact latest.unique (traces.lastSend target)
    rcases rest with ⟨rfl, rfl⟩ |
      ⟨somebody, isRace, log, between, joined, decided, answers, joins, rfl⟩
    · refine .inl ⟨?_, rfl, kept⟩
      intro first reversible
      rw [← isPartner first reversible] at reversible
      exact Nat.lt_irrefl 0 reversible.positive
    · have joining := (Causality.sameTables_joinStep joins).races
      obtain ⟨answer, again, iff⟩ := traces.exists_isRace wellFormed recorded positive within found
        selection follows touches somebody
      cases decided.symm.trans again
      cases isRace with
      | true =>
          exact .inr ⟨partner, entry, touched, log, between, iff.mp rfl, selected, reached, kept,
            answers, rfl, joining⟩
      | false =>
          obtain rfl : _ = between := answers
          refine .inl ⟨?_, rfl, joining.trans kept⟩
          intro first reversible
          rw [← isPartner first reversible] at reversible
          exact Bool.false_ne_true (iff.mpr reversible)

end Analysis

end Interleave
