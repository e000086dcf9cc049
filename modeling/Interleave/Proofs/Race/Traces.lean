import Interleave.Proofs.Race.Clocks

namespace Interleave

namespace Causality

/-- The walk has visited all steps before `next`. -/
structure Traces (causality : Causality) (schedule : Schedule) (next : Nat) : Prop where
  clocks : causality.clocks.size = schedule.position
  bounded : ∀ actor, 0 < causality.lastStep.get actor → actor < causality.actors
  lastStep : ∀ actor, IsLatest (schedule.ActsAt ⟨actor⟩) next (causality.lastStep.get actor)
  lastOfLife : ∀ target,
    IsLatest (fun step => schedule.lifeTarget? step = some target) next
      (causality.lastOfLife.get target)
  lastSend : ∀ target,
    IsLatest (fun step => schedule.sendTarget? step = some target) next
      (causality.lastSend.get target)
  known : ∀ step, step < next → (schedule.selected? step).isSome →
    schedule.Knows (causality.clockAt step) (schedule.Reaches · step)
  fresh : ∀ step, next ≤ step → ∀ actor, (causality.clockAt step).get actor = 0

variable {causality changed : Causality} {schedule : Schedule} {step : Nat}

theorem traces_start (actors : Nat) (schedule : Schedule) :
    (start actors schedule.position).Traces schedule 1 where
  clocks := by simp [start]
  bounded := by
    intro actor positive
    exact absurd positive (Nat.lt_irrefl 0)
  lastStep := fun _ => .zero _
  lastOfLife := fun _ => .zero _
  lastSend := fun _ => .zero _
  known := by
    intro step below selected
    rw [Schedule.selected?_eq_none (.inl (by omega))] at selected
    cases selected
  fresh := by
    intro step _ actor
    simp only [start, clockAt, Array.getElem?_replicate]
    split <;> simp

theorem Traces.skip
    (traces : causality.Traces schedule step) (skipped : schedule.selected? step = none) :
    causality.Traces schedule (step + 1) where
  clocks := traces.clocks
  bounded := traces.bounded
  lastStep := by
    intro actor
    apply (traces.lastStep actor).succ_of_not
    rintro ⟨snapshot, selected, -⟩
    rw [skipped] at selected
    cases selected
  lastOfLife := by
    intro target
    apply (traces.lastOfLife target).succ_of_not
    simp [Schedule.lifeTarget?, skipped]
  lastSend := by
    intro target
    apply (traces.lastSend target).succ_of_not
    simp [Schedule.sendTarget?, skipped]
  known := by
    intro earlier below selected
    rcases Nat.lt_succ_iff_lt_or_eq.mp below with below | rfl
    · exact traces.known earlier below selected
    · rw [skipped] at selected
      cases selected
  fresh := fun later above => traces.fresh later (by omega)

theorem Traces.precedes_iff
    (traces : causality.Traces schedule step) {snapshot : Snapshot} {earlier : Nat}
    (selected : schedule.selected? step = some snapshot) :
    schedule.Precedes earlier step ↔
      0 < earlier ∧
        (earlier = causality.lastStep.get snapshot.id.index ∨
          (∃ target, schedule.lifeTarget? step = some target ∧
            earlier = causality.lastOfLife.get target) ∨
          (∃ target, schedule.sendTarget? step = some target ∧
            earlier = causality.lastSend.get target) ∨
          (snapshot.kind = .receive ∧ snapshot.sendStep = some earlier) ∨
          (snapshot.kind = .awaitDeadlock ∧
            ∃ other, other ≠ snapshot.id.index ∧ earlier = causality.lastStep.get other)) := by
  constructor
  · intro precedes
    cases precedes with
    | @program actor acts positive latest =>
        obtain ⟨_, again, rfl⟩ := acts
        cases selected.symm.trans again
        exact ⟨positive, .inl (latest.unique (traces.lastStep _)).symm⟩
    | life touches positive latest =>
        exact ⟨positive, .inr (.inl ⟨_, touches,
          (latest.unique (traces.lastOfLife _)).symm⟩)⟩
    | send sends positive latest =>
        exact ⟨positive, .inr (.inr (.inl ⟨_, sends,
          (latest.unique (traces.lastSend _)).symm⟩))⟩
    | receive again receives positive sent =>
        cases selected.symm.trans again
        exact ⟨positive, .inr (.inr (.inr (.inl ⟨receives, sent⟩)))⟩
    | @awaitDeadlock _ other again awaits differs positive latest =>
        cases selected.symm.trans again
        refine ⟨positive, .inr (.inr (.inr (.inr ⟨awaits, other.index, ?_,
          (latest.unique (traces.lastStep _)).symm⟩)))⟩
        intro same
        exact differs (ActorId.ext_iff.mpr same)
  · rintro ⟨positive, rfl | ⟨target, touches, rfl⟩ | ⟨target, sends, rfl⟩ | ⟨receives, sent⟩ |
      ⟨awaits, other, differs, rfl⟩⟩
    · exact .program ⟨snapshot, selected, rfl⟩ positive (traces.lastStep _)
    · exact .life touches positive (traces.lastOfLife target)
    · exact .send sends positive (traces.lastSend target)
    · exact .receive selected receives positive sent
    · refine @Schedule.Precedes.awaitDeadlock _ _ _ _ ⟨other⟩ selected awaits ?_ positive
        (traces.lastStep other)
      intro same
      exact differs (ActorId.ext_iff.mp same)

/-- The walk in the middle of a step: its clock lacks only what the partner knows. -/
structure Touched (causality : Causality) (schedule : Schedule) (step partner : Nat) : Prop where
  clocks : causality.clocks.size = schedule.position
  bounded : ∀ actor, 0 < causality.lastStep.get actor → actor < causality.actors
  lastStep : ∀ actor, IsLatest (schedule.ActsAt ⟨actor⟩) (step + 1) (causality.lastStep.get actor)
  lastOfLife : ∀ target,
    IsLatest (fun step => schedule.lifeTarget? step = some target) (step + 1)
      (causality.lastOfLife.get target)
  lastSend : ∀ target,
    IsLatest (fun step => schedule.sendTarget? step = some target) (step + 1)
      (causality.lastSend.get target)
  known : ∀ earlier, earlier < step → (schedule.selected? earlier).isSome →
    schedule.Knows (causality.clockAt earlier) (schedule.Reaches · earlier)
  fresh : ∀ later, step < later → ∀ actor, (causality.clockAt later).get actor = 0
  knows : ∃ past, schedule.Knows (causality.clockAt step) past ∧
    ∀ earlier, schedule.Reaches earlier step ↔
      past earlier ∨ (0 < partner ∧ schedule.Reaches earlier partner)
  partner_lt : partner < step
  partner_selected : 0 < partner → (schedule.selected? partner).isSome

theorem Touched.setRaces
    {partner : Nat} (touched : causality.Touched schedule step partner) (races : Array Race) :
    ({ causality with races := races } : Causality).Touched schedule step partner :=
  { touched with }

theorem Touched.done (touched : causality.Touched schedule step 0) :
    causality.Traces schedule (step + 1) where
  clocks := touched.clocks
  bounded := touched.bounded
  lastStep := touched.lastStep
  lastOfLife := touched.lastOfLife
  lastSend := touched.lastSend
  known := by
    intro earlier below selected
    rcases Nat.lt_succ_iff_lt_or_eq.mp below with below | rfl
    · exact touched.known earlier below selected
    · obtain ⟨past, knows, reaches⟩ := touched.knows
      apply knows.congr
      intro before
      simp [reaches]
  fresh := touched.fresh

theorem Touched.join
    {partner : Nat} (touched : causality.Touched schedule step partner)
    (within : step ≤ schedule.position) (joined : causality.joinStep step partner = .ok changed) :
    changed.Traces schedule (step + 1) := by
  obtain ⟨positive, rfl⟩ := joinStep_eq_ok joined
  have stepPositive : 0 < step := Nat.lt_of_le_of_lt (Nat.zero_le _) touched.partner_lt
  have inside : step ≤ causality.clocks.size := by rw [touched.clocks]; exact within
  obtain ⟨-, others⟩ : causality.SameClocksBut step _ :=
    sameClocksBut_modifyClock stepPositive inside fun clock =>
      clock.join (causality.clockAt partner)
  refine ⟨?_, touched.bounded, touched.lastStep, touched.lastOfLife, touched.lastSend, ?_, ?_⟩
  · rw [size_clocks_modifyClock, touched.clocks]
  · intro earlier below selected
    rcases Nat.lt_succ_iff_lt_or_eq.mp below with below | rfl
    · have earlierPositive : 0 < earlier := by
        apply Nat.pos_of_ne_zero
        rintro rfl
        rw [Schedule.selected?_eq_none (.inl rfl)] at selected
        cases selected
      rw [others earlier earlierPositive (Nat.ne_of_lt below)]
      exact touched.known earlier below selected
    · rw [clockAt_modifyClock stepPositive stepPositive inside, if_pos rfl]
      obtain ⟨past, knows, reaches⟩ := touched.knows
      apply (knows.join (touched.known partner touched.partner_lt
        (touched.partner_selected positive))).congr
      intro before
      simp [reaches, positive]
  · intro later above
    rw [others later (by omega) (by omega)]
    exact touched.fresh later above

theorem Traces.reaches_iff
    (traces : causality.Traces schedule step) {snapshot : Snapshot} {earlier : Nat}
    (selected : schedule.selected? step = some snapshot) :
    schedule.Reaches earlier step ↔
      earlier = step ∨
        (0 < causality.lastStep.get snapshot.id.index ∧
          schedule.Reaches earlier (causality.lastStep.get snapshot.id.index)) ∨
        (∃ target, schedule.lifeTarget? step = some target ∧
          0 < causality.lastOfLife.get target ∧
          schedule.Reaches earlier (causality.lastOfLife.get target)) ∨
        (∃ target, schedule.sendTarget? step = some target ∧
          0 < causality.lastSend.get target ∧
          schedule.Reaches earlier (causality.lastSend.get target)) ∨
        (snapshot.kind = .receive ∧ ∃ sent, snapshot.sendStep = some sent ∧
          0 < sent ∧ schedule.Reaches earlier sent) ∨
        (snapshot.kind = .awaitDeadlock ∧ ∃ other, other ≠ snapshot.id.index ∧
          0 < causality.lastStep.get other ∧
          schedule.Reaches earlier (causality.lastStep.get other)) := by
  rw [Schedule.reaches_iff]
  simp only [traces.precedes_iff selected]
  constructor
  · rintro (same | ⟨middle, ⟨positive, rfl | ⟨target, touches, rfl⟩ | ⟨target, sends, rfl⟩ |
      ⟨receives, sent⟩ | ⟨awaits, other, differs, rfl⟩⟩, reaches⟩)
    · exact .inl same
    · exact .inr (.inl ⟨positive, reaches⟩)
    · exact .inr (.inr (.inl ⟨target, touches, positive, reaches⟩))
    · exact .inr (.inr (.inr (.inl ⟨target, sends, positive, reaches⟩)))
    · exact .inr (.inr (.inr (.inr (.inl ⟨receives, middle, sent, positive, reaches⟩))))
    · exact .inr (.inr (.inr (.inr (.inr ⟨awaits, other, differs, positive, reaches⟩))))
  · rintro (same | ⟨positive, reaches⟩ | ⟨target, touches, positive, reaches⟩ |
      ⟨target, sends, positive, reaches⟩ | ⟨receives, sent, sends, positive, reaches⟩ |
      ⟨awaits, other, differs, positive, reaches⟩)
    · exact .inl same
    · exact .inr ⟨_, ⟨positive, .inl rfl⟩, reaches⟩
    · exact .inr ⟨_, ⟨positive, .inr (.inl ⟨target, touches, rfl⟩)⟩, reaches⟩
    · exact .inr ⟨_, ⟨positive, .inr (.inr (.inl ⟨target, sends, rfl⟩))⟩, reaches⟩
    · exact .inr ⟨_, ⟨positive, .inr (.inr (.inr (.inl ⟨receives, sends⟩)))⟩, reaches⟩
    · exact .inr ⟨_, ⟨positive, .inr (.inr (.inr (.inr ⟨awaits, other, differs, rfl⟩)))⟩,
        reaches⟩

structure Followed (causality : Causality) (schedule : Schedule) (step actor : Nat)
    (followed : Causality) : Prop where
  acts : schedule.ActsAt ⟨actor⟩ step
  bound : actor < causality.actors
  rest : followed = { causality with
    clocks := followed.clocks
    lastStep := causality.lastStep.set actor step }
  sameClocks : causality.SameClocksBut step followed
  knows : schedule.Knows (followed.clockAt step) fun earlier =>
    earlier = step ∨ (0 < causality.lastStep.get actor ∧
      schedule.Reaches earlier (causality.lastStep.get actor))

theorem Traces.follow
    {actor : Nat} {followed : Causality} (wellFormed : schedule.WellFormed)
    (traces : causality.Traces schedule step) (positive : 0 < step)
    (within : step ≤ schedule.position) (acts : schedule.ActsAt ⟨actor⟩ step)
    (follows : causality.follow actor step = .ok followed) :
    causality.Followed schedule step actor followed := by
  obtain ⟨bound, inherited, rfl, rfl⟩ := follow_eq_ok follows
  have inside : step ≤ causality.clocks.size := by rw [traces.clocks]; exact within
  refine ⟨acts, bound, rfl, sameClocksBut_modifyClock positive inside _, ?_⟩
  have isLatest := traces.lastStep actor
  change schedule.Knows ((causality.modifyClock step _).clockAt step) _
  rw [clockAt_modifyClock positive positive inside, if_pos rfl]
  refine Schedule.Knows.set ?_ acts (Nat.lt_of_le_of_lt within wellFormed.short) ?_ ?_
  · by_cases lastPositive : 0 < causality.lastStep.get actor
    · rw [if_pos lastPositive]
      obtain ⟨snapshot, selected, -⟩ := isLatest.holds lastPositive
      apply (traces.known _ isLatest.1 (by rw [selected]; rfl)).congr
      intro earlier
      simp [lastPositive]
    · rw [if_neg lastPositive]
      apply (Schedule.Knows.of_zero (traces.fresh step (Nat.le_refl step))).congr
      intro earlier
      simp [lastPositive]
  · rintro earlier ⟨-, reaches⟩
    exact Nat.lt_of_le_of_lt (reaches.le wellFormed) isLatest.1
  · intro earlier earlierActs below
    have le := isLatest.le_of_holds below earlierActs
    have lastPositive : 0 < causality.lastStep.get actor :=
      Nat.lt_of_lt_of_le earlierActs.positive le
    exact ⟨lastPositive, Schedule.reaches_of_acts earlierActs (isLatest.holds lastPositive) le⟩

/-- The tables after a step, once it is known what it touches and what its clock knows. -/
theorem Traces.advance
    {actor partner : Nat} {followed touched : Causality}
    (traces : causality.Traces schedule step)
    (follows : causality.Followed schedule step actor followed)
    (sameActors : touched.actors = followed.actors)
    (sameLast : touched.lastStep = followed.lastStep)
    (sameClocks : followed.SameClocksBut step touched)
    (lastOfLife : ∀ target,
      IsLatest (fun step => schedule.lifeTarget? step = some target) (step + 1)
        (touched.lastOfLife.get target))
    (lastSend : ∀ target,
      IsLatest (fun step => schedule.sendTarget? step = some target) (step + 1)
        (touched.lastSend.get target))
    (knows : ∃ past, schedule.Knows (touched.clockAt step) past ∧
      ∀ earlier, schedule.Reaches earlier step ↔
        past earlier ∨ (0 < partner ∧ schedule.Reaches earlier partner))
    (partner_lt : partner < step)
    (partner_selected : 0 < partner → (schedule.selected? partner).isSome) :
    touched.Touched schedule step partner := by
  have clocksBut := follows.sameClocks.trans sameClocks
  have tables : touched.lastStep = causality.lastStep.set actor step := by
    rw [sameLast, follows.rest]
  have number : touched.actors = causality.actors := by
    rw [sameActors, follows.rest]
  refine ⟨?_, ?_, ?_, lastOfLife, lastSend, ?_, ?_, knows, partner_lt, partner_selected⟩
  · rw [clocksBut.1, traces.clocks]
  · intro other positive
    rw [tables, Latest.get_set] at positive
    rw [number]
    split at positive
    · rename_i same
      rw [same]
      exact follows.bound
    · exact traces.bounded other positive
  · intro other
    rw [tables, Latest.get_set]
    split
    · rename_i same
      subst same
      exact .succ_of_holds follows.acts
    · rename_i differs
      apply (traces.lastStep other).succ_of_not
      intro otherActs
      exact differs (ActorId.ext_iff.mp (otherActs.unique follows.acts))
  · intro earlier below selected
    have positive : 0 < earlier := by
      apply Nat.pos_of_ne_zero
      rintro rfl
      rw [Schedule.selected?_eq_none (.inl rfl)] at selected
      cases selected
    rw [clocksBut.2 earlier positive (Nat.ne_of_lt below)]
    exact traces.known earlier below selected
  · intro later above
    rw [clocksBut.2 later (by omega) (by omega)]
    exact traces.fresh later (Nat.le_of_lt above)

theorem Traces.lastOfLife_skip
    (traces : causality.Traces schedule step) (untouched : schedule.lifeTarget? step = none)
    (target : Nat) :
    IsLatest (fun step => schedule.lifeTarget? step = some target) (step + 1)
      (causality.lastOfLife.get target) := by
  apply (traces.lastOfLife target).succ_of_not
  rw [untouched]
  simp

theorem Traces.lastSend_skip
    (traces : causality.Traces schedule step) (untouched : schedule.sendTarget? step = none)
    (target : Nat) :
    IsLatest (fun step => schedule.sendTarget? step = some target) (step + 1)
      (causality.lastSend.get target) := by
  apply (traces.lastSend target).succ_of_not
  rw [untouched]
  simp

variable {followed touched : Causality} {snapshot : Snapshot}

theorem Traces.touch_life
    {target : Nat} (traces : causality.Traces schedule step)
    (selected : schedule.selected? step = some snapshot)
    (follows : causality.Followed schedule step snapshot.id.index followed)
    (life : schedule.lifeTarget? step = some target) :
    ({ followed with lastOfLife := followed.lastOfLife.set target step } : Causality).Touched
      schedule step (followed.lastOfLife.get target) := by
  have sameLife : followed.lastOfLife = causality.lastOfLife := by rw [follows.rest]
  have sameSend : followed.lastSend = causality.lastSend := by rw [follows.rest]
  obtain ⟨noSend, notReceive, notAwait⟩ := Schedule.kind_of_lifeTarget? selected life
  simp only [sameLife]
  apply traces.advance follows
  · rfl
  · rfl
  · exact ⟨rfl, fun _ _ _ => rfl⟩
  · intro other
    rw [Latest.get_set]
    split
    · rename_i same
      rw [same]
      exact .succ_of_holds life
    · rename_i differs
      apply (traces.lastOfLife other).succ_of_not
      rw [life]
      intro same
      exact differs (Option.some.inj same).symm
  · intro other
    change IsLatest _ _ (followed.lastSend.get other)
    rw [sameSend]
    exact traces.lastSend_skip noSend other
  · refine ⟨_, follows.knows, ?_⟩
    intro earlier
    rw [traces.reaches_iff selected]
    simp only [life, noSend, notReceive, notAwait, Option.some.injEq, exists_eq_left',
      reduceCtorEq, false_and, exists_false, or_false, or_assoc]
  · exact (traces.lastOfLife target).1
  · intro lastPositive
    exact Schedule.isSome_of_lifeTarget? ((traces.lastOfLife target).holds lastPositive)

theorem Traces.touch_send
    {target : Nat} (traces : causality.Traces schedule step)
    (selected : schedule.selected? step = some snapshot)
    (follows : causality.Followed schedule step snapshot.id.index followed)
    (noLife : schedule.lifeTarget? step = none)
    (sends : schedule.sendTarget? step = some target) :
    ({ followed with lastSend := followed.lastSend.set target step } : Causality).Touched
      schedule step (followed.lastSend.get target) := by
  have sameLife : followed.lastOfLife = causality.lastOfLife := by rw [follows.rest]
  have sameSend : followed.lastSend = causality.lastSend := by rw [follows.rest]
  have isSend := Schedule.kind_of_sendTarget? selected sends
  simp only [sameSend]
  apply traces.advance follows
  · rfl
  · rfl
  · exact ⟨rfl, fun _ _ _ => rfl⟩
  · intro other
    change IsLatest _ _ (followed.lastOfLife.get other)
    rw [sameLife]
    exact traces.lastOfLife_skip noLife other
  · intro other
    rw [Latest.get_set]
    split
    · rename_i same
      rw [same]
      exact .succ_of_holds sends
    · rename_i differs
      apply (traces.lastSend other).succ_of_not
      rw [sends]
      intro same
      exact differs (Option.some.inj same).symm
  · refine ⟨_, follows.knows, ?_⟩
    intro earlier
    rw [traces.reaches_iff selected]
    simp only [noLife, sends, isSend, Option.some.injEq, exists_eq_left', reduceCtorEq, false_and,
      exists_false, false_or, or_false, or_assoc]
  · exact (traces.lastSend target).1
  · intro lastPositive
    exact Schedule.isSome_of_sendTarget? ((traces.lastSend target).holds lastPositive)

theorem Traces.touch_receive
    (wellFormed : schedule.WellFormed) (traces : causality.Traces schedule step)
    (positive : 0 < step) (within : step ≤ schedule.position)
    (selected : schedule.selected? step = some snapshot)
    (follows : causality.Followed schedule step snapshot.id.index followed)
    (noLife : schedule.lifeTarget? step = none) (noSend : schedule.sendTarget? step = none)
    (receives : snapshot.kind = .receive) :
    followed.Touched schedule step (snapshot.sendStep.getD 0) := by
  have sameLife : followed.lastOfLife = causality.lastOfLife := by rw [follows.rest]
  have sameSend : followed.lastSend = causality.lastSend := by rw [follows.rest]
  have below : snapshot.sendStep.getD 0 < step := by
    cases sent : snapshot.sendStep with
    | none => exact positive
    | some sendStep => exact wellFormed.sent step _ _ selected receives sent
  apply traces.advance follows rfl rfl ⟨rfl, fun _ _ _ => rfl⟩
  · rw [sameLife]
    exact traces.lastOfLife_skip noLife
  · rw [sameSend]
    exact traces.lastSend_skip noSend
  · refine ⟨_, follows.knows, ?_⟩
    intro earlier
    rw [traces.reaches_iff selected]
    cases sent : snapshot.sendStep <;>
      simp [noLife, noSend, receives, or_assoc]
  · exact below
  · intro sentPositive
    exact wellFormed.isSome_selected? sentPositive (Nat.lt_of_lt_of_le below within)

theorem Traces.touch_others
    (traces : causality.Traces schedule step)
    (positive : 0 < step) (within : step ≤ schedule.position)
    (selected : schedule.selected? step = some snapshot)
    (follows : causality.Followed schedule step snapshot.id.index followed)
    (noLife : schedule.lifeTarget? step = none) (noSend : schedule.sendTarget? step = none)
    (awaits : snapshot.kind = .awaitDeadlock)
    (joins : followed.joinOthers snapshot.id.index step = .ok touched) :
    touched.Touched schedule step 0 := by
  have sameLast : followed.lastStep = causality.lastStep.set snapshot.id.index step := by
    rw [follows.rest]
  have sameLife : followed.lastOfLife = causality.lastOfLife := by rw [follows.rest]
  have sameSend : followed.lastSend = causality.lastSend := by rw [follows.rest]
  have inside : step ≤ followed.clocks.size := by
    rw [follows.sameClocks.1, traces.clocks]
    exact within
  have known : ∀ other, other ≠ snapshot.id.index → 0 < followed.lastStep.get other →
      followed.lastStep.get other ≠ step ∧
        schedule.Knows (followed.clockAt (followed.lastStep.get other))
          (schedule.Reaches · (followed.lastStep.get other)) := by
    intro other differs lastPositive
    rw [sameLast, Latest.get_set, if_neg differs] at lastPositive ⊢
    have below := (traces.lastStep other).1
    refine ⟨Nat.ne_of_lt below, ?_⟩
    rw [follows.sameClocks.2 _ lastPositive (Nat.ne_of_lt below)]
    obtain ⟨_, lastSelected, -⟩ := (traces.lastStep other).holds lastPositive
    exact traces.known _ below (by rw [lastSelected]; rfl)
  obtain ⟨rest, sameClocks, knows⟩ :=
    learned_joinOthers positive inside follows.knows known joins
  apply traces.advance follows
  · rw [rest]
  · rw [rest]
  · exact sameClocks
  · rw [rest]
    simpa only [sameLife] using traces.lastOfLife_skip noLife
  · rw [rest]
    simpa only [sameSend] using traces.lastSend_skip noSend
  · refine ⟨_, knows, ?_⟩
    intro earlier
    rw [traces.reaches_iff selected]
    constructor
    · rintro (same | before | ⟨_, touched, -⟩ | ⟨_, sent, -⟩ | ⟨receives, -⟩ |
        ⟨-, other, differs, lastPositive, before⟩)
      · exact .inl (.inl (.inl same))
      · exact .inl (.inl (.inr before))
      · rw [noLife] at touched
        cases touched
      · rw [noSend] at sent
        cases sent
      · rw [awaits] at receives
        cases receives
      · refine .inl (.inr ⟨other, ?_, differs, ?_⟩)
        · rw [follows.rest]
          exact traces.bounded other lastPositive
        · rw [sameLast, Latest.get_set, if_neg differs]
          exact ⟨lastPositive, before⟩
    · rintro (((same | before) | ⟨other, -, differs, before⟩) | ⟨impossible, -⟩)
      · exact .inl same
      · exact .inr (.inl before)
      · rw [sameLast, Latest.get_set, if_neg differs] at before
        exact .inr (.inr (.inr (.inr (.inr ⟨awaits, other, differs, before⟩))))
      · exact absurd impossible (Nat.lt_irrefl 0)
  · exact positive
  · intro impossible
    exact absurd impossible (Nat.lt_irrefl 0)

theorem Traces.touch_nothing
    (traces : causality.Traces schedule step) (positive : 0 < step)
    (selected : schedule.selected? step = some snapshot)
    (follows : causality.Followed schedule step snapshot.id.index followed)
    (noLife : schedule.lifeTarget? step = none) (noSend : schedule.sendTarget? step = none)
    (notReceive : snapshot.kind ≠ .receive)
    (notAwait : snapshot.kind ≠ .awaitDeadlock) :
    followed.Touched schedule step 0 := by
  have sameLife : followed.lastOfLife = causality.lastOfLife := by rw [follows.rest]
  have sameSend : followed.lastSend = causality.lastSend := by rw [follows.rest]
  apply traces.advance follows rfl rfl ⟨rfl, fun _ _ _ => rfl⟩
  · rw [sameLife]
    exact traces.lastOfLife_skip noLife
  · rw [sameSend]
    exact traces.lastSend_skip noSend
  · refine ⟨_, follows.knows, ?_⟩
    intro earlier
    rw [traces.reaches_iff selected]
    simp [noLife, noSend, notReceive, notAwait]
  · exact positive
  · intro impossible
    exact absurd impossible (Nat.lt_irrefl 0)

theorem Traces.touch
    {frame : Frame} {entry : Frame.Entry} {partner : Nat}
    (wellFormed : schedule.WellFormed) (traces : causality.Traces schedule step)
    (positive : 0 < step) (within : step ≤ schedule.position)
    (sized : schedule.frames[step - 1]?.map Frame.size = some frame.size)
    (selected : schedule.selected? step = some entry.snapshot)
    (followed_ok : causality.follow entry.id.index step = .ok followed)
    (touched_ok : followed.touch schedule.position step frame entry = .ok (partner, touched)) :
    touched.Touched schedule step partner := by
  have follows := traces.follow wellFormed positive within
    ⟨entry.snapshot, selected, rfl⟩ followed_ok
  rw [touch_eq sized selected] at touched_ok
  split at touched_ok
  · rename_i target life
    obtain ⟨table, assigned, done⟩ := Checked.bind_eq_ok_iff.mp touched_ok
    cases done
    rw [Latest.assign_eq_ok assigned]
    exact traces.touch_life selected follows life
  · rename_i target noLife sends
    obtain ⟨table, assigned, done⟩ := Checked.bind_eq_ok_iff.mp touched_ok
    cases done
    rw [Latest.assign_eq_ok assigned]
    exact traces.touch_send selected follows noLife sends
  · rename_i noLife noSend
    cases kind : entry.kind
    case receive =>
      simp only [kind, Except.ok.injEq, Prod.mk.injEq] at touched_ok
      obtain ⟨rfl, rfl⟩ := touched_ok
      exact traces.touch_receive wellFormed positive within selected follows noLife noSend kind
    case awaitDeadlock =>
      simp only [kind] at touched_ok
      obtain ⟨joined, joins, done⟩ := Checked.bind_eq_ok_iff.mp touched_ok
      cases done
      exact traces.touch_others positive within selected follows noLife noSend kind joins
    case invalid => exact absurd kind (wellFormed.valid step _ selected)
    all_goals
      simp only [kind, Except.ok.injEq, Prod.mk.injEq] at touched_ok
      obtain ⟨rfl, rfl⟩ := touched_ok
      have known : entry.snapshot.kind = _ := kind
      exact traces.touch_nothing positive selected follows noLife noSend
        (by rw [known]; exact nofun) (by rw [known]; exact nofun)

end Causality

end Interleave
