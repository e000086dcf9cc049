import Interleave.Proofs.Race.Walks

namespace Interleave

namespace Schedule

def EnabledAt (schedule : Schedule) (step actor : Nat) : Prop :=
  ∃ frame entry, schedule.frame step = .ok frame ∧ frame.get? actor = some entry ∧
    entry.enabled = true

structure Awaits (schedule : Schedule) (race : Race) (actor : Nat) : Prop where
  enabled : schedule.EnabledAt race.first actor
  notFirst : ¬ schedule.ActsAt ⟨actor⟩ race.first
  notSecond : ¬ schedule.ActsAt ⟨actor⟩ race.second

/-- The first step of an actor between the steps of a race. -/
structure FirstBetween (schedule : Schedule) (race : Race) (actor step : Nat) : Prop where
  above : race.first < step
  below : step < race.second
  acts : schedule.ActsAt ⟨actor⟩ step
  first : ∀ earlier, race.first < earlier → earlier < step → ¬ schedule.ActsAt ⟨actor⟩ earlier

/-- The step comes after the first step of the race, or after the first step in between of another
actor that is awaited. -/
def Follows (schedule : Schedule) (race : Race) (step : Nat) : Prop :=
  schedule.Reaches race.first step ∨ ∃ other earlier, schedule.Awaits race other ∧
    schedule.FirstBetween race other earlier ∧ earlier < step ∧ schedule.Reaches earlier step

/-- An actor that could run in place of the first step of a race: the one of the second step, or one
whose first step in between comes after none that it would have to wait for. -/
inductive Candidate (schedule : Schedule) (race : Race) (actor : Nat) : Prop
  | second (enabled : schedule.EnabledAt race.first actor)
      (acts : schedule.ActsAt ⟨actor⟩ race.second)
  | between (awaits : schedule.Awaits race actor) {step : Nat}
      (first : schedule.FirstBetween race actor step) (free : ¬ schedule.Follows race step)

variable {schedule current : Schedule} {race : Race} {step next actor : Nat}

theorem EnabledAt.of_unmark_eq
    (enabled : schedule.EnabledAt step actor) (same : current.unmark = schedule.unmark) :
    current.EnabledAt step actor := by
  obtain ⟨frame, entry, found, there, able⟩ := enabled
  obtain ⟨other, also, equal⟩ := frame_of_unmark_eq same.symm found
  have entries := congrArg (fun frame : Frame => frame.get? actor) equal
  simp only [Frame.get?_unmark, there, Option.map_some] at entries
  obtain ⟨chosen, here, unmarked⟩ := Option.map_eq_some_iff.mp entries
  refine ⟨other, chosen, also, here, ?_⟩
  have snapshots := congrArg Frame.Entry.snapshot unmarked
  rw [Frame.Entry.snapshot_unmark, Frame.Entry.snapshot_unmark] at snapshots
  rw [Frame.Entry.enabled, snapshots]
  exact able

/-- Whom a scan for candidates still waits for, before it looks at the next step. -/
structure Awaited (schedule : Schedule) (race : Race) (next : Nat) (awaited : List Nat) : Prop where
  nodup : awaited.Nodup
  mem_iff : ∀ actor, actor ∈ awaited ↔ schedule.Awaits race actor ∧
    ∀ earlier, race.first < earlier → earlier < next → ¬ schedule.ActsAt ⟨actor⟩ earlier

/-- The clock of a scan for candidates holds the first step of the race and the first steps of the
awaited actors that it has looked at. -/
structure Scanned (schedule : Schedule) (race : Race) (next : Nat) (seen : Clock) : Prop where
  acts : ∀ actor, 0 < (seen.get actor).toNat → schedule.ActsAt ⟨actor⟩ (seen.get actor).toNat
  holds_iff : ∀ step, 0 < step → ((∃ actor, (seen.get actor).toNat = step) ↔
    step = race.first ∨ ∃ other, schedule.Awaits race other ∧
      schedule.FirstBetween race other step ∧ step < next)

variable {awaited : List Nat} {seen clock : Clock}

theorem Awaited.first
    (waits : schedule.Awaited race next awaited) (above : race.first < next)
    (below : next < race.second) (member : actor ∈ awaited) (acts : schedule.ActsAt ⟨actor⟩ next) :
    schedule.FirstBetween race actor next :=
  ⟨above, below, acts, ((waits.mem_iff actor).mp member).2⟩

theorem Awaited.erase
    (waits : schedule.Awaited race next awaited) {acting : Nat} (above : race.first < next)
    (acts : schedule.ActsAt ⟨acting⟩ next) :
    schedule.Awaited race (next + 1) (awaited.erase acting) where
  nodup := waits.nodup.erase acting
  mem_iff := by
    intro actor
    rw [waits.nodup.mem_erase_iff, waits.mem_iff]
    constructor
    · rintro ⟨differs, awaits, before⟩
      refine ⟨awaits, ?_⟩
      intro earlier lower upper
      rcases Nat.lt_succ_iff_lt_or_eq.mp upper with upper | rfl
      · exact before earlier lower upper
      · intro also
        cases acts.unique also
        exact differs rfl
    · rintro ⟨awaits, before⟩
      refine ⟨?_, awaits, fun earlier lower upper =>
        before earlier lower (Nat.lt_succ_of_lt upper)⟩
      rintro rfl
      exact before next above (Nat.lt_succ_self next) acts

theorem Awaited.skip
    (waits : schedule.Awaited race next awaited) {acting : Nat} (above : race.first < next)
    (acts : schedule.ActsAt ⟨acting⟩ next) (absent : acting ∉ awaited) :
    schedule.Awaited race (next + 1) awaited := by
  have erased := waits.erase above acts
  rwa [List.erase_of_not_mem absent] at erased

theorem FirstBetween.unique
    (first : schedule.FirstBetween race actor step)
    (also : schedule.FirstBetween race actor next) : step = next := by
  rcases Nat.lt_trichotomy step next with lower | same | upper
  · exact absurd first.acts (also.first step first.above lower)
  · exact same
  · exact absurd also.acts (first.first next also.above upper)

theorem FirstBetween.free_iff (first : schedule.FirstBetween race actor next) :
    (∃ step, schedule.FirstBetween race actor step ∧ ¬ schedule.Follows race step) ↔
      ¬ schedule.Follows race next := by
  constructor
  · rintro ⟨step, also, free⟩
    rwa [also.unique first] at free
  · exact fun free => ⟨next, first, free⟩

theorem holds_set_iff {acting : Nat} (short : next < 2 ^ 32) :
    (∃ actor, ((clock.set acting (.ofNat next)).get actor).toNat = step) ↔
      step = next ∨ ∃ actor, actor ≠ acting ∧ (clock.get actor).toNat = step := by
  simp only [Clock.get_set]
  constructor
  · rintro ⟨actor, held⟩
    split at held
    · rw [UInt32.toNat_ofNat_of_lt' short] at held
      exact .inl held.symm
    · rename_i differs
      exact .inr ⟨actor, differs, held⟩
  · rintro (rfl | ⟨actor, differs, held⟩)
    · exact ⟨acting, by rw [if_pos rfl, UInt32.toNat_ofNat_of_lt' short]⟩
    · exact ⟨actor, by rw [if_neg differs, held]⟩

theorem actsAt_of_set
    {acting : Nat} (short : next < 2 ^ 32) (acts : schedule.ActsAt ⟨acting⟩ next)
    (old : 0 < (clock.get actor).toNat → schedule.ActsAt ⟨actor⟩ (clock.get actor).toNat)
    (held : 0 < ((clock.set acting (.ofNat next)).get actor).toNat) :
    schedule.ActsAt ⟨actor⟩ ((clock.set acting (.ofNat next)).get actor).toNat := by
  rw [Clock.get_set] at held ⊢
  split
  · rename_i same
    rw [same, UInt32.toNat_ofNat_of_lt' short]
    exact acts
  · rename_i differs
    rw [if_neg differs] at held
    exact old held

theorem Scanned.get_eq_zero
    (scanned : schedule.Scanned race next seen) (waits : schedule.Awaited race next awaited)
    (member : actor ∈ awaited) : (seen.get actor).toNat = 0 := by
  obtain ⟨awaits, before⟩ := (waits.mem_iff actor).mp member
  rcases Nat.eq_zero_or_pos (seen.get actor).toNat with zero | positive
  · exact zero
  · have acts := scanned.acts actor positive
    rcases (scanned.holds_iff _ positive).mp ⟨actor, rfl⟩ with same | ⟨other, -, first, lower⟩
    · rw [same] at acts
      exact absurd acts awaits.notFirst
    · exact absurd acts (before _ first.above lower)

theorem Scanned.skip
    (scanned : schedule.Scanned race next seen) (waits : schedule.Awaited race next awaited)
    {acting : Nat} (acts : schedule.ActsAt ⟨acting⟩ next) (absent : acting ∉ awaited) :
    schedule.Scanned race (next + 1) seen where
  acts := scanned.acts
  holds_iff := by
    intro step positive
    rw [scanned.holds_iff step positive]
    refine or_congr_right (exists_congr fun other => and_congr_right fun awaits =>
      and_congr_right fun first => ?_)
    have differs : step ≠ next := by
      rintro rfl
      cases acts.unique first.acts
      exact absent ((waits.mem_iff acting).mpr ⟨awaits, first.first⟩)
    omega

theorem Scanned.set
    (scanned : schedule.Scanned race next seen) (waits : schedule.Awaited race next awaited)
    (above : race.first < next) (below : next < race.second) (short : next < 2 ^ 32)
    {acting : Nat} (acts : schedule.ActsAt ⟨acting⟩ next) (member : acting ∈ awaited) :
    schedule.Scanned race (next + 1) (seen.set acting (.ofNat next)) where
  acts actor := actsAt_of_set short acts (scanned.acts actor)
  holds_iff := by
    intro step positive
    have none := scanned.get_eq_zero waits member
    have others : (∃ actor, actor ≠ acting ∧ (seen.get actor).toNat = step) ↔
        ∃ actor, (seen.get actor).toNat = step := by
      refine exists_congr fun actor => and_iff_right_of_imp ?_
      rintro held rfl
      omega
    rw [holds_set_iff short, others, scanned.holds_iff step positive]
    constructor
    · rintro (rfl | same | ⟨other, awaits, first, lower⟩)
      · have awaits := ((waits.mem_iff acting).mp member).1
        exact .inr ⟨acting, awaits, waits.first above below member acts, Nat.lt_succ_self step⟩
      · exact .inl same
      · exact .inr ⟨other, awaits, first, Nat.lt_succ_of_lt lower⟩
    · rintro (same | ⟨other, also, first, lower⟩)
      · exact .inr (.inl same)
      · rcases Nat.lt_succ_iff_lt_or_eq.mp lower with lower | same
        · exact .inr (.inr ⟨other, also, first, lower⟩)
        · exact .inl same

theorem ActsAt.not_iff {id : ActorId} (acts : schedule.ActsAt id step) :
    ¬ schedule.ActsAt ⟨actor⟩ step ↔ actor ≠ id.index := by
  refine not_congr ⟨?_, ?_⟩
  · intro also
    rw [acts.unique also]
  · rintro rfl
    exact acts

theorem awaited_start
    (nodup : awaited.Nodup)
    (mem_iff : ∀ actor, actor ∈ awaited ↔ schedule.EnabledAt race.first actor ∧
      ¬ schedule.ActsAt ⟨actor⟩ race.first ∧ ¬ schedule.ActsAt ⟨actor⟩ race.second) :
    schedule.Awaited race (race.first + 1) awaited where
  nodup := nodup
  mem_iff := by
    intro actor
    rw [mem_iff]
    constructor
    · rintro ⟨enabled, notFirst, notSecond⟩
      exact ⟨⟨enabled, notFirst, notSecond⟩, fun earlier above below => absurd above (by omega)⟩
    · rintro ⟨⟨enabled, notFirst, notSecond⟩, -⟩
      exact ⟨enabled, notFirst, notSecond⟩

theorem scanned_start
    {id : ActorId} (size : Nat) (acts : schedule.ActsAt id race.first)
    (short : race.first < 2 ^ 32) :
    schedule.Scanned race (race.first + 1)
      ((Clock.zero size).set id.index (.ofNat race.first)) where
  acts actor := actsAt_of_set short acts (by simp)
  holds_iff := by
    intro step positive
    have none : ¬ ∃ other, schedule.Awaits race other ∧
        schedule.FirstBetween race other step ∧ step < race.first + 1 := by
      rintro ⟨other, -, first, below⟩
      have above := first.above
      omega
    have blank : ¬ ∃ actor, actor ≠ id.index ∧ ((Clock.zero size).get actor).toNat = step := by
      rintro ⟨actor, -, held⟩
      simp only [Clock.get_zero, UInt32.toNat_zero] at held
      omega
    rw [holds_set_iff short, or_iff_left none, or_iff_left blank]

theorem Scanned.anyBefore_iff
    (scanned : schedule.Scanned race step seen) (positive : 0 < race.first)
    (knows : schedule.Knows clock (schedule.Reaches · step)) :
    seen.anyBefore clock = true ↔ schedule.Follows race step := by
  have reached : ∀ actor, 0 < (seen.get actor).toNat →
      ((seen.get actor).toNat ≤ (clock.get actor).toNat ↔
        schedule.Reaches (seen.get actor).toNat step) :=
    fun actor held => knows _ ⟨actor⟩ (scanned.acts actor held)
  simp only [Clock.anyBefore_iff, UInt32.lt_iff_toNat_lt, UInt32.le_iff_toNat_le,
    UInt32.toNat_zero]
  constructor
  · rintro ⟨actor, held, le⟩
    have reaches := (reached actor held).mp le
    rcases (scanned.holds_iff _ held).mp ⟨actor, rfl⟩ with same | ⟨other, awaits, first, lower⟩
    · rw [same] at reaches
      exact .inl reaches
    · exact .inr ⟨other, _, awaits, first, lower, reaches⟩
  · have backward : ∀ earlier, 0 < earlier → (∃ actor, (seen.get actor).toNat = earlier) →
        schedule.Reaches earlier step →
        ∃ actor, 0 < (seen.get actor).toNat ∧ (seen.get actor).toNat ≤ (clock.get actor).toNat := by
      rintro earlier positive ⟨actor, rfl⟩ reaches
      exact ⟨actor, positive, (reached actor positive).mpr reaches⟩
    rintro (reaches | ⟨other, earlier, awaits, first, lower, reaches⟩)
    · exact backward race.first positive ((scanned.holds_iff _ positive).mpr (.inl rfl)) reaches
    · have later : 0 < earlier := Nat.lt_trans positive first.above
      exact backward earlier later
        ((scanned.holds_iff _ later).mpr (.inr ⟨other, awaits, first, lower⟩)) reaches

end Schedule

namespace Analysis

variable {schedule current : Schedule} {causality : Causality} {race : Race}

/-- What a scan for candidates reads of the steps between those of a race. -/
def Legible (causality : Causality) (current schedule : Schedule) (race : Race) : Prop :=
  ∀ step, race.first < step → step < race.second →
    ∃ frame entry, current.frame step = .ok frame ∧ frame.selected = .ok entry ∧
      schedule.ActsAt entry.id step ∧ causality.clock step = .ok (causality.clockAt step) ∧
      schedule.Knows (causality.clockAt step) (schedule.Reaches · step)

theorem independentFirsts_eq_ok
    {next count : Nat} {awaited : List Nat} {seen : Clock}
    (legible : Legible causality current schedule race) (positive : 0 < race.first)
    (short : race.second < 2 ^ 32) (above : race.first < next)
    (ends : next + count = race.second) (waits : schedule.Awaited race next awaited)
    (scanned : schedule.Scanned race next seen) :
    ∃ firsts, independentFirsts causality current (List.range' next count) awaited seen =
        .ok firsts ∧
      ∀ actor, actor ∈ firsts ↔ actor ∈ awaited ∧
        ∃ step, schedule.FirstBetween race actor step ∧ ¬ schedule.Follows race step := by
  induction count generalizing next awaited seen with
  | zero =>
      refine ⟨[], rfl, ?_⟩
      intro actor
      refine iff_of_false List.not_mem_nil ?_
      rintro ⟨member, step, first, -⟩
      have below := first.below
      exact ((waits.mem_iff actor).mp member).2 step first.above (by omega) first.acts
  | succ count induction =>
      have below : next < race.second := by omega
      have beyond : race.first < next + 1 := Nat.lt_succ_of_lt above
      obtain ⟨frame, entry, found, selected, acting, timed, knows⟩ := legible next above below
      have acts : schedule.ActsAt ⟨entry.id.index⟩ next := acting
      rw [List.range'_succ, independentFirsts]
      by_cases nobody : awaited.isEmpty = true
      · rw [if_pos nobody, List.isEmpty_iff.mp nobody]
        exact ⟨[], rfl, by simp⟩
      · simp only [nobody, found, selected, timed, bind, Except.bind, pure, Except.pure,
          Bool.not_eq_true', Bool.false_eq_true, if_false]
        by_cases member : entry.id.index ∈ awaited
        · obtain ⟨others, scan, mem_others⟩ := induction beyond (by omega)
            (waits.erase above acts)
            (scanned.set waits above below (Nat.lt_trans below short) acts member)
          have among : awaited.contains entry.id.index = true := by simpa using member
          simp only [among, Bool.true_eq_false, if_false]
          rw [scan]
          refine ⟨_, rfl, ?_⟩
          have comes := scanned.anyBefore_iff positive knows
          intro actor
          have rest : actor ∈ others ↔ actor ≠ entry.id.index ∧ actor ∈ awaited ∧
              ∃ step, schedule.FirstBetween race actor step ∧ ¬ schedule.Follows race step := by
            rw [mem_others, waits.nodup.mem_erase_iff, and_assoc]
          by_cases same : actor = entry.id.index
          · subst same
            have absent : entry.id.index ∉ others := fun among => (rest.mp among).1 rfl
            rw [(waits.first above below member acts).free_iff, ← comes]
            split
            · rename_i follows
              simp [absent, follows]
            · rename_i free
              simp [member, free]
          · split
            · simp [rest, same]
            · simp [rest, same]
        · have absent : awaited.contains entry.id.index = false := by simpa using member
          simp only [absent, if_true]
          exact induction beyond (by omega) (waits.skip above acts member)
            (scanned.skip waits acts member)

theorem mem_enabled_iff {frame : Frame} {actor : Nat} :
    actor ∈ (frame.entries.zipIdx.filter fun item => item.1.enabled).map Prod.snd ↔
      ∃ entry, frame.get? actor = some entry ∧ entry.enabled = true := by
  simp only [List.mem_map, List.mem_filter, Prod.exists, List.mem_zipIdx_iff_getElem?, Frame.get?,
    exists_eq_right]

theorem nodup_enabled (frame : Frame) :
    ((frame.entries.zipIdx.filter fun item => item.1.enabled).map Prod.snd).Nodup := by
  refine List.Nodup.sublist (List.filter_sublist.map Prod.snd) ?_
  rw [List.zipIdx_map_snd]
  exact List.nodup_range'

theorem enabledAt_iff
    (recorded : current.unmark = schedule.unmark) {step actor : Nat} {frame : Frame}
    (found : current.frame step = .ok frame) :
    schedule.EnabledAt step actor ↔
      ∃ entry, frame.get? actor = some entry ∧ entry.enabled = true := by
  constructor
  · intro enabled
    obtain ⟨other, entry, again, there, able⟩ := enabled.of_unmark_eq recorded
    cases found.symm.trans again
    exact ⟨entry, there, able⟩
  · rintro ⟨entry, there, able⟩
    exact Schedule.EnabledAt.of_unmark_eq ⟨frame, entry, found, there, able⟩ recorded.symm

theorem legible_of_touched
    (wellFormed : schedule.WellFormed) (recorded : current.unmark = schedule.unmark)
    (positive : 0 < race.first) (within : race.second ≤ schedule.position)
    (touched : causality.Touched schedule race.second race.first) :
    Legible causality current schedule race := by
  intro step above below
  have known := wellFormed.isSome_selected? (Nat.lt_trans positive above)
    (Nat.lt_of_lt_of_le below within)
  obtain ⟨snapshot, selected⟩ := Option.isSome_iff_exists.mp known
  obtain ⟨frame, other, found, picked, rfl⟩ := wellFormed.exists_entry recorded selected
  refine ⟨frame, other, found, picked, ⟨_, selected, rfl⟩, ?_, touched.known step below known⟩
  refine Causality.clock_eq_ok_iff.mpr ⟨Nat.lt_trans positive above, ?_, rfl⟩
  rw [touched.clocks]
  omega

/-- In the middle of the visit that ends a race, the engine finds the actors that could run in place of
its first step. -/
theorem candidates_eq_ok
    (wellFormed : schedule.WellFormed) (recorded : current.unmark = schedule.unmark)
    (positive : 0 < race.first) (within : race.second ≤ schedule.position)
    (touched : causality.Touched schedule race.second race.first) {entry : Frame.Entry}
    (chosen : schedule.selected? race.second = some entry.snapshot) :
    ∃ found, candidates causality current race entry = .ok found ∧
      ∀ actor, actor ∈ found ↔ schedule.Candidate race actor := by
  have ordered := touched.partner_lt
  have secondActs : schedule.ActsAt entry.id race.second := ⟨_, chosen, rfl⟩
  obtain ⟨snapshot, sender⟩ := Option.isSome_iff_exists.mp (touched.partner_selected positive)
  obtain ⟨before, first, found, selected, rfl⟩ := wellFormed.exists_entry recorded sender
  have firstActs : schedule.ActsAt first.id race.first := ⟨_, sender, rfl⟩
  have enabled_iff : ∀ actor, actor ∈
      (before.entries.zipIdx.filter fun item => item.1.enabled).map Prod.snd ↔
        schedule.EnabledAt race.first actor := by
    intro actor
    rw [mem_enabled_iff, enabledAt_iff recorded found]
  have waits : schedule.Awaited race (race.first + 1)
      (((before.entries.zipIdx.filter fun item => item.1.enabled).map Prod.snd).filter fun actor =>
        actor ≠ first.id.index ∧ actor ≠ entry.id.index) := by
    refine Schedule.awaited_start ((nodup_enabled before).filter _) ?_
    intro actor
    rw [List.mem_filter, enabled_iff, decide_eq_true_iff, ← firstActs.not_iff,
      ← secondActs.not_iff]
  have short : race.second < 2 ^ 32 := Nat.lt_of_le_of_lt within wellFormed.short
  have scanned := Schedule.scanned_start causality.actors firstActs (Nat.lt_trans ordered short)
  obtain ⟨others, scan, mem_others⟩ := independentFirsts_eq_ok
    (legible_of_touched wellFormed recorded positive within touched) positive short
    (Nat.lt_succ_self race.first) (Nat.add_sub_cancel' ordered) waits scanned
  refine ⟨_, Checked.bind_eq_ok_iff.mpr ⟨before, found, Checked.bind_eq_ok_iff.mpr
    ⟨first, selected, Checked.bind_eq_ok_iff.mpr ⟨others, scan, rfl⟩⟩⟩, ?_⟩
  intro actor
  have between : actor ∈ others ↔ schedule.Awaits race actor ∧
      ∃ step, schedule.FirstBetween race actor step ∧ ¬ schedule.Follows race step := by
    rw [mem_others, waits.mem_iff]
    refine and_congr_left fun _ => and_iff_left ?_
    intro earlier above below
    omega
  have second : schedule.EnabledAt race.first entry.id.index ↔
      (((before.entries.zipIdx.filter fun item => item.1.enabled).map Prod.snd).contains
        entry.id.index) = true := by
    rw [List.contains_iff_mem, enabled_iff]
  constructor
  · intro member
    have either : (actor = entry.id.index ∧ schedule.EnabledAt race.first entry.id.index) ∨
        actor ∈ others := by
      split at member
      · rename_i contained
        exact (List.mem_cons.mp member).imp_left fun same => ⟨same, second.mpr contained⟩
      · exact .inr member
    rcases either with ⟨rfl, enabled⟩ | among
    · exact .second enabled secondActs
    · obtain ⟨awaits, step, first, free⟩ := between.mp among
      exact .between awaits first free
  · rintro (⟨enabled, acts⟩ | ⟨awaits, first, free⟩)
    · have same : entry.id = ⟨actor⟩ := secondActs.unique acts
      have number : entry.id.index = actor := congrArg ActorId.index same
      rw [if_pos (second.mp (number ▸ enabled)), number]
      exact List.mem_cons_self
    · have among := between.mpr ⟨awaits, _, first, free⟩
      split
      · exact List.mem_cons_of_mem _ among
      · exact among

end Analysis

end Interleave
