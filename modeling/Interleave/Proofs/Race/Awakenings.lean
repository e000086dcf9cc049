import Mathlib.Data.Nat.Find
import Interleave.Proofs.Race.Coverage
import Interleave.Proofs.Race.Suffixes

namespace Interleave

/-- Why an actor that was disabled at one step can be selected at a later one: in between, the actor
that it joins has ended or the message that it receives was sent, or it has waited for a deadlock. -/
inductive Awakened (selects : Nat → Snapshot → Prop) (early late : Nat) (snapshot : Snapshot) : Prop
  | stop {step : Nat} {other : ActorId} {last : Snapshot}
      (joins : snapshot.operation = .join other) (selected : selects step last)
      (stops : last.operation = .stop other) (above : early ≤ step) (below : step < late) :
      Awakened selects early late snapshot
  | send {step : Nat} (receives : snapshot.kind = .receive)
      (sent : snapshot.sendStep = some step) (above : early ≤ step) :
      Awakened selects early late snapshot
  | deadlock (awaits : snapshot.kind = .awaitDeadlock) : Awakened selects early late snapshot

theorem Awakened.mono
    {selects others : Nat → Snapshot → Prop} {early late : Nat} {snapshot : Snapshot}
    (awakened : Awakened selects early late snapshot)
    (grows : ∀ step snapshot, selects step snapshot → others step snapshot) :
    Awakened others early late snapshot := by
  cases awakened with
  | stop joins selected stops above below =>
      exact .stop joins (grows _ _ selected) stops above below
  | send receives sent above => exact .send receives sent above
  | deadlock awaits => exact .deadlock awaits

namespace Schedule

/-- Who is disabled at a step is not selected again before it has been awakened. -/
def Attentive (schedule : Schedule) : Prop :=
  ∀ early late frame entry snapshot, early < late → schedule.frame early = .ok frame →
    schedule.selected? late = some snapshot → frame.get? snapshot.id.index = some entry →
    entry.enabled = false →
    (∀ step, early ≤ step → step < late → ¬ schedule.ActsAt snapshot.id step) →
      Awakened (fun step last => schedule.selected? step = some last) early late snapshot

variable {schedule : Schedule} {race : Race} {early late step : Nat} {actor : ActorId}
  {snapshot : Snapshot}

section Awakened

variable (wellFormed : schedule.WellFormed)

include wellFormed

/-- The step comes after one that has been made since, and it is not a send. -/
theorem exists_reaches_of_awakened
    (awakened : Awakened (fun step last => schedule.selected? step = some last) early late snapshot)
    (positive : 0 < early) (lt : early < late)
    (selected : schedule.selected? late = some snapshot)
    (absent : ¬ schedule.ActsAt snapshot.id early) :
    schedule.sendTarget? late = none ∧
      ∃ step, early ≤ step ∧ step < late ∧ schedule.Reaches step late := by
  have noSend (differs : snapshot.kind ≠ .send) : schedule.sendTarget? late = none := by
    simp only [sendTarget?, selected, Option.bind_some]
  cases awakened with
  | @stop step other last joins stopped stops above below =>
      have isJoin : snapshot.kind = .join := by
        rw [Snapshot.kind, joins]
        rfl
      refine ⟨noSend (by simp [isJoin]), step, above, below, ?_⟩
      have ends : schedule.lifeTarget? step = some other.index := by
        simp [lifeTarget?, stopped, Snapshot.kind, stops, Operation.stop]
      have joined : schedule.lifeTarget? late = some other.index := by
        simp [lifeTarget?, selected, Snapshot.kind, joins, Operation.join]
      exact reaches_of_life (Nat.lt_of_lt_of_le positive above) ends joined (Nat.le_of_lt below)
  | @send step receives sent above =>
      have below := wellFormed.sent late snapshot step selected receives sent
      refine ⟨noSend (by simp [receives]), step, above, below, ?_⟩
      exact .single (.receive selected receives (Nat.lt_of_lt_of_le positive above) sent)
  | deadlock awaits =>
      refine ⟨noSend (by simp [awaits]), ?_⟩
      have within := ActsAt.le_position ⟨snapshot, selected, rfl⟩
      obtain ⟨other, acting⟩ := Option.isSome_iff_exists.mp
        (wellFormed.isSome_selected? positive (Nat.lt_of_lt_of_le lt within))
      have acts : schedule.ActsAt other.id early := ⟨other, acting, rfl⟩
      obtain ⟨latest, isLatest⟩ := exists_isLatest (schedule.ActsAt other.id) (late - 1)
      rw [Nat.sub_add_cancel (Nat.lt_of_lt_of_le positive (Nat.le_of_lt lt))] at isLatest
      have above := isLatest.le_of_holds lt acts
      refine ⟨latest, above, isLatest.1, .single (.awaitDeadlock selected awaits ?_
        (Nat.lt_of_lt_of_le positive above) isLatest)⟩
      intro same
      exact absent (same ▸ acts)

end Awakened

section Causes

variable (wellFormed : schedule.WellFormed) (peopled : schedule.Peopled) {frame next : Frame}

include wellFormed peopled

theorem Peopled.exists_creates
    {actor : Nat} (found : schedule.frame early = .ok frame) (missing : frame.size ≤ actor)
    (also : schedule.frame late = .ok next) (there : actor < next.size) (le : early ≤ late)
    (within : late ≤ schedule.position) :
    ∃ step, early ≤ step ∧ step < late ∧ schedule.CreatesAt actor step := by
  induction le generalizing next with
  | refl =>
      cases found.symm.trans also
      omega
  | @step late le induction =>
      have positive : 0 < late := Nat.lt_of_lt_of_le (frame_eq_ok_iff.mp found).1 le
      obtain ⟨between, known⟩ := wellFormed.exists_frame positive (Nat.le_of_succ_le within)
      by_cases earlier : actor < between.size
      · obtain ⟨step, above, below, creates⟩ :=
          induction known earlier (Nat.le_of_succ_le within)
        exact ⟨step, above, Nat.lt_succ_of_lt below, creates⟩
      · obtain ⟨snapshot, selected⟩ :=
          Option.isSome_iff_exists.mp (wellFormed.isSome_selected? positive within)
        have grown := peopled.grows late between next snapshot known also within selected
        split at grown
        · rename_i isCreate
          exact ⟨late, le, Nat.lt_succ_self late, ⟨between, known, by omega⟩, snapshot, selected,
            isCreate⟩
        · omega

variable (numbered : schedule.Numbered) (attentive : schedule.Attentive)

include numbered attentive

/-- Who could not run at a step, and then runs, comes after a step that has been made since. -/
theorem exists_cause
    (positive : 0 < early) (lt : early < late) (acts : schedule.ActsAt actor late)
    (disabled : ¬ schedule.EnabledAt early actor.index)
    (idle : ∀ step, early ≤ step → step < late → ¬ schedule.ActsAt actor step) :
    schedule.sendTarget? late = none ∧
      ∃ step, early ≤ step ∧ step < late ∧ schedule.Reaches step late := by
  have within := acts.le_position
  obtain ⟨frame, found⟩ := wellFormed.exists_frame positive (Nat.le_trans (Nat.le_of_lt lt) within)
  obtain ⟨next, also⟩ := wellFormed.exists_frame acts.positive within
  obtain ⟨snapshot, selected, rfl⟩ := acts
  cases there : frame.get? snapshot.id.index with
  | some entry =>
      have asleep : entry.enabled = false :=
        Bool.of_not_eq_true fun enabled => disabled ⟨frame, entry, found, there, enabled⟩
      exact exists_reaches_of_awakened wellFormed
        (attentive early late frame entry snapshot lt found selected there asleep idle) positive lt
        selected (idle early (Nat.le_refl _) lt)
  | none =>
      have missing : frame.size ≤ snapshot.id.index := List.getElem?_eq_none_iff.mp there
      have acts : schedule.ActsAt snapshot.id late := ⟨snapshot, selected, rfl⟩
      obtain ⟨step, above, below, creates⟩ := peopled.exists_creates wellFormed found missing also
        (index_lt_of_acts numbered acts also) (Nat.le_of_lt lt) within
      refine ⟨?_, step, above, below, peopled.reaches_of_creates wellFormed numbered creates acts⟩
      obtain ⟨first, root⟩ := wellFormed.exists_frame Nat.one_pos
        (Nat.le_trans (Nat.succ_le_of_lt acts.positive) within)
      have early_le : early ≤ schedule.position := Nat.le_trans (Nat.le_of_lt lt) within
      have newcomer : first.size ≤ snapshot.id.index :=
        Nat.le_trans (peopled.size_le wellFormed root found positive early_le) missing
      have starts := peopled.starts first late snapshot root selected newcomer (by
        intro earlier before acted
        rcases Nat.lt_or_ge earlier early with first | later
        · -- It was not there at the later one of these steps.
          obtain ⟨shown, known⟩ := wellFormed.exists_frame acted.positive acted.le_position
          have inside := index_lt_of_acts numbered acted known
          have grown := peopled.size_le wellFormed known found (Nat.le_of_lt first) early_le
          omega
        · exact idle earlier later before acted)
      simp [sendTarget?, selected, Snapshot.kind, starts, Operation.start]

/-- Somebody could run in place of the first step of a race: whoever comes first between its steps of
those that the second step has to come after, or the actor of the second step itself. -/
theorem Reversible.exists_candidate (reversible : schedule.Reversible race) :
    ∃ actor, schedule.Candidate race actor := by
  obtain ⟨step, ⟨above, reaches⟩, least⟩ : ∃ step,
      (race.first < step ∧ schedule.Reaches step race.second) ∧
        ∀ other, race.first < other → schedule.Reaches other race.second → step ≤ other := by
    classical
    have some : ∃ step, race.first < step ∧ schedule.Reaches step race.second :=
      ⟨race.second, reversible.ordered, .refl⟩
    exact ⟨Nat.find some, Nat.find_spec some, fun other after before =>
      Nat.find_min' some ⟨after, before⟩⟩
  have le := reaches.le wellFormed
  have within : step ≤ schedule.position := Nat.le_trans le reversible.le_position
  obtain ⟨target, sends, -⟩ := reversible.sends
  have known : (schedule.selected? step).isSome := by
    rcases Nat.lt_or_eq_of_le le with below | rfl
    · exact wellFormed.isSome_selected? (Nat.lt_trans reversible.positive above)
        (Nat.lt_of_lt_of_le below reversible.le_position)
    · exact isSome_of_sendTarget? sends
  obtain ⟨snapshot, selected⟩ := Option.isSome_iff_exists.mp known
  have acts : schedule.ActsAt snapshot.id step := ⟨snapshot, selected, rfl⟩
  have alone : ∀ other, race.first < other → other < step → ¬ schedule.Reaches other step := by
    intro other after before reached
    exact Nat.not_le_of_lt before (least other after (reached.trans reaches))
  have last : schedule.Reaches race.first step → step = race.second :=
    fun reached => reversible.not_between wellFormed above reached reaches
  have notFirst : ¬ schedule.ActsAt snapshot.id race.first := by
    intro first
    have isSecond := last (reaches_of_acts first acts (Nat.le_of_lt above))
    rw [isSecond] at acts
    exact reversible.not_acts acts first
  have idle : ∀ other, race.first ≤ other → other < step →
      ¬ schedule.ActsAt snapshot.id other := by
    intro other after before acted
    rcases Nat.lt_or_eq_of_le after with after | rfl
    · exact alone other after before (reaches_of_acts acted acts (Nat.le_of_lt before))
    · exact notFirst acted
  have enabled : schedule.EnabledAt race.first snapshot.id.index := by
    by_contra disabled
    obtain ⟨noSend, cause, after, before, reached⟩ := exists_cause wellFormed peopled numbered
      attentive reversible.positive above acts disabled idle
    rcases Nat.lt_or_eq_of_le after with after | rfl
    · exact alone cause after before reached
    · rw [← last reached, noSend] at sends
      cases sends
  refine ⟨snapshot.id.index, ?_⟩
  by_cases second : schedule.ActsAt snapshot.id race.second
  · exact .second enabled second
  · have below : step < race.second :=
      Nat.lt_of_le_of_ne le fun same => second (same ▸ acts)
    refine .between ⟨enabled, notFirst, second⟩
      ⟨above, below, acts, fun other after => idle other (Nat.le_of_lt after)⟩ ?_
    rintro (reached | ⟨other, earlier, -, first, before, reached⟩)
    · exact Nat.ne_of_lt below (last reached)
    · exact alone earlier first.above before reached

end Causes

end Schedule

namespace Analysis

open Attempt

variable {original : Schedule} {race : Race} {second : Frame.Entry} {before : Analysis × Log}
  {found : List Nat} {frame : Frame} {index : Nat}

theorem exists_preferred
    (member : index ∈ found) (there : (frame.get? index).isSome) (start : Nat) :
    ∃ chosen, preferred frame found start = some chosen := by
  obtain ⟨entry, there⟩ := Option.isSome_iff_exists.mp there
  have search : ((frame.around start).find? fun item => found.contains item.2 && true).isSome := by
    rw [List.find?_isSome]
    exact ⟨(entry, index), Frame.mem_around.mpr there, by simpa using member⟩
  obtain ⟨item, last⟩ := Option.isSome_iff_exists.mp search
  refine Option.isSome_iff_exists.mp ?_
  simp only [preferred, Option.orElse_eq_orElse, Option.orElse_eq_or, Option.isSome_or,
    Bool.or_eq_true]
  refine .inr (.inr ?_)
  rw [last]
  rfl

theorem exists_addBacktrack
    (picked : candidates before.1.causality before.1.schedule race second = .ok found)
    (there : before.1.schedule.frame race.first = .ok frame) (member : index ∈ found) :
    ∃ after, (addBacktrack race second).Returns before () after := by
  have some : found.isEmpty = false := by
    rw [List.isEmpty_eq_false_iff]
    exact List.ne_nil_of_mem member
  obtain ⟨entry, known, -⟩ := enabled_of_candidates picked there member
  obtain ⟨chosen, preferring⟩ := exists_preferred member
    (Option.isSome_iff_exists.mpr ⟨entry, known⟩) second.id.index
  by_cases marked : (found.any fun index => (frame.get? index).any Frame.Entry.backtrack) = true
  · exact ⟨before, addBacktrack_of_marked picked ((any_marked_iff there).mp marked)⟩
  · refine ⟨(before.1.setSchedule (before.1.schedule.markAt (race, chosen)),
      before.2.add (.backtrackPoint race.first chosen)), ?_⟩
    simp only [addBacktrack, returns_bind_iff, returns_get_iff, returns_lift_iff]
    refine ⟨_, _, ⟨rfl, rfl⟩, found, _, ⟨picked, rfl⟩, ?_⟩
    rw [if_neg (by rw [some]; exact Bool.false_ne_true)]
    simp only [returns_bind_iff, returns_lift_iff]
    refine ⟨frame, _, ⟨there, rfl⟩, ?_⟩
    rw [if_neg marked, preferring]
    simp only [returns_bind_iff, returns_log_iff, returns_modify_iff]
    exact ⟨⟨⟩, _, rfl, rfl⟩

/-- An analysis comes to its end if every race has a candidate. -/
theorem exists_answers
    (wellFormed : original.WellFormed) (numbered : original.Numbered)
    (storable : original.Storable) (recorded : before.1.schedule.unmark = original.unmark)
    (candidate : ∀ race, original.Reversible race → ∃ actor, original.Candidate race actor) :
    ∃ after, (run false).Returns before () after := by
  obtain ⟨after, returned, -⟩ : ∃ after, (run false).Returns before () after ∧
      Walked original (original.position + 1) after := by
    apply exists_run (motive := Walked original) wellFormed recorded
    · exact fun between _ _ walked => walked
    · intro step between positive within walked
      have answers : ∀ first entry touched log, original.Reversible ⟨first, step⟩ →
          original.selected? step = some entry.snapshot → touched.Touched original step first →
          ∃ next, Answers false ⟨first, step⟩ entry true
            (between.1.setCausality touched, log) next := by
        intro first entry touched log reversible selected reached
        obtain ⟨found, picked, mem_iff⟩ := candidates_eq_ok wellFormed walked.recorded
          reversible.positive within reached selected
        obtain ⟨actor, among⟩ := candidate _ reversible
        obtain ⟨frame, -, there, -⟩ := among.enabled.of_unmark_eq walked.recorded
        have answered : ∃ next, (addBacktrack ⟨first, step⟩ entry).Returns
            (between.1.setCausality touched, log) () next :=
          exists_addBacktrack picked there ((mem_iff actor).mpr among)
        exact answered
      obtain ⟨next, visited⟩ :=
        walked.exists_visit wellFormed numbered storable positive within answers
      exact ⟨next, visited, walked.visited wellFormed positive within visited⟩
  exact ⟨after, returned⟩

end Analysis

end Interleave
