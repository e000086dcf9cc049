import Interleave.Proofs.Race.Backtracks
import Interleave.Proofs.Race.Clocks

namespace Interleave

/-- The schedule of a search contradicts itself, or the actors contradict the schedule. -/
def Fault.isDisorder : Fault → Bool
  | .misplaced .. | .diverged .. | .unaligned .. | .severalSelected | .noneSelected => true
  | _ => false

namespace Checked

variable {α β : Type}

def Tidy (value : Except Fault α) : Prop :=
  ∀ fault, value = .error fault → fault.isDisorder = false

theorem tidy_ok (value : α) : Tidy (.ok value) := nofun

theorem tidy_pure (value : α) : Tidy (pure value) := nofun

theorem Tidy.bind
    {value : Except Fault α} {next : α → Except Fault β} (tidy : Tidy value)
    (rest : ∀ found, value = .ok found → Tidy (next found)) : Tidy (value >>= next) := by
  intro fault failed
  rcases bind_eq_error_iff.mp failed with here | ⟨found, ok, later⟩
  · exact tidy fault here
  · exact rest found ok fault later

theorem tidy_sub (left right : Nat) : Tidy (sub left right) := by
  unfold sub
  split
  · exact tidy_ok _
  · rintro _ ⟨⟩
    rfl

theorem tidy_add (left right : Nat) : Tidy (add left right) := by
  unfold add
  split
  · exact tidy_ok _
  · rintro _ ⟨⟩
    rfl

theorem tidy_room (length bytes : Nat) : Tidy (room length bytes) := by
  unfold room
  split
  · exact tidy_ok _
  · rintro _ ⟨⟩
    rfl

theorem tidy_get (values : Array α) (index : Nat) : Tidy (get values index) := by
  unfold get
  split
  · exact tidy_ok _
  · rintro _ ⟨⟩
    rfl

theorem tidy_foldlM
    {items : List β} {step : α → β → Except Fault α} (each : ∀ state item, Tidy (step state item))
    (state : α) : Tidy (items.foldlM step state) := by
  induction items generalizing state with
  | nil => exact tidy_ok state
  | cons item rest induction =>
      rw [List.foldlM_cons]
      exact (each state item).bind fun next _ => induction next

end Checked

namespace Attempt

variable {σ α β : Type}

def Tidy (attempt : Attempt σ α) (before : σ × Log) : Prop :=
  ∀ fault, attempt.Fails before fault → fault.isDisorder = false

variable {before : σ × Log}

theorem Tidy.bind
    {attempt : Attempt σ α} {next : α → Attempt σ β} (tidy : attempt.Tidy before)
    (rest : ∀ value between, attempt.Returns before value between → (next value).Tidy between) :
    (attempt >>= next).Tidy before := by
  intro fault failed
  rcases fails_bind_iff.mp failed with here | ⟨value, between, returned, later⟩
  · exact tidy fault here
  · exact rest value between returned fault later

theorem Returns.tidy
    {attempt : Attempt σ α} {value : α} {after : σ × Log}
    (returned : attempt.Returns before value after) : attempt.Tidy before :=
  fun _ failed => absurd failed returned.not_fails

theorem tidy_of_not_fails {attempt : Attempt σ α}
    (never : ∀ fault, ¬ attempt.Fails before fault) : attempt.Tidy before :=
  fun fault failed => absurd failed (never fault)

theorem tidy_pure (value : α) : Tidy (pure value : Attempt σ α) before :=
  tidy_of_not_fails fun _ => fails_pure_iff.mp

theorem tidy_modify (change : σ → σ) : Tidy (modify change : Attempt σ PUnit) before :=
  tidy_of_not_fails fun _ => fails_modify_iff.mp

theorem tidy_log (event : Event) : Tidy (log event : Attempt σ Unit) before :=
  tidy_of_not_fails fun _ => fails_log_iff.mp

theorem tidy_lift {value : Except Fault α} (tidy : Checked.Tidy value) :
    Tidy (liftM value : Attempt σ α) before :=
  fun fault failed => tidy fault (fails_lift_iff.mp failed)

theorem Tidy.get_bind {next : σ → Attempt σ β} (tidy : (next before.1).Tidy before) :
    (get >>= next).Tidy before := by
  refine .bind (tidy_of_not_fails fun _ => fails_get_iff.mp) ?_
  intro state between returned
  obtain ⟨rfl, rfl⟩ := returns_get_iff.mp returned
  exact tidy

theorem Tidy.lift_bind
    {value : Except Fault α} {next : α → Attempt σ β} (tidy : Checked.Tidy value)
    (rest : ∀ found, value = .ok found → (next found).Tidy before) :
    (liftM value >>= next : Attempt σ β).Tidy before := by
  refine .bind (tidy_lift tidy) ?_
  intro found between returned
  obtain ⟨ok, rfl⟩ := returns_lift_iff.mp returned
  exact rest found ok

theorem Tidy.modify_bind
    {change : σ → σ} {next : PUnit → Attempt σ β}
    (tidy : (next ⟨⟩).Tidy (change before.1, before.2)) :
    (modify change >>= next).Tidy before := by
  refine .bind (tidy_modify change) ?_
  intro value between returned
  obtain rfl := returns_modify_iff.mp returned
  exact tidy

theorem Tidy.log_bind
    {event : Event} {next : Unit → Attempt σ β}
    (tidy : (next ()).Tidy (before.1, before.2.add event)) :
    (log event >>= next : Attempt σ β).Tidy before := by
  refine .bind (tidy_log event) ?_
  intro value between returned
  obtain rfl := returns_log_iff.mp returned
  exact tidy

theorem tidy_loop
    {body : Nat → Attempt σ Unit} {motive : Nat → σ × Log → Prop} {first count : Nat}
    (start : motive first before)
    (round : ∀ step between, first ≤ step → step < first + count → motive step between →
      (body step).Tidy between ∧
        ∀ next, (body step).Returns between () next → motive (step + 1) next) :
    Tidy (forIn (List.range' first count) PUnit.unit fun step _ => do
      body step
      pure (ForInStep.yield PUnit.unit)) before := by
  induction count generalizing first before with
  | zero =>
      rw [List.range'_zero, List.forIn_nil]
      exact tidy_pure _
  | succ count induction =>
      rw [List.range'_succ, List.forIn_cons]
      obtain ⟨tidy, keeps⟩ := round first before (Nat.le_refl first) (by omega) start
      refine .bind (.bind tidy fun _ _ _ => tidy_pure _) ?_
      intro value between returned
      obtain ⟨_, next, worked, done⟩ := returns_bind_iff.mp returned
      obtain ⟨rfl, rfl⟩ := returns_pure_iff.mp done
      exact induction (keeps next worked) fun step between lower upper =>
        round step between (by omega) (by omega)

end Attempt

namespace Frame

theorem tidy_selection? {frame : Frame} (few : frame.selections.length ≤ 1) :
    Checked.Tidy frame.selection? := by
  obtain ⟨selection, read⟩ := exists_selection? few
  rw [read]
  exact Checked.tidy_ok selection

theorem exists_selected {frame : Frame} (one : frame.selections.length = 1) :
    ∃ entry, frame.selected = .ok entry := by
  obtain ⟨⟨entry, index⟩, alone⟩ := List.length_eq_one_iff.mp one
  exact ⟨entry, selected_of_selection? (selection?_eq_some_iff.mpr alone)⟩

end Frame

namespace Schedule

variable {schedule recorded : Schedule} {step : Nat}

def Taken (schedule : Schedule) (step : Nat) : Prop :=
  ∀ frame, schedule.frame step = .ok frame → ∃ entry, frame.selected = .ok entry

structure Selects (schedule : Schedule) : Prop where
  single : ∀ step frame, step < schedule.position → schedule.frame step = .ok frame →
    frame.selections.length = 1
  last : ∀ frame, schedule.frame schedule.position = .ok frame → frame.selections.length ≤ 1
  sent : ∀ step frame entry sendStep, schedule.frame step = .ok frame →
    frame.selected = .ok entry → entry.kind = .receive → entry.snapshot.sendStep = some sendStep →
    sendStep < step

theorem tidy_frame (schedule : Schedule) (step : Nat) : Checked.Tidy (schedule.frame step) :=
  (Checked.tidy_sub _ _).bind fun _ _ => Checked.tidy_get _ _

theorem Selects.taken (selects : schedule.Selects) (before : step < schedule.position) :
    schedule.Taken step :=
  fun frame found => Frame.exists_selected (selects.single step frame before found)

theorem Taken.tidy
    (taken : schedule.Taken step) {frame : Frame} (found : schedule.frame step = .ok frame) :
    Checked.Tidy frame.selected := by
  obtain ⟨entry, same⟩ := taken frame found
  rw [same]
  exact Checked.tidy_ok entry

theorem frame_of_unmark_eq
    (same : recorded.unmark = schedule.unmark) {frame : Frame}
    (found : recorded.frame step = .ok frame) :
    ∃ other, schedule.frame step = .ok other ∧ other.unmark = frame.unmark := by
  obtain ⟨positive, here⟩ := frame_eq_ok_iff.mp found
  obtain ⟨other, there, equal⟩ := exists_frame_of_unmark_eq same here
  exact ⟨other, frame_eq_ok_iff.mpr ⟨positive, there⟩, equal⟩

theorem length_selections_of_unmark_eq {frame other : Frame} (same : other.unmark = frame.unmark) :
    frame.selections.length = other.selections.length := by
  have lengths := congrArg (fun frame : Frame => frame.selections.length) same
  simpa only [Frame.selections_unmark, List.length_map, eq_comm] using lengths

theorem selected_of_unmark_eq
    {frame other : Frame} (same : other.unmark = frame.unmark) {entry : Frame.Entry}
    (selected : frame.selected = .ok entry) :
    ∃ chosen, other.selected = .ok chosen ∧ chosen.snapshot = entry.snapshot := by
  have single : ∃ index, frame.selections = [(entry, index)] := by
    unfold Frame.selected Frame.selection Frame.selection? at selected
    split at selected
    · cases selected
    · rename_i selection alone
      cases selected
      exact ⟨selection.2, alone⟩
    · cases selected
  obtain ⟨index, single⟩ := single
  have selections := congrArg Frame.selections same
  rw [Frame.selections_unmark, Frame.selections_unmark, single] at selections
  obtain ⟨⟨chosen, position⟩, alone, equal⟩ := List.map_eq_singleton_iff.mp selections
  simp only [Prod.mk.injEq] at equal
  refine ⟨chosen, ?_, ?_⟩
  · exact Frame.selected_of_selection? (Frame.selection?_eq_some_iff.mpr alone)
  · rw [← Frame.Entry.snapshot_unmark, equal.1, Frame.Entry.snapshot_unmark]

theorem Taken.of_unmark_eq
    (taken : schedule.Taken step) (same : recorded.unmark = schedule.unmark) :
    recorded.Taken step := by
  intro frame found
  obtain ⟨other, there, equal⟩ := frame_of_unmark_eq same found
  obtain ⟨entry, selected⟩ := taken other there
  obtain ⟨chosen, again, -⟩ := selected_of_unmark_eq equal.symm selected
  exact ⟨chosen, again⟩

theorem Selects.of_unmark_eq
    (selects : schedule.Selects) (same : recorded.unmark = schedule.unmark) :
    recorded.Selects where
  single := by
    intro step frame before found
    rw [position_eq_of_unmark_eq same] at before
    obtain ⟨other, there, equal⟩ := frame_of_unmark_eq same found
    rw [length_selections_of_unmark_eq equal]
    exact selects.single step other before there
  last := by
    intro frame found
    rw [position_eq_of_unmark_eq same] at found
    obtain ⟨other, there, equal⟩ := frame_of_unmark_eq same found
    rw [length_selections_of_unmark_eq equal]
    exact selects.last other there
  sent := by
    intro step frame entry sendStep found selected receives sent
    obtain ⟨other, there, equal⟩ := frame_of_unmark_eq same found
    obtain ⟨chosen, again, snapshots⟩ := selected_of_unmark_eq equal selected
    refine selects.sent step other chosen sendStep there again ?_ ?_
    · rw [Frame.Entry.kind, snapshots]
      exact receives
    · rw [snapshots]
      exact sent

end Schedule

namespace Causality

open Checked

variable {causality changed : Causality} {schedule : Schedule} {step partner : Nat}

def Behind (causality : Causality) (step : Nat) : Prop :=
  ∀ key, causality.lastOfLife.get key < step ∧ causality.lastSend.get key < step

structure SameTables (before after : Causality) : Prop where
  actors : after.actors = before.actors
  lastOfLife : after.lastOfLife = before.lastOfLife
  lastSend : after.lastSend = before.lastSend
  races : after.races = before.races

theorem SameTables.trans {between : Causality} (first : causality.SameTables between)
    (second : between.SameTables changed) : causality.SameTables changed :=
  ⟨second.actors.trans first.actors, second.lastOfLife.trans first.lastOfLife,
    second.lastSend.trans first.lastSend, second.races.trans first.races⟩

theorem SameTables.behind (same : causality.SameTables changed) (behind : causality.Behind step) :
    changed.Behind step := by
  intro key
  rw [same.lastOfLife, same.lastSend]
  exact behind key

theorem Behind.succ (behind : causality.Behind step) : causality.Behind (step + 1) :=
  fun key => ⟨Nat.lt_succ_of_lt (behind key).1, Nat.lt_succ_of_lt (behind key).2⟩

theorem behind_start (actors steps : Nat) : (start actors steps).Behind 1 :=
  fun _ => ⟨Nat.one_pos, Nat.one_pos⟩

theorem sameTables_joinStep {later earlier : Nat}
    (joined : causality.joinStep later earlier = .ok changed) : causality.SameTables changed := by
  obtain ⟨-, rfl⟩ := joinStep_eq_ok joined
  exact ⟨rfl, rfl, rfl, rfl⟩

theorem sameTables_follow {actor : Nat} (followed : causality.follow actor step = .ok changed) :
    causality.SameTables changed := by
  obtain ⟨-, _, -, rfl⟩ := follow_eq_ok followed
  exact ⟨rfl, rfl, rfl, rfl⟩

theorem sameTables_foldlM
    {actor : Nat} {others : List Nat}
    (joined : others.foldlM (fun causality other =>
      let last := causality.lastStep.get other
      if other ≠ actor ∧ 0 < last then causality.joinStep step last else pure causality)
        causality = .ok changed) : causality.SameTables changed := by
  induction others generalizing causality with
  | nil =>
      cases joined
      exact ⟨rfl, rfl, rfl, rfl⟩
  | cons other rest induction =>
      rw [List.foldlM_cons] at joined
      obtain ⟨between, once, joined⟩ := bind_eq_ok_iff.mp joined
      refine .trans ?_ (induction joined)
      dsimp only at once
      split at once
      · exact sameTables_joinStep once
      · cases once
        exact ⟨rfl, rfl, rfl, rfl⟩

theorem get_assign_lt
    {latest assigned : Latest} {key : Nat} (behind : ∀ key, latest.get key < step)
    (assigns : latest.assign key step = .ok assigned) (other : Nat) :
    assigned.get other < step + 1 := by
  rw [Latest.assign_eq_ok assigns, Latest.get_set]
  split
  · exact Nat.lt_succ_self step
  · exact Nat.lt_succ_of_lt (behind other)

/-- A step comes after an earlier one, or after the send whose message it receives. -/
def IsPartner (step : Nat) (entry : Frame.Entry) (partner : Nat) : Prop :=
  partner < step ∨ (entry.kind = .receive ∧ entry.snapshot.sendStep = some partner)

theorem Behind.touch
    {steps : Nat} {frame : Frame} {entry : Frame.Entry} (behind : causality.Behind step)
    (positive : 0 < step)
    (touches : causality.touch steps step frame entry = .ok (partner, changed)) :
    IsPartner step entry partner ∧ changed.Behind (step + 1) ∧
      changed.races = causality.races := by
  have life {target : Nat} (touches : (do
      let life ← causality.lastOfLife.assign target step
      return (causality.lastOfLife.get target, { causality with lastOfLife := life }) :
        Except Fault (Nat × Causality)) = .ok (partner, changed)) :
      IsPartner step entry partner ∧ changed.Behind (step + 1) ∧
        changed.races = causality.races := by
    obtain ⟨latest, assigns, done⟩ := bind_eq_ok_iff.mp touches
    cases done
    exact ⟨.inl (behind target).1, fun key => ⟨get_assign_lt (fun key => (behind key).1) assigns key,
      Nat.lt_succ_of_lt (behind key).2⟩, rfl⟩
  unfold Causality.touch at touches
  split at touches
  · exact life touches
  · exact life touches
  · exact life touches
  · exact life touches
  · obtain ⟨latest, assigns, done⟩ := bind_eq_ok_iff.mp touches
    cases done
    exact ⟨.inl (behind _).2, fun key => ⟨Nat.lt_succ_of_lt (behind key).1,
      get_assign_lt (fun key => (behind key).2) assigns key⟩, rfl⟩
  · rename_i receives
    cases touches
    refine ⟨?_, behind.succ, rfl⟩
    cases sent : entry.snapshot.sendStep with
    | none => exact .inl positive
    | some sendStep => exact .inr ⟨receives, sent⟩
  · obtain ⟨between, joined, done⟩ := bind_eq_ok_iff.mp touches
    cases done
    have same := sameTables_foldlM joined
    exact ⟨.inl positive, (same.behind behind).succ, same.races⟩
  · cases touches
  · cases touches
    exact ⟨.inl positive, behind.succ, rfl⟩

theorem tidy_clock (causality : Causality) (step : Nat) : Tidy (causality.clock step) :=
  (tidy_sub _ _).bind fun _ _ => tidy_get _ _

theorem tidy_joinStep (causality : Causality) (later earlier : Nat) :
    Tidy (causality.joinStep later earlier) :=
  (tidy_clock causality earlier).bind fun _ _ => tidy_pure _

theorem tidy_assign (latest : Latest) (key step : Nat) : Tidy (latest.assign key step) :=
  (tidy_room _ _).bind fun _ _ => tidy_pure _

theorem tidy_follow (causality : Causality) (actor step : Nat) :
    Tidy (causality.follow actor step) := by
  unfold follow
  dsimp only
  split
  · rintro _ ⟨⟩
    rfl
  · split
    · exact (tidy_clock _ _).bind fun _ _ => tidy_pure _
    · exact (tidy_clock _ _).bind fun _ _ => tidy_pure _

theorem tidy_touch (causality : Causality) (steps step : Nat) (frame : Frame)
    (entry : Frame.Entry) : Tidy (causality.touch steps step frame entry) := by
  have joins : Tidy (causality.joinOthers entry.id.index step) := by
    apply tidy_foldlM
    intro state other
    dsimp only
    split
    · exact tidy_joinStep _ _ _
    · exact tidy_pure _
  unfold touch
  split
  · exact (tidy_assign _ _ _).bind fun _ _ => tidy_pure _
  · exact (tidy_assign _ _ _).bind fun _ _ => tidy_pure _
  · exact (tidy_assign _ _ _).bind fun _ _ => tidy_pure _
  · exact (tidy_assign _ _ _).bind fun _ _ => tidy_pure _
  · exact (tidy_assign _ _ _).bind fun _ _ => tidy_pure _
  · exact tidy_ok _
  · exact joins.bind fun _ _ => tidy_pure _
  · rintro _ ⟨⟩
    rfl
  · exact tidy_ok _

theorem tidy_happensBefore (taken : schedule.Taken partner) (causality : Causality) (step : Nat) :
    Tidy (causality.happensBefore schedule partner step) :=
  (schedule.tidy_frame partner).bind fun _ found =>
    (taken.tidy found).bind fun _ _ => (tidy_clock causality step).bind fun _ _ => tidy_pure _

theorem tidy_isRace (taken : schedule.Taken partner) (also : schedule.Taken step)
    (causality : Causality) : Tidy (causality.isRace schedule partner step) := by
  refine (tidy_happensBefore taken causality step).bind fun ordered _ => ?_
  split
  · exact tidy_pure _
  · refine (schedule.tidy_frame partner).bind fun _ found => (taken.tidy found).bind fun _ _ => ?_
    split
    · exact tidy_pure _
    · exact (schedule.tidy_frame step).bind fun _ found => (also.tidy found).bind fun _ _ =>
        tidy_pure _

theorem kind_of_isRace
    {frame : Frame} {entry : Frame.Entry} {index : Nat}
    (race : causality.isRace schedule partner step = .ok true)
    (found : schedule.frame step = .ok frame)
    (selection : frame.selection? = .ok (some (entry, index))) : entry.kind = .send := by
  obtain ⟨ordered, -, race⟩ := bind_eq_ok_iff.mp race
  split at race
  · cases race
  · obtain ⟨_, -, race⟩ := bind_eq_ok_iff.mp race
    obtain ⟨_, -, race⟩ := bind_eq_ok_iff.mp race
    split at race
    · cases race
    · obtain ⟨_, again, race⟩ := bind_eq_ok_iff.mp race
      obtain ⟨chosen, selected, race⟩ := bind_eq_ok_iff.mp race
      cases found.symm.trans again
      cases (Frame.selected_of_selection? selection).symm.trans selected
      have same : decide (entry.kind = .send) = true := Except.ok.inj race
      exact of_decide_eq_true same

end Causality

namespace Analysis

open Attempt

variable {schedule : Schedule} {recording : Bool} {step : Nat} {before after : Analysis × Log}

def RacesBefore (schedule : Schedule) (step : Nat) (races : Array Race) : Prop :=
  ∀ race ∈ races, 0 < race.first ∧ race.first < race.second ∧ race.second < step ∧
    schedule.Taken race.second

theorem RacesBefore.succ {races : Array Race} (racesBefore : RacesBefore schedule step races) :
    RacesBefore schedule (step + 1) races := by
  intro race member
  obtain ⟨positive, ordered, past, taken⟩ := racesBefore race member
  exact ⟨positive, ordered, Nat.lt_succ_of_lt past, taken⟩

theorem taken_of_selection?
    {frame : Frame} {entry : Frame.Entry} {index : Nat} (found : schedule.frame step = .ok frame)
    (selection : frame.selection? = .ok (some (entry, index))) : schedule.Taken step := by
  intro other again
  cases found.symm.trans again
  exact ⟨entry, Frame.selected_of_selection? selection⟩

theorem partners_visit
    (recorded : before.1.schedule.unmark = schedule.unmark) (positive : 0 < step)
    (behind : before.1.causality.Behind step)
    (races : RacesBefore schedule step before.1.causality.races)
    (returned : (visit recording step).Returns before () after) :
    after.1.causality.Behind (step + 1) ∧
      RacesBefore schedule (step + 1) after.1.causality.races := by
  obtain ⟨frame, found, ⟨-, rfl⟩ |
    ⟨entry, index, followed, partner, touched, selection, follows, touches, rest⟩⟩ :=
    visit_cases returned
  · exact ⟨behind.succ, races.succ⟩
  · have same := Causality.sameTables_follow follows
    obtain ⟨isPartner, reached, kept⟩ := (same.behind behind).touch positive touches
    rw [same.races] at kept
    rcases rest with ⟨-, rfl⟩ | ⟨somebody, isRace, log, between, joined, decided, answers, joins, rfl⟩
    · refine ⟨reached, ?_⟩
      rw [setCausality, kept]
      exact races.succ
    · have tables := Causality.sameTables_joinStep joins
      obtain ⟨causality, -⟩ := answers.kept
      have still : between.1.causality.Behind (step + 1) := by
        rw [causality]
        exact reached
      refine ⟨tables.behind still, ?_⟩
      rw [setCausality, tables.races]
      cases isRace with
      | false =>
          obtain rfl : _ = between := answers
          rw [setCausality, kept]
          exact races.succ
      | true =>
          cases recording with
          | false =>
              obtain ⟨unchanged, -⟩ := addBacktrack_returns answers
              rw [unchanged, setCausality, kept]
              exact races.succ
          | true =>
              obtain rfl : _ = between := returns_modify_iff.mp answers
              intro race member
              rcases Array.mem_push.mp member with old | rfl
              · exact races.succ race (kept ▸ old)
              · refine ⟨Nat.pos_of_ne_zero somebody, ?_, Nat.lt_succ_self step,
                  (taken_of_selection? found selection).of_unmark_eq recorded.symm⟩
                -- The step of a receive, whose send need not be earlier, is not in a race.
                rcases isPartner with earlier | ⟨receives, -⟩
                · exact earlier
                · rw [Causality.kind_of_isRace decided found selection] at receives
                  cases receives

/-- What holds of the tables and of the races during an analysis. -/
theorem partners_run (returned : (run recording).Returns before () after) :
    RacesBefore before.1.schedule (before.1.schedule.position + 1) after.1.causality.races := by
  have all : after.1.schedule.unmark = before.1.schedule.unmark ∧
      after.1.causality.Behind (before.1.schedule.position + 1) ∧
      RacesBefore before.1.schedule (before.1.schedule.position + 1) after.1.causality.races := by
    apply returns_run (motive := fun step between =>
      between.1.schedule.unmark = before.1.schedule.unmark ∧
        between.1.causality.Behind step ∧
        RacesBefore before.1.schedule step between.1.causality.races) returned
    · intro actors _
      exact ⟨rfl, Causality.behind_start actors _, nofun⟩
    · rintro step between next positive within ⟨recorded, behind, races⟩ visited
      exact ⟨by rw [visit_unmark visited, recorded],
        partners_visit recorded positive behind races visited⟩
  exact all.2.2

theorem tidy_independentFirsts
    {causality : Causality} {steps awaited : List Nat} {seen : Clock}
    (taken : ∀ step ∈ steps, schedule.Taken step) :
    Checked.Tidy (independentFirsts causality schedule steps awaited seen) := by
  induction steps generalizing awaited seen with
  | nil => exact Checked.tidy_ok _
  | cons step rest induction =>
      have later : ∀ step ∈ rest, schedule.Taken step :=
        fun step member => taken step (List.mem_cons_of_mem _ member)
      rw [independentFirsts]
      split
      · exact Checked.tidy_pure _
      · refine (schedule.tidy_frame step).bind fun frame found =>
          ((taken step List.mem_cons_self).tidy found).bind fun entry _ => ?_
        dsimp only
        split
        · exact induction later
        · exact (Causality.tidy_clock _ _).bind fun _ _ =>
            (induction later).bind fun _ _ => Checked.tidy_pure _

theorem tidy_candidates
    {causality : Causality} {race : Race} {second : Frame.Entry}
    (taken : ∀ step, step < race.second → schedule.Taken step)
    (ordered : race.first < race.second) :
    Checked.Tidy (candidates causality schedule race second) := by
  refine (schedule.tidy_frame race.first).bind fun frame found =>
    ((taken race.first ordered).tidy found).bind fun entry _ => ?_
  refine Checked.Tidy.bind (tidy_independentFirsts ?_) fun _ _ => Checked.tidy_pure _
  intro step member
  have inside := List.mem_range'_1.mp member
  exact taken step (by omega)

theorem tidy_addBacktrack
    {race : Race} {second : Frame.Entry}
    (taken : ∀ step, step < race.second → before.1.schedule.Taken step)
    (ordered : race.first < race.second) : (addBacktrack race second).Tidy before := by
  refine .get_bind (.lift_bind (tidy_candidates taken ordered) fun found _ => ?_)
  split
  · refine .bind ?_ fun _ _ impossible => (returns_throw_iff.mp impossible).elim
    rintro _ ⟨⟩
    rfl
  · refine .lift_bind (Schedule.tidy_frame _ _) fun frame _ => ?_
    split
    · exact tidy_pure _
    · split
      · exact .log_bind (tidy_modify _)
      · rintro _ ⟨⟩
        rfl

theorem tidy_visit
    (selects : schedule.Selects) (recorded : before.1.schedule.unmark = schedule.unmark)
    (positive : 0 < step) (within : step ≤ schedule.position)
    (behind : before.1.causality.Behind step) : (visit recording step).Tidy before := by
  have here := selects.of_unmark_eq recorded
  rw [← Schedule.position_eq_of_unmark_eq recorded] at within
  refine .get_bind (.lift_bind (Schedule.tidy_frame _ _) fun frame found => ?_)
  have few : frame.selections.length ≤ 1 := by
    rcases Nat.lt_or_eq_of_le within with inner | rfl
    · exact Nat.le_of_eq (here.single step frame inner found)
    · exact here.last frame found
  refine .lift_bind (Frame.tidy_selection? few) fun selection selected => ?_
  cases selection with
  | none => exact tidy_pure _
  | some selection =>
      obtain ⟨entry, index⟩ := selection
      refine .get_bind (.lift_bind (Causality.tidy_follow _ _ _) fun followed follows => ?_)
      refine .lift_bind (Causality.tidy_touch _ _ _ _ _) fun ⟨partner, touched⟩ touches => ?_
      refine .modify_bind ?_
      dsimp only
      split
      · exact tidy_pure _
      · have same := Causality.sameTables_follow follows
        obtain ⟨isPartner, -, -⟩ := (same.behind behind).touch positive touches
        have earlier : partner < step := by
          rcases isPartner with earlier | ⟨receives, sent⟩
          · exact earlier
          · exact here.sent step frame entry partner found (Frame.selected_of_selection? selected)
              receives sent
        have taken : ∀ other, other < step → before.1.schedule.Taken other :=
          fun other lower => here.taken (Nat.lt_of_lt_of_le lower within)
        refine .lift_bind (Causality.tidy_isRace (taken partner earlier)
          (taken_of_selection? found selected) touched) fun isRace _ => ?_
        split
        · refine .lift_bind (Causality.tidy_clock _ _) fun clock _ => .log_bind ?_
          split
          · exact .modify_bind (.get_bind
              (.lift_bind (Causality.tidy_joinStep _ _ _) fun _ _ => tidy_modify _))
          · refine .bind (tidy_addBacktrack taken earlier) fun _ _ _ => .get_bind
              (.lift_bind (Causality.tidy_joinStep _ _ _) fun _ _ => tidy_modify _)
        · exact .get_bind (.lift_bind (Causality.tidy_joinStep _ _ _) fun _ _ => tidy_modify _)

theorem tidy_actorCount (schedule : Schedule) : Checked.Tidy (actorCount schedule) :=
  Checked.tidy_foldlM (fun _ _ => (schedule.tidy_frame _).bind fun _ _ => Checked.tidy_pure _) _

theorem tidy_run (selects : before.1.schedule.Selects) : (run recording).Tidy before := by
  refine .get_bind (.lift_bind (tidy_actorCount _) fun actors _ => .modify_bind ?_)
  refine .bind (tidy_loop (motive := fun step between =>
    between.1.schedule.unmark = before.1.schedule.unmark ∧
      between.1.causality.Behind step ∧
      RacesBefore before.1.schedule step between.1.causality.races) ?_ ?_)
    fun _ _ _ => tidy_pure _
  · exact ⟨rfl, Causality.behind_start actors _, nofun⟩
  · rintro step between positive within ⟨recorded, behind, races⟩
    refine ⟨tidy_visit selects recorded positive (by omega) behind, fun next visited => ?_⟩
    exact ⟨by rw [visit_unmark visited, recorded],
      partners_visit recorded positive behind races visited⟩

end Analysis

end Interleave
