import Mathlib.Algebra.Group.Nat.Defs
import Mathlib.Logic.Relation
import Interleave.Proofs.Race.Marks

namespace Interleave

/-- The last number below `next` with a property, or zero if there is none. -/
def IsLatest (property : Nat → Prop) (next latest : Nat) : Prop :=
  latest < next ∧ (latest = 0 ∨ property latest) ∧
    ∀ other, latest < other → other < next → ¬ property other

namespace IsLatest

variable {property : Nat → Prop} {next latest : Nat}

theorem zero (property : Nat → Prop) : IsLatest property 1 0 :=
  ⟨Nat.one_pos, .inl rfl, by omega⟩

theorem holds (isLatest : IsLatest property next latest) (positive : 0 < latest) :
    property latest :=
  isLatest.2.1.resolve_left (by omega)

theorem le_of_holds
    (isLatest : IsLatest property next latest) {other : Nat}
    (below : other < next) (holds : property other) : other ≤ latest := by
  apply Nat.le_of_not_lt
  intro above
  exact isLatest.2.2 other above below holds

theorem succ_of_holds (holds : property next) : IsLatest property (next + 1) next :=
  ⟨Nat.lt_succ_self next, .inr holds, by omega⟩

theorem succ_of_not
    (isLatest : IsLatest property next latest) (fails : ¬ property next) :
    IsLatest property (next + 1) latest := by
  refine ⟨Nat.lt_succ_of_lt isLatest.1, isLatest.2.1, ?_⟩
  intro other above below
  rcases Nat.lt_succ_iff_lt_or_eq.mp below with below | rfl
  · exact isLatest.2.2 other above below
  · exact fails

theorem unique
    {other : Nat} (isLatest : IsLatest property next latest)
    (also : IsLatest property next other) : other = latest := by
  rcases Nat.lt_trichotomy latest other with above | same | below
  · exact absurd (also.holds (by omega)) (isLatest.2.2 other above also.1)
  · exact same.symm
  · exact absurd (isLatest.holds (by omega)) (also.2.2 latest below isLatest.1)

end IsLatest

namespace Schedule

/-- The actor that was selected at a step of the running execution, as it was recorded there. -/
def selected? (schedule : Schedule) (step : Nat) : Option Snapshot :=
  if step = 0 ∨ schedule.position < step then none
  else schedule.frames[step - 1]?.bind fun frame =>
    frame.selections.head?.map fun (entry, _) => entry.snapshot

def ActsAt (schedule : Schedule) (actor : ActorId) (step : Nat) : Prop :=
  ∃ snapshot, schedule.selected? step = some snapshot ∧ snapshot.id = actor

/-- Whose life the operation of a step belongs to. The child of a create is the first actor that is
missing at its frame; a create at the last step has no child yet. -/
def lifeTarget? (schedule : Schedule) (step : Nat) : Option Nat :=
  (schedule.selected? step).bind fun snapshot =>
    match snapshot.kind with
    | .start | .stop | .join => snapshot.operation.target.map ActorId.index
    | .create =>
        if step < schedule.position then schedule.frames[step - 1]?.map Frame.size else none
    | _ => none

/-- The owner of the queue to which a step sends. -/
def sendTarget? (schedule : Schedule) (step : Nat) : Option Nat :=
  (schedule.selected? step).bind fun snapshot =>
    match snapshot.kind with
    | .send => snapshot.operation.target.map ActorId.index
    | _ => none

/-- The step comes directly before a later one: as the previous step of its actor, of one life, or
with a send to the same queue, as the send of the message that is received, or as the latest step
of another actor before one that awaits a deadlock. -/
inductive Precedes (schedule : Schedule) : Nat → Nat → Prop
  | program {earlier later : Nat} {actor : ActorId}
      (acts : schedule.ActsAt actor later) (positive : 0 < earlier)
      (latest : IsLatest (schedule.ActsAt actor) later earlier) : Precedes schedule earlier later
  | life {earlier later target : Nat}
      (touches : schedule.lifeTarget? later = some target) (positive : 0 < earlier)
      (latest : IsLatest (fun step => schedule.lifeTarget? step = some target) later earlier) :
      Precedes schedule earlier later
  | send {earlier later target : Nat}
      (sends : schedule.sendTarget? later = some target) (positive : 0 < earlier)
      (latest : IsLatest (fun step => schedule.sendTarget? step = some target) later earlier) :
      Precedes schedule earlier later
  | receive {earlier later : Nat} {snapshot : Snapshot}
      (selected : schedule.selected? later = some snapshot) (receives : snapshot.kind = .receive)
      (positive : 0 < earlier) (sent : snapshot.sendStep = some earlier) :
      Precedes schedule earlier later
  | awaitDeadlock {earlier later : Nat} {snapshot : Snapshot} {other : ActorId}
      (selected : schedule.selected? later = some snapshot)
      (awaits : snapshot.kind = .awaitDeadlock) (differs : other ≠ snapshot.id)
      (positive : 0 < earlier) (latest : IsLatest (schedule.ActsAt other) later earlier) :
      Precedes schedule earlier later

/-- Reflexively and transitively. -/
def Reaches (schedule : Schedule) : Nat → Nat → Prop :=
  Relation.ReflTransGen schedule.Precedes

/-- What holds of the schedule of every execution: each step but perhaps the last has one selection,
and a message is sent before it is received. -/
structure WellFormed (schedule : Schedule) : Prop where
  position_le : schedule.position ≤ schedule.length
  selects : ∀ step frame, step < schedule.position → schedule.frame step = .ok frame →
    frame.selections.length = 1
  selectsLast : ∀ frame, schedule.frame schedule.position = .ok frame →
    frame.selections.length ≤ 1
  valid : ∀ step snapshot, schedule.selected? step = some snapshot → snapshot.kind ≠ .invalid
  short : schedule.position < 2 ^ 32
  sent : ∀ step snapshot sendStep, schedule.selected? step = some snapshot →
    snapshot.kind = .receive → snapshot.sendStep = some sendStep → sendStep < step

variable {schedule : Schedule}

theorem selected?_eq_none
    {step : Nat} (outside : step = 0 ∨ schedule.position < step) :
    schedule.selected? step = none := by
  simp [selected?, outside]

theorem selected?_of_frame
    {step : Nat} {frame : Frame} (found : schedule.frame step = .ok frame)
    (within : step ≤ schedule.position) :
    schedule.selected? step = frame.selections.head?.map fun (entry, _) => entry.snapshot := by
  obtain ⟨positive, found⟩ := frame_eq_ok_iff.mp found
  simp [selected?, found, Nat.ne_of_gt positive, Nat.not_lt.mpr within]

theorem selected?_eq_some_of_selection?
    {step index : Nat} {frame : Frame} {entry : Frame.Entry}
    (found : schedule.frame step = .ok frame) (within : step ≤ schedule.position)
    (selection : frame.selection? = .ok (some (entry, index))) :
    schedule.selected? step = some entry.snapshot := by
  rw [selected?_of_frame found within, Frame.selection?_eq_some_iff.mp selection]
  rfl

theorem selected?_eq_none_of_selection?
    {step : Nat} {frame : Frame}
    (found : schedule.frame step = .ok frame) (within : step ≤ schedule.position)
    (selection : frame.selection? = .ok none) :
    schedule.selected? step = none := by
  rw [selected?_of_frame found within, Frame.selection?_eq_none_iff.mp selection]
  rfl

theorem selected?_eq_of_unmark_eq
    {left right : Schedule} (same : left.unmark = right.unmark) (step : Nat) :
    left.selected? step = right.selected? step := by
  have forgotten (schedule : Schedule) :
      schedule.selected? step = schedule.unmark.selected? step := by
    simp only [selected?, position_unmark, getElem?_unmark]
    cases schedule.frames[step - 1]? with
    | none => rfl
    | some frame =>
        simp only [Option.map_some, Option.bind_some, Frame.selections_unmark,
          List.head?_map, Option.map_map]
        rfl
  rw [forgotten left, forgotten right, same]

section Recorded

variable {current : Schedule} {step : Nat} {frame : Frame}
  (recorded : current.unmark = schedule.unmark) (found : current.frame step = .ok frame)
  (within : step ≤ schedule.position)

include recorded found within

theorem selected?_eq_some_of_recorded
    {entry : Frame.Entry} {index : Nat} (selection : frame.selection? = .ok (some (entry, index))) :
    schedule.selected? step = some entry.snapshot := by
  rw [← selected?_eq_of_unmark_eq recorded]
  refine selected?_eq_some_of_selection? found ?_ selection
  rwa [position_eq_of_unmark_eq recorded]

theorem selected?_eq_none_of_recorded (selection : frame.selection? = .ok none) :
    schedule.selected? step = none := by
  rw [← selected?_eq_of_unmark_eq recorded]
  refine selected?_eq_none_of_selection? found ?_ selection
  rwa [position_eq_of_unmark_eq recorded]

end Recorded

theorem exists_selected
    {step : Nat} {snapshot : Snapshot}
    (selected : schedule.selected? step = some snapshot)
    (single : ∀ frame, schedule.frame step = .ok frame → frame.selections.length ≤ 1) :
    ∃ frame entry, schedule.frame step = .ok frame ∧ frame.selected = .ok entry ∧
      entry.snapshot = snapshot := by
  unfold selected? at selected
  split at selected
  · cases selected
  · rename_i inside
    obtain ⟨frame, there, selected⟩ := Option.bind_eq_some_iff.mp selected
    obtain ⟨⟨entry, index⟩, first, same⟩ := Option.map_eq_some_iff.mp selected
    have found : schedule.frame step = .ok frame := frame_eq_ok_iff.mpr ⟨by omega, there⟩
    obtain ⟨selection, read⟩ := Frame.exists_selection? (single frame found)
    refine ⟨frame, entry, found, ?_, same⟩
    cases selection with
    | none =>
        rw [Frame.selection?_eq_none_iff.mp read] at first
        cases first
    | some selection =>
        rw [Frame.selection?_eq_some_iff.mp read] at first
        cases first
        exact Frame.selected_of_selection? read

theorem kind_of_lifeTarget?
    {step target : Nat} {snapshot : Snapshot}
    (selected : schedule.selected? step = some snapshot)
    (touches : schedule.lifeTarget? step = some target) :
    schedule.sendTarget? step = none ∧ snapshot.kind ≠ .receive ∧
      snapshot.kind ≠ .awaitDeadlock := by
  simp only [lifeTarget?, selected, Option.bind_some] at touches
  simp only [sendTarget?, selected, Option.bind_some]
  cases kind : snapshot.kind <;> simp [kind] at touches ⊢

theorem kind_of_sendTarget?
    {step target : Nat} {snapshot : Snapshot}
    (selected : schedule.selected? step = some snapshot)
    (sends : schedule.sendTarget? step = some target) : snapshot.kind = .send := by
  simp only [sendTarget?, selected, Option.bind_some] at sends
  cases kind : snapshot.kind <;> simp [kind] at sends ⊢

theorem WellFormed.isSome_selected?
    (wellFormed : schedule.WellFormed) {step : Nat}
    (positive : 0 < step) (below : step < schedule.position) :
    (schedule.selected? step).isSome := by
  have inside : step - 1 < schedule.frames.size := by
    have le := wellFormed.position_le
    simp only [length] at le
    omega
  have found : schedule.frame step = .ok schedule.frames[step - 1] :=
    frame_eq_ok_iff.mpr ⟨positive, Array.getElem?_eq_getElem inside⟩
  have one := wellFormed.selects step _ below found
  rw [selected?_of_frame found (Nat.le_of_lt below)]
  cases selections : schedule.frames[step - 1].selections with
  | nil => simp [selections] at one
  | cons first rest => rfl

theorem isSome_of_lifeTarget?
    {step target : Nat} (touches : schedule.lifeTarget? step = some target) :
    (schedule.selected? step).isSome := by
  obtain ⟨snapshot, selected, -⟩ := Option.bind_eq_some_iff.mp touches
  rw [selected]
  rfl

theorem isSome_of_sendTarget?
    {step target : Nat} (sends : schedule.sendTarget? step = some target) :
    (schedule.selected? step).isSome := by
  obtain ⟨snapshot, selected, -⟩ := Option.bind_eq_some_iff.mp sends
  rw [selected]
  rfl

theorem WellFormed.single
    {recorded : Schedule} (wellFormed : schedule.WellFormed)
    (same : recorded.unmark = schedule.unmark) {step : Nat} (within : step ≤ schedule.position)
    (frame : Frame) (found : recorded.frame step = .ok frame) : frame.selections.length ≤ 1 := by
  obtain ⟨positive, here⟩ := frame_eq_ok_iff.mp found
  obtain ⟨other, there, equal⟩ := exists_frame_of_unmark_eq same here
  have otherFound : schedule.frame step = .ok other := frame_eq_ok_iff.mpr ⟨positive, there⟩
  have lengths := congrArg (fun frame : Frame => frame.selections.length) equal
  simp only [Frame.selections_unmark, List.length_map] at lengths
  rw [← lengths]
  rcases Nat.lt_or_eq_of_le within with below | rfl
  · exact Nat.le_of_eq (wellFormed.selects step other below otherFound)
  · exact wellFormed.selectsLast other otherFound

theorem WellFormed.exists_entry
    {recorded : Schedule} (wellFormed : schedule.WellFormed)
    (same : recorded.unmark = schedule.unmark) {step : Nat} {snapshot : Snapshot}
    (selected : schedule.selected? step = some snapshot) :
    ∃ frame entry, recorded.frame step = .ok frame ∧ frame.selected = .ok entry ∧
      entry.snapshot = snapshot := by
  have within : step ≤ schedule.position := by
    apply Nat.le_of_not_lt
    intro outside
    rw [selected?_eq_none (.inr outside)] at selected
    cases selected
  rw [← selected?_eq_of_unmark_eq same] at selected
  exact exists_selected selected (wellFormed.single same within)

theorem ActsAt.unique
    {first second : ActorId} {step : Nat}
    (one : schedule.ActsAt first step) (other : schedule.ActsAt second step) :
    first = second := by
  obtain ⟨snapshot, selected, rfl⟩ := one
  obtain ⟨_, again, rfl⟩ := other
  rw [Option.some.inj (selected.symm.trans again)]

theorem ActsAt.positive {actor : ActorId} {step : Nat} (acts : schedule.ActsAt actor step) :
    0 < step := by
  obtain ⟨snapshot, selected, -⟩ := acts
  apply Nat.pos_of_ne_zero
  rintro rfl
  rw [selected?_eq_none (.inl rfl)] at selected
  cases selected

theorem ActsAt.le_position {actor : ActorId} {step : Nat} (acts : schedule.ActsAt actor step) :
    step ≤ schedule.position := by
  obtain ⟨snapshot, selected, -⟩ := acts
  apply Nat.le_of_not_lt
  intro outside
  rw [selected?_eq_none (.inr outside)] at selected
  cases selected

theorem Precedes.lt
    (wellFormed : schedule.WellFormed) {earlier later : Nat}
    (precedes : schedule.Precedes earlier later) : earlier < later := by
  cases precedes with
  | program _ _ latest => exact latest.1
  | life _ _ latest => exact latest.1
  | send _ _ latest => exact latest.1
  | receive selected receives _ sent => exact wellFormed.sent _ _ _ selected receives sent
  | awaitDeadlock _ _ _ _ latest => exact latest.1

theorem Reaches.le
    (wellFormed : schedule.WellFormed) {earlier later : Nat}
    (reaches : schedule.Reaches earlier later) : earlier ≤ later := by
  induction reaches with
  | refl => exact Nat.le_refl _
  | tail _ precedes induction => exact Nat.le_of_lt (Nat.lt_of_le_of_lt induction
      (precedes.lt wellFormed))

theorem reaches_iff {earlier later : Nat} :
    schedule.Reaches earlier later ↔
      earlier = later ∨
        ∃ middle, schedule.Precedes middle later ∧ schedule.Reaches earlier middle := by
  constructor
  · intro reaches
    rcases Relation.ReflTransGen.cases_tail reaches with same | ⟨middle, before, last⟩
    · exact .inl same.symm
    · exact .inr ⟨middle, last, before⟩
  · rintro (rfl | ⟨middle, last, before⟩)
    · exact .refl
    · exact before.tail last

end Schedule

end Interleave
