import Interleave.Proofs.Run.Fifo
import Interleave.Proofs.Run.Launches
import Interleave.Proofs.Run.Lives

namespace Interleave

def Frame.Takes (frame : Frame) (entry : Frame.Entry) : Prop :=
  ∃ index, frame.selections = [(entry, index)]

inductive Frame.Grows (frame : Frame) (entry : Frame.Entry) (next : Frame) : Prop
  | create {newcomer : Frame.Entry} (creates : entry.operation = .create)
      (size : next.size = frame.size + 1) (there : next.get? frame.size = some newcomer)
      (numbered : newcomer.id = ⟨frame.size⟩) (enabled : newcomer.enabled = true)
      (starts : newcomer.operation = .start ⟨frame.size⟩) : Frame.Grows frame entry next
  | same (differs : entry.operation ≠ .create) (size : next.size = frame.size) :
      Frame.Grows frame entry next

theorem Turn.Grows.frame
    {turn following : Turn} {frame next : Frame} {entry : Frame.Entry}
    (grows : turn.Grows entry.snapshot following) (shown : frame.actors = turn.actors)
    (also : next.actors = following.actors) : frame.Grows entry next := by
  have size : turn.actors.length = frame.size := by rw [← shown, Frame.length_actors]
  have length : following.actors.length = next.size := by rw [← also, Frame.length_actors]
  cases grows with
  | same differs same => exact .same differs (by rw [← length, same, size])
  | create creates more there numbered enabled starts =>
      rw [size] at there numbered starts
      rw [← also, Frame.getElem?_actors, Option.map_eq_some_iff] at there
      obtain ⟨newcomer, there, rfl⟩ := there
      exact .create creates (by rw [← length, more, size]) there numbered enabled starts

namespace Run

open Machine Policy.Search TransitionSystem

variable {σ μ : Type} {program : Program σ μ} {handles : Handles σ μ} {body : σ}
  {settings : Settings} {rounds : List Round} {policy : Policy.Search}
  {run : Run Policy.Search σ μ} {frame next : Frame} {entry : Frame.Entry} {index : Nat}
  {snapshot : Snapshot}

def Visits (run : Run Policy.Search σ μ) (index : Nat) (frame : Frame) : Prop :=
  index < run.policy.schedule.position ∧ run.policy.schedule.frames[index]? = some frame

/-- The frames that an execution has come to are those of its scheduling points, and what they have
selected is the trace. Steps are counted from one, and frames from zero. -/
structure WellStacked (run : Run Policy.Search σ μ) : Prop where
  /-- At the end of the execution there are no other frames. -/
  whole : run.machine.control = .finished →
    run.policy.schedule.position = run.policy.schedule.length
  shown : ∀ index frame, run.Visits index frame →
    ∃ turn, run.turns[index]? = some turn ∧ frame.actors = turn.actors
  traced : ∀ (index : Nat) (actor : ActorId), run.machine.trace[index]? = some actor →
    ∃ frame entry, run.Visits index frame ∧ frame.selections = [(entry, actor.index)] ∧
      entry.id = actor
  untraced : ∀ index frame, run.Visits index frame → run.machine.trace[index]? = none →
    frame.selections = []
  numbered : ∀ index frame, run.Visits index frame → ∀ position entry,
    frame.get? position = some entry → entry.id = ⟨position⟩
  grows : ∀ index frame next entry, run.Visits index frame → run.Visits (index + 1) next →
    frame.Takes entry → frame.Grows entry next
  starts : ∀ index frame entry, run.Visits index frame → frame.Takes entry → entry.id ≠ .root →
    (∀ early lower other, early < index → run.Visits early lower → lower.Takes other →
      other.id ≠ entry.id) → entry.operation = .start entry.id
  receives : ∀ index frame entry, run.Visits index frame → frame.Takes entry →
    entry.kind = .receive → ∃ owner early lower sender, entry.operation = .receive owner ∧
      entry.snapshot.sendStep = some (early + 1) ∧ early < index ∧ run.Visits early lower ∧
      lower.Takes sender ∧ sender.operation = .send owner
  stops : ∀ index frame entry late upper other, run.Visits index frame → frame.Takes entry →
    entry.kind = .stop → index < late → run.Visits late upper → upper.Takes other →
      other.id ≠ entry.id

/-- What the stack holds of the turns: all of them, or all but the last, at which nobody was run. -/
inductive Stacked (run : Run Policy.Search σ μ) : Prop
  | settled {above below : List Frame} {turns rest : List Turn}
      (schedule : run.policy.schedule = .ofStack (above ++ below) below.length)
      (recorded : Policy.Search.Recorded below turns) (asked : run.turns.toList = turns ++ rest)
      (idle : ∀ turn ∈ rest, turn.decision.actor? = none)
      (traced : run.machine.trace.toList = ran turns)
      (whole : run.machine.control = .finished → above = []) : Stacked run
  | idle {frame : Frame} {below : List Frame} {turns : List Turn} {last : Turn}
      (schedule : run.policy.schedule = .ofStack (frame :: below) (below.length + 1))
      (recorded : Policy.Search.Recorded below turns) (asked : run.turns.toList = turns ++ [last])
      (shown : frame.actors = last.actors) (unselected : frame.selections = [])
      (numbered : Numbered last.actors) (idle : last.decision.actor? = none)
      (traced : run.machine.trace.toList = ran turns) : Stacked run

theorem Tracks.stacked (tracks : Tracks program body settings rounds policy run) :
    run.Stacked := by
  cases tracks with
  | going past pauses traced =>
      obtain ⟨kept, stack, stays, along⟩ := past.exists_along
      obtain ⟨above, below, rfl, length, recorded⟩ := along.stands.exists_recorded
      refine .settled (length ▸ along.stacked) recorded (List.append_nil _).symm nofun traced ?_
      intro finished
      rw [pause?_of_finished finished] at pauses
      have beyond := past.beyond (numbered_system program body) (by rw [← pauses]; rfl)
      rw [stays.stacked, Schedule.length_ofStack] at beyond
      have total := along.length
      rw [List.length_append] at total
      exact List.eq_nil_of_length_eq_zero (by omega)
  | @stopped turns between id decision log written past chosen idle asked traced ended =>
      obtain ⟨kept, stack, stays, along⟩ := past.exists_along
      have chooses := along.chooses (numbered_system program body _) chosen
      generalize decides : run.policy = after at chooses
      cases chooses with
      | @limited limit limited reached =>
          obtain ⟨above, below, rfl, length, recorded⟩ := along.stands.exists_recorded
          have stacked := along.stacked
          rw [← length, ← decides] at stacked
          refine .settled stacked recorded asked ?_ traced ?_
          · intro turn member
            rw [List.mem_singleton.mp member]
            exact idle
          · -- What is to be repeated is shorter than the limit.
            intro _
            have short := stays.bounded limit
              ((stays.kin.trans along.kin).stepLimit.symm.trans limited)
            have total := along.length
            rw [List.length_append] at total
            exact List.eq_nil_of_length_eq_zero (by omega)
      | run => cases idle
      | @idle _ frame _ _ stacked ended recorded opened _ _ =>
          rw [← decides] at stacked
          exact .idle stacked recorded asked opened.actors opened.unselected
            (numbered_system program body _) idle traced

section Stacked

variable {above below : List Frame} {turns rest : List Turn} {turn : Turn} {position : Nat}

theorem exists_split (inside : index < below.length) :
    ∃ upper frame lower, below = upper ++ frame :: lower ∧ lower.length = index := by
  refine ⟨below.take (below.length - 1 - index), below[below.length - 1 - index],
    below.drop (below.length - 1 - index + 1), ?_, ?_⟩
  · rw [← List.drop_eq_getElem_cons, List.take_append_drop]
  · rw [List.length_drop]
    omega

theorem legal_of_settles (settles : Settles frame turn entry position) : turn.Legal := by
  intro actor runs
  rw [settles.decision] at runs
  cases runs
  exact ⟨entry.snapshot, settles.listed, rfl, settles.enabled⟩

theorem legal_of_recorded (recorded : Policy.Search.Recorded below turns) :
    ∀ turn ∈ turns, turn.Legal := by
  induction recorded with
  | nil => nofun
  | cons _ settles induction =>
      intro turn member
      rcases List.mem_append.mp member with member | member
      · exact induction turn member
      · rw [List.mem_singleton.mp member]
        exact legal_of_settles settles

theorem legal_of_idle (idle : turn.decision.actor? = none) : turn.Legal := by
  intro actor runs
  rw [idle] at runs
  cases runs

/-- A step of the trace, with its turn and its frame. -/
structure Traces (run : Run Policy.Search σ μ) (index : Nat) (frame : Frame) (turn : Turn)
    (entry : Frame.Entry) : Prop where
  visits : run.Visits index frame
  asked : run.turns[index]? = some turn
  settles : Settles frame turn entry entry.id.index
  traced : run.machine.trace[index]? = some entry.id

theorem exists_traces_of_recorded
    (schedule : run.policy.schedule = .ofStack (above ++ below) position)
    (recorded : Policy.Search.Recorded below turns) (asked : run.turns.toList = turns ++ rest)
    (traced : run.machine.trace.toList = ran turns) (long : below.length ≤ position)
    (inside : index < run.machine.trace.size) :
    ∃ frame turn entry, run.Traces index frame turn entry := by
  rw [← Array.length_toList, traced, recorded.follows.length_eq] at inside
  obtain ⟨upper, frame, lower, rfl, rfl⟩ := exists_split inside
  obtain ⟨turn, entry, place, there, settles⟩ := recorded.exists_settles
  obtain rfl : place = entry.id.index := by rw [settles.id_eq]
  refine ⟨frame, turn, entry, ⟨?_, ?_⟩, ?_, settles, ?_⟩
  · rw [schedule]
    exact Nat.lt_of_lt_of_le inside long
  · rw [schedule, ← List.append_assoc, Schedule.getElem?_ofStack]
  · rw [← Array.getElem?_toList, asked,
      List.getElem?_append_left (List.getElem?_eq_some_iff.mp there).1, there]
  · obtain ⟨first, ⟨later, before⟩, follows⟩ := recorded.follows.of_append
    cases follows with
    | cons follows single =>
        cases single.symm.trans settles.single
        rw [← Array.getElem?_toList, traced, ← before, ← follows.length_eq]
        simp

namespace Stacked

variable (stacked : run.Stacked)

include stacked

theorem legal : ∀ turn ∈ run.turns, turn.Legal := by
  intro turn member
  rw [← Array.mem_toList_iff] at member
  cases stacked with
  | settled _ recorded asked idle =>
      rw [asked] at member
      rcases List.mem_append.mp member with member | member
      · exact legal_of_recorded recorded turn member
      · exact legal_of_idle (idle turn member)
  | idle _ recorded asked _ _ _ idle =>
      rw [asked] at member
      rcases List.mem_append.mp member with member | member
      · exact legal_of_recorded recorded turn member
      · rw [List.mem_singleton.mp member]
        exact legal_of_idle idle

theorem exists_traces (inside : index < run.machine.trace.size) :
    ∃ frame turn entry, run.Traces index frame turn entry := by
  cases stacked with
  | settled schedule recorded asked _ traced =>
      exact exists_traces_of_recorded schedule recorded asked traced (Nat.le_refl _) inside
  | @idle top _ _ _ schedule recorded asked _ _ _ _ traced =>
      have schedule : run.policy.schedule = .ofStack ([top] ++ _) _ := schedule
      exact exists_traces_of_recorded schedule recorded asked traced (Nat.le_succ _) inside

theorem idle_of_untraced (visits : run.Visits index frame) (beyond : run.machine.trace.size ≤ index) :
    frame.selections = [] ∧ ∃ turn, run.turns[index]? = some turn ∧ frame.actors = turn.actors ∧
      Numbered turn.actors := by
  obtain ⟨inside, found⟩ := visits
  cases stacked with
  | settled schedule recorded asked _ traced =>
      rw [← Array.length_toList, traced, recorded.follows.length_eq] at beyond
      rw [schedule] at inside
      exact absurd inside (Nat.not_lt_of_le beyond)
  | @idle top below turns last schedule recorded asked shown unselected numbered idle traced =>
      rw [← Array.length_toList, traced, recorded.follows.length_eq] at beyond
      rw [schedule] at inside found
      obtain rfl : index = below.length := Nat.le_antisymm (Nat.le_of_lt_succ inside) beyond
      have here : (Schedule.ofStack (top :: below) (below.length + 1)).frames[below.length]? =
          some top := Schedule.getElem?_ofStack []
      cases here.symm.trans found
      refine ⟨unselected, last, ?_, shown, numbered⟩
      rw [← Array.getElem?_toList, asked, ← recorded.length_eq]
      simp

theorem lt_of_selects (selects : run.Selects (index + 1) snapshot) :
    index < run.machine.trace.size := by
  obtain ⟨turn, asked, chosen, -⟩ := selects.exists_turn
  have runs : turn.decision.actor? ≠ none := by
    rw [chosen]
    nofun
  rw [Nat.add_sub_cancel, ← Array.getElem?_toList] at asked
  refine Nat.lt_of_not_le fun beyond => ?_
  cases stacked with
  | settled _ recorded all idle traced =>
      rw [← Array.length_toList, traced, recorded.follows.length_eq, ← recorded.length_eq] at beyond
      rw [all, List.getElem?_append_right beyond] at asked
      exact runs (idle turn (List.mem_of_getElem? asked))
  | idle _ recorded all _ _ _ idle traced =>
      rw [← Array.length_toList, traced, recorded.follows.length_eq, ← recorded.length_eq] at beyond
      rw [all, List.getElem?_append_right beyond] at asked
      rw [List.mem_singleton.mp (List.mem_of_getElem? asked)] at runs
      exact runs idle

theorem exists_turn (visits : run.Visits index frame) :
    ∃ turn, run.turns[index]? = some turn ∧ frame.actors = turn.actors ∧ Numbered turn.actors := by
  rcases Nat.lt_or_ge index run.machine.trace.size with inside | beyond
  · obtain ⟨known, turn, entry, traces⟩ := stacked.exists_traces inside
    cases visits.2.symm.trans traces.visits.2
    exact ⟨turn, traces.asked, traces.settles.actors, traces.settles.numbered⟩
  · exact (stacked.idle_of_untraced visits beyond).2

theorem selects_of_takes (visits : run.Visits index frame) (takes : frame.Takes entry) :
    run.Selects (index + 1) entry.snapshot := by
  obtain ⟨place, single⟩ := takes
  rcases Nat.lt_or_ge index run.machine.trace.size with inside | beyond
  · obtain ⟨known, turn, taken, traces⟩ := stacked.exists_traces inside
    cases visits.2.symm.trans traces.visits.2
    cases single.symm.trans traces.settles.single
    exact .turn traces.asked traces.settles.decision traces.settles.listed
  · rw [(stacked.idle_of_untraced visits beyond).1] at single
    cases single

theorem exists_takes (selects : run.Selects (index + 1) snapshot) :
    ∃ frame entry, run.Visits index frame ∧ frame.Takes entry ∧ entry.snapshot = snapshot := by
  obtain ⟨frame, turn, entry, traces⟩ := stacked.exists_traces (stacked.lt_of_selects selects)
  refine ⟨frame, entry, traces.visits, ⟨_, traces.settles.single⟩, ?_⟩
  obtain ⟨known, asked, chosen, listed⟩ := selects.exists_turn
  cases traces.asked.symm.trans asked
  rw [traces.settles.decision, Decision.run.injEq] at chosen
  exact traces.settles.numbered.eq_of_id_eq traces.settles.listed listed chosen

end Stacked

end Stacked

/-- What the turns tell about the actors, the frames tell too. -/
theorem Stacked.wellStacked
    {services : List (Service σ μ)} (stacked : run.Stacked) (annals : run.Annals)
    (matched : run.Matched services) : run.WellStacked where
  whole := by
    intro finished
    cases stacked with
    | settled schedule _ _ _ _ whole =>
        rw [schedule, whole finished]
        simp
    | idle schedule =>
        rw [schedule]
        simp
  shown := by
    intro index frame visits
    obtain ⟨turn, asked, shown, -⟩ := stacked.exists_turn visits
    exact ⟨turn, asked, shown⟩
  traced := by
    intro index actor there
    obtain ⟨frame, turn, entry, traces⟩ :=
      stacked.exists_traces (Array.getElem?_eq_some_iff.mp there).1
    cases there.symm.trans traces.traced
    exact ⟨frame, entry, traces.visits, traces.settles.single, rfl⟩
  untraced := by
    intro index frame visits beyond
    exact (stacked.idle_of_untraced visits (Array.getElem?_eq_none_iff.mp beyond)).1
  numbered := by
    intro index frame visits position entry found
    obtain ⟨turn, -, shown, numbered⟩ := stacked.exists_turn visits
    rw [← shown] at numbered
    exact Frame.id_of_numbered numbered found
  grows := by
    intro index frame next entry visits onward takes
    obtain ⟨turn, asked, shown, -⟩ := stacked.exists_turn visits
    obtain ⟨following, then_, also, -⟩ := stacked.exists_turn onward
    have selects := stacked.selects_of_takes visits takes
    exact (annals.grows index turn following entry.snapshot asked then_ selects).frame shown also
  starts := by
    intro index frame entry visits takes mortal first
    have selects := stacked.selects_of_takes visits takes
    refine annals.starts (index + 1) entry.snapshot selects mortal ?_
    intro early other before earlier
    cases early with
    | zero => cases earlier
    | succ early =>
        obtain ⟨lower, taken, visited, takes, rfl⟩ := stacked.exists_takes earlier
        exact first early lower taken (Nat.lt_of_succ_lt_succ before) visited takes
  receives := by
    intro index frame entry visits takes receives
    obtain ⟨address, envelope, same, sent, earlier, -⟩ :=
      matched.answered _ _ (stacked.selects_of_takes visits takes) receives
    obtain ⟨posted, selects, sends⟩ := (matched.fifo address).posted envelope sent
    refine ⟨address.owner, ?_⟩
    rw [Frame.Entry.operation, same]
    generalize envelope.sendStep = step at *
    cases step with
    | zero => cases selects
    | succ early =>
        obtain ⟨lower, sender, visited, takes, rfl⟩ := stacked.exists_takes selects
        have before := Nat.lt_of_succ_lt_succ earlier
        exact ⟨early, lower, sender, rfl, rfl, before, visited, takes, sends⟩
  stops := by
    intro index frame entry late upper other visits takes stops after onward also
    exact annals.stops (index + 1) entry.snapshot (late + 1) other.snapshot
      (stacked.selects_of_takes visits takes) stops (Nat.succ_lt_succ after)
      (stacked.selects_of_takes onward also)

/-- In an exploration, in any configuration and after any number of executions, every execution
records a well-formed stack. -/
theorem wellStacked_of_explored
    {launcher : Launcher Policy.Search μ} {allowance : Launcher.Allowance} (steady : program.Steady)
    (discreet : program.Discreet handles)
    (explored : launcher.Explored program allowance (.ofSettings settings))
    (reached : Reached program (start program launcher.executions launcher.policy) run)
    (roomy : run.Roomy) : run.WellStacked := by
  obtain ⟨rounds, past⟩ := explored.exists_past steady launcher.executions
  have stacked := (reached.tracks past roomy).stacked
  obtain ⟨services, recorded⟩ := reached.exists_recorded
  exact stacked.wellStacked (annals_of_reached discreet reached stacked.legal)
    (recorded.matched discreet stacked.legal)

/-- The first execution of a search, to its end. -/
theorem wellStacked_of_explored_errand :
    let first := start Errand.program 0 (.ofSettings {} : Policy.Search)
    let run := ((first.complete Errand.program 40).run (.empty .error)).1
    run.machine.control = .finished ∧
      run.machine.trace.toList = [⟨0⟩, ⟨0⟩, ⟨1⟩, ⟨1⟩, ⟨1⟩, ⟨0⟩, ⟨0⟩] ∧ run.WellStacked := by
  intro first run
  have explored : (Launcher.ofPolicy false (.ofSettings {}) : Launcher Policy.Search Nat).Explored
      Errand.program ⟨40, 1⟩ (.ofSettings {}) := .start rfl
  have reached : Reached Errand.program first run := reached_complete _ _ _ _
  have roomy : 2 * run.machine.actors.size ≤ wordSize := by decide +kernel
  refine ⟨?_, ?_, ?_⟩
  · exact isFinished_iff.mp (by decide +kernel)
  · decide +kernel
  · exact wellStacked_of_explored Errand.steady_program Errand.discreet_program explored reached
      roomy

end Run

end Interleave
