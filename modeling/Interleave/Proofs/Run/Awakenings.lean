import Interleave.Proofs.Race.Awakenings
import Interleave.Proofs.Run.Choices
import Interleave.Proofs.Run.Fifo
import Interleave.Proofs.Run.Outcomes

namespace Interleave

variable {σ μ : Type}

namespace Machine

variable {machine after : Machine σ μ} {id other current next : ActorId} {actor : Actor σ μ}
  {stage : Stage σ μ}

structure Bides (machine : Machine σ μ) (id : ActorId) (stage : Stage σ μ) : Prop where
  there : ∃ record, machine.actors.get? id = some ⟨record, stage⟩
  elsewhere : machine.control.actor? ≠ some id

theorem Bides.of_spares
    (bides : machine.Bides id stage) (spares : Spares other machine after)
    (control : after.control.actor? = some other) (differs : other ≠ id) :
    after.Bides id stage := by
  obtain ⟨record, there⟩ := bides.there
  obtain ⟨⟨changed, same⟩, now, still, -⟩ := spares.kept id _ there
  cases still differs.symm
  refine ⟨⟨changed, now⟩, ?_⟩
  rw [control]
  exact fun here => differs (Option.some.inj here)

theorem bides_of_run
    {chosen : Record} (there : machine.actors.get? id = some actor)
    (lives : actor.stage.isOver = false) (differs : next ≠ id) :
    ((machine.advance next chosen).switch current next).Bides id actor.stage := by
  obtain ⟨actors, same⟩ := exists_run_eq machine current next chosen
  refine ⟨?_, by rw [same]; exact fun here => differs (Option.some.inj here)⟩
  obtain ⟨released, advanced, kept⟩ : ∃ released,
      (machine.advance next chosen).actors.get? id = some released ∧
        released.stage = actor.stage := by
    rw [get?_advance, there, Option.map_some]
    refine ⟨_, rfl, ?_⟩
    split <;> rfl
  by_cases self : next = current
  · rw [switch, if_pos self]
    exact ⟨released.record, kept ▸ advanced⟩
  · rw [get?_switch self, advanced, Option.map_some, Actor.switching, if_neg differs.symm]
    split
    · rcases retired_or { released with record := released.record.hold false } with
        still | ⟨gone, -⟩
      · rw [still]
        exact ⟨_, by rw [← kept]⟩
      · rw [show released.stage = _ from gone] at kept
        rw [← kept] at lives
        cases lives
    · exact ⟨released.record, by rw [← kept]⟩

end Machine

namespace Run

open Machine Service

variable {π : Type} {program : Program σ μ} {handles : Handles σ μ} {run middle next first : Run π σ μ}
  {number early late : Nat} {policy : π} {snapshot entry other : Snapshot} {turn : Turn}
  {stage : Stage σ μ} {id : ActorId} {address : Address} {services fresh : List (Service σ μ)}
  {envelope : Envelope μ} {log : Log}

theorem Fifo.mem_fresh
    (before : middle.Fifo services address) (after : run.Fifo (services ++ fresh) address)
    (empty : middle.machine.queue address = []) (queued : envelope ∈ run.machine.queue address) :
    envelope ∈ sent address fresh := by
  obtain ⟨first, split, pairs⟩ := before.balanced
  obtain ⟨taken, whole, more⟩ := after.balanced
  rw [empty, List.append_nil] at split
  rw [sent_append, split] at whole
  have length := pairs.length_eq
  have longer := more.length_eq
  rw [received_append, List.length_append] at longer
  rcases List.append_eq_append_iff.mp whole with ⟨rest, rfl, same⟩ | ⟨rest, rfl, same⟩
  · rw [same]
    exact List.mem_append_right _ queued
  · rw [List.length_append] at length
    obtain rfl : rest = [] := List.eq_nil_of_length_eq_zero (by omega)
    rw [List.nil_append] at same
    exact same ▸ queued

variable [Scheduler π]

theorem Recorded.trans
    (recorded : Recorded program first middle services)
    (rest : Recorded program middle run fresh) : Recorded program first run (services ++ fresh) := by
  induction rest with
  | here =>
      rw [List.append_nil]
      exact recorded
  | step _ log induction =>
      rw [← List.append_assoc]
      exact .step induction log

theorem Recorded.size_le
    (recorded : Recorded program middle run fresh) (sane : middle.machine.Sane) :
    ∀ service ∈ fresh, middle.turns.size ≤ service.step := by
  induction recorded with
  | here => nofun
  | @step run fresh recorded log induction =>
      intro service member
      rcases List.mem_append.mp member with old | new
      · exact induction service old
      · have steps := (recorded.reached.getElem?_turns sane).1
        unfold service? at new
        split at new
        · split at new
          · rw [Option.mem_toList] at new
            cases new
            exact steps
          · cases new
        · cases new

theorem Recorded.sendStep_le
    (recorded : Recorded program middle run fresh) (sane : middle.machine.Sane)
    (member : envelope ∈ sent address fresh) : middle.turns.size ≤ envelope.sendStep := by
  obtain ⟨service, listed, sends⟩ := List.mem_filterMap.mp member
  have size := recorded.size_le sane service listed
  unfold sent? at sends
  split at sends
  · split at sends
    · cases sends
      exact size
    · cases sends
  · cases sends

section Bides

variable (discreet : program.Discreet handles)

include discreet

theorem Steps.bides
    (steps : Steps program run log next) (bides : run.machine.Bides id stage)
    (sound : run.machine.Sound handles) (legal : ∀ turn ∈ next.turns, turn.Legal)
    (unselected : ∀ snapshot, next.Selects (run.turns.size + 1) snapshot → snapshot.id ≠ id)
    (still : next.machine.ended = false) : next.machine.Bides id stage := by
  have going := (steps.onward sound.sane).going still
  obtain ⟨consistent, guarded⟩ := sound.going going
  cases steps with
  | tick undecided =>
      have moves := moves_next consistent going (guarded.honest discreet) undecided
      obtain ⟨holder, here, stays, concerns⟩ := moves.concerns going still
      have differs : holder ≠ id := fun same => bides.elsewhere (same ▸ here)
      cases concerns with
      | spares spares => exact bides.of_spares spares stays differs
      | creates control there actors =>
          obtain ⟨record, known⟩ := bides.there
          refine ⟨⟨record, get?_settled actors known⟩, ?_⟩
          rw [stays]
          exact fun same => differs (Option.some.inj same)
  | @decide current decision policy written choosing chosen =>
      by_cases runs : ∃ target, decision = .run target
      · obtain ⟨target, rfl⟩ := runs
        obtain ⟨coherent, -⟩ := consistent.of_choosing choosing
        obtain ⟨actor, there, enabled, same⟩ :=
          decided_run coherent (legal _ Array.mem_push_self target rfl)
        have differs : target ≠ id := unselected (actor.record.snapshot target)
          ((selects_push_iff rfl).mpr
            (.inr ⟨rfl, rfl, mem_snapshots_iff.mpr ⟨actor, there, rfl⟩⟩))
        obtain ⟨record, known⟩ := bides.there
        -- The current actor may go, but it is another one.
        have spares := spares_run run.machine current target actor.record
        obtain ⟨⟨changed, at_⟩, now, kept, -⟩ := spares.kept id _ known
        have elsewhere : id ≠ current := by
          rintro rfl
          exact bides.elsewhere (by rw [choosing]; rfl)
        cases kept elsewhere
        obtain ⟨actors, control⟩ := exists_run_eq run.machine current target actor.record
        refine ⟨⟨changed, same ▸ now⟩, ?_⟩
        rw [same, control]
        exact fun here => differs (Option.some.inj here)
      · rw [ended_decided fun target same => runs ⟨target, same⟩] at still
        cases still
  | @fail current fault policy choosing =>
      rcases crashed_or run.machine current fault with same | ended
      · obtain ⟨record, known⟩ := bides.there
        refine ⟨⟨record, by rw [same]; exact known⟩, ?_⟩
        have elsewhere := bides.elsewhere
        rw [choosing] at elsewhere
        rw [same]
        exact elsewhere
      · cases still.symm.trans ended

theorem Reached.bides
    (before : Reached program (start program number policy) middle)
    (reached : Reached program middle run) (bides : middle.machine.Bides id stage)
    (legal : ∀ turn ∈ run.turns, turn.Legal) (going : run.machine.ended = false)
    (unselected : ∀ step snapshot, middle.turns.size < step → run.Selects step snapshot →
      snapshot.id ≠ id) : run.machine.Bides id stage := by
  induction reached with
  | here => exact bides
  | @step run reached log induction =>
      have first := before.sane (sane_start (program.root number))
      have whole := before.trans reached
      have sane := whole.sane (sane_start (program.root number))
      have steps : Steps program run log _ := steps_step sane log
      have earlier : ∀ turn ∈ run.turns, turn.Legal :=
        fun turn member => legal turn (steps.mem_turns member)
      have sound := whole.sound (sound_start discreet number policy) discreet earlier
      have size := (reached.getElem?_turns first).1
      refine steps.bides discreet ?_ sound legal ?_ going
      · exact induction earlier ((steps.onward sane).going going) fun step snapshot after selects =>
          unselected step snapshot after (steps.selects step snapshot selects)
      · exact fun snapshot => unselected _ snapshot (Nat.lt_succ_of_le size)

section Awakened

variable {before after last : Run π σ μ} {current : ActorId} {target actor : Actor σ μ}
  {record kept : Record} {body : σ} {step : Nat}
  (choice : Choice program (start program number policy) last early other before after current target)
  (legal : ∀ turn ∈ last.turns, turn.Legal) (going : last.machine.ended = false)

include choice legal going

theorem Choice.uncrashed : last.machine.crashes = [] :=
  ((choice.reached.trans (choice.onward.trans choice.rest)).afoot discreet legal going).uncrashed

theorem Choice.living_of_enabled
    (coherent : last.machine.Coherent id) (there : before.machine.actors.get? snapshot.id = some actor)
    (now : last.machine.actors.get? snapshot.id = some ⟨kept, stage⟩) (enabled : kept.enabled = true) :
    actor.record.terminated = false := by
  refine Bool.of_not_eq_true fun terminated => ?_
  have outlasts := choice.reached.outlasts discreet (choice.onward.trans choice.rest) legal
    (choice.uncrashed discreet legal going)
  obtain ⟨life, lives, gone, -⟩ := outlasts.faults snapshot.id _ (life?_of_get? there) terminated
  obtain ⟨found, present, rfl⟩ := exists_of_life? lives
  cases now.symm.trans present
  have flags := coherent.flags_of_enabled now enabled
  cases flags.terminated.symm.trans gone

omit going in
theorem Choice.le_sendStep
    {slot : Nat} (coherent : last.machine.Coherent id)
    (there : before.machine.actors.get? snapshot.id = some actor)
    (waits : actor.wait? = some (.message slot))
    (now : last.machine.actors.get? snapshot.id =
      some ⟨kept, .waiting (.receive ⟨snapshot.id, slot⟩) body⟩)
    (enabled : kept.enabled = true) :
    kept.operation = .receive snapshot.id ∧ ∃ step, kept.sendStep = some step ∧ early + 1 ≤ step := by
  obtain ⟨announced, -, head, rest, queue, sent⟩ := coherent.exists_head now enabled
  refine ⟨announced, head.sendStep, sent, ?_⟩
  obtain ⟨box, found, owned, empty⟩ :=
    (choice.coherent legal discreet).1.empty snapshot.id slot ((wait?_of_get? there).trans waits)
  obtain ⟨actors, same⟩ := exists_run_eq before.machine current other.id target.record
  have idle : after.machine.queue ⟨snapshot.id, slot⟩ = [] := by
    rw [choice.machine, same]
    exact (queue_of_found found owned).trans empty
  obtain ⟨services, recorded⟩ := (choice.reached.trans choice.onward).exists_recorded
  obtain ⟨fresh, later⟩ := choice.rest.exists_recorded
  have matched := recorded.matched discreet (choice.lawful legal).2
  have further := (recorded.trans later).matched discreet legal
  have queued : head ∈ last.machine.queue ⟨snapshot.id, slot⟩ := by
    rw [queue]
    exact List.mem_cons_self
  have member := (matched.fifo _).mem_fresh (further.fifo _) idle queued
  have size := later.sendStep_le choice.sane.2 member
  rwa [choice.turns, Array.size_push, choice.size] at size

theorem Choice.exists_stop
    {joined : ActorId} {strict : Bool} (coherent : last.machine.Coherent id)
    (there : before.machine.actors.get? snapshot.id = some actor)
    (waits : actor.wait? = some (.stop joined))
    (now : last.machine.actors.get? snapshot.id = some ⟨kept, .waiting (.join joined strict) body⟩)
    (enabled : kept.enabled = true) :
    ∃ step, last.SelectsFor step joined (.stop joined) ∧ early + 1 ≤ step := by
  have ended := coherent.joined snapshot.id _ joined now ⟨enabled, strict, body, rfl⟩
  have whole := choice.reached.trans (choice.onward.trans choice.rest)
  have reports := whole.reports discreet legal (choice.uncrashed discreet legal going)
  obtain ⟨step, stops⟩ := reports.stopped joined ended
  refine ⟨step, stops, Nat.lt_of_not_le fun earlier => ?_⟩
  -- It had not ended when the actor was disabled.
  obtain ⟨target, present, living⟩ := (choice.coherent legal discreet).1.living snapshot.id joined
    ((wait?_of_get? there).trans waits)
  obtain ⟨ending, selects, rfl, stop⟩ := stops
  rw [← choice.size] at earlier
  have selects := ((choice.onward.trans choice.rest).selects_iff choice.sane.1 earlier).mp selects
  have lives := (choice.reached.lives discreet (choice.lawful legal).1).2 choice.going
  obtain ⟨found, known, terminated⟩ :=
    lives.over_of_stopped choice.choosing selects (by rw [Snapshot.kind, stop]; rfl)
  cases present.symm.trans known
  cases living.symm.trans terminated

end Awakened

/-- Who was disabled when the scheduler was asked, and is chosen later, has been awakened, if it has
not yielded. -/
theorem Reached.awakened
    (reached : Reached program (start program number policy) run)
    (legal : ∀ turn ∈ run.turns, turn.Legal) (lt : early < late)
    (asked : run.turns[early]? = some turn) (listed : entry ∈ turn.actors)
    (same : entry.id = snapshot.id) (disabled : entry.enabled = false)
    (chosen : run.Selects (early + 1) other) (selects : run.Selects (late + 1) snapshot)
    (idle : ∀ step last, early < step → step ≤ late → run.Selects step last →
      last.id ≠ snapshot.id)
    (unyielding : snapshot.kind ≠ .yield) :
    Awakened run.Selects (early + 1) (late + 1) snapshot := by
  -- The run at the later step, and from there back to the earlier one.
  obtain ⟨last, _, _, target, later⟩ := reached.exists_choice discreet legal selects
  have lawful := (later.lawful legal).1
  have coherent := (later.coherent legal discreet).1
  have past := later.onward.trans later.rest
  have inside : early < last.turns.size := by rwa [later.size]
  obtain ⟨before, after, current, picked, choice⟩ := later.reached.exists_choice discreet lawful
    ((past.selects_iff later.sane.1 inside).mp chosen)
  rw [(past.getElem?_turns later.sane.1).2 early inside, choice.asked] at asked
  cases asked
  obtain ⟨actor, there, shows⟩ := mem_snapshots_iff.mp listed
  rw [same] at there
  have disabled : actor.record.enabled = false := (congrArg Snapshot.enabled shows).trans disabled
  have living := choice.living_of_enabled discreet lawful later.going coherent there later.there
    later.enabled
  have differs : other.id ≠ snapshot.id := idle _ _ (Nat.lt_succ_self _) lt chosen
  have stays (lives : actor.stage.isOver = false) : target.stage = actor.stage := by
    have bides : after.machine.Bides snapshot.id actor.stage :=
      choice.machine ▸ bides_of_run there lives differs
    obtain ⟨⟨record, now⟩, -⟩ := Reached.bides discreet (choice.reached.trans choice.onward)
      choice.rest bides lawful later.going fun step known below picks => by
        have within := picks.le
        rw [choice.turns, Array.size_push, choice.size] at below
        exact idle step known (Nat.lt_of_succ_lt below) (later.size ▸ within)
          ((past.selects_iff later.sane.1 within).mpr picks)
    cases later.there.symm.trans now
    rfl
  have proper := (choice.coherent lawful discreet).1.proper snapshot.id actor there
  obtain ⟨kept, stage⟩ := target
  have operation : kept.operation = snapshot.operation := congrArg Snapshot.operation later.shows
  cases proper with
  | free flags => cases flags.enabled.symm.trans disabled
  | gone flags => cases flags.terminated.symm.trans living
  | @parked record slot body flags =>
      cases stays rfl
      obtain ⟨receives, step, sent, above⟩ := choice.le_sendStep discreet lawful coherent there
        (by simp [Actor.wait?, flags.enabled]) later.there later.enabled
      refine .send ?_ ?_ above
      · rw [Snapshot.kind, ← operation, receives]
        rfl
      · rw [← sent, ← later.shows]
        rfl
  | @joining record joined strict body flags announced =>
      cases stays rfl
      obtain ⟨step, ⟨ending, selected, rfl, stop⟩, above⟩ := choice.exists_stop discreet lawful
        later.going coherent there (by simp [Actor.wait?, flags.enabled]) later.there later.enabled
      refine .stop ?_ ((past.selects_iff later.sane.1 selected.le).mpr selected) stop above
        (Nat.lt_succ_of_le (later.size ▸ selected.le))
      rw [← operation]
      exact coherent.announces_of_enabled later.there later.enabled
  | yielding | awaiting =>
      cases stays rfl
      rcases coherent.announces_of_enabled later.there later.enabled with yields | awaits
      · refine absurd ?_ unyielding
        rw [Snapshot.kind, ← operation]
        exact congrArg Operation.kind yields
      · refine .deadlock ?_
        rw [Snapshot.kind, ← operation]
        exact congrArg Operation.kind awaits

end Bides

end Run

end Interleave
