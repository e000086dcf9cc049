import Interleave.Proofs.Machine.Stages
import Interleave.Proofs.Run.Answers

namespace Interleave

variable {σ μ : Type}

theorem Stage.creates_iff
    {stage : Stage σ μ} {id : ActorId} {operation : Operation}
    (announced : stage.Announces id operation) (placed : stage ≠ .running) :
    operation = .create ↔ stage.Creates := by
  constructor
  · rintro rfl
    cases stage with
    | running => exact absurd rfl placed
    | ending | ended => cases announced
    | waiting pending body =>
        cases pending with
        | create name child => exact ⟨name, child, body, rfl⟩
        | start | send | join => cases announced
        | receive => cases announced.1
        | pass =>
            rcases announced with same | same
            · cases same
            · cases same
  · rintro ⟨name, child, body, rfl⟩
    exact announced

theorem Stage.eq_ending
    {stage : Stage σ μ} {id : ActorId} {operation : Operation}
    (announced : stage.Announces id operation) (placed : stage ≠ .running)
    (living : stage.isOver = false) (stops : operation.kind = .stop) : stage = .ending false := by
  cases stage with
  | running => exact absurd rfl placed
  | ended => cases living
  | ending terminated => exact congrArg Stage.ending living
  | waiting pending body =>
      cases pending with
      | create | start | send | join =>
          rw [show operation = _ from announced] at stops
          cases stops
      | receive =>
          rw [announced.1] at stops
          cases stops
      | pass =>
          rcases announced with same | same
          · rw [same] at stops
            cases stops
          · rw [same] at stops
            cases stops

namespace Actor

variable {id : ActorId} {record : Record} {stage : Stage σ μ}

theorem Proper.of_fresh (proper : Proper id ⟨record, stage⟩) (fresh : stage.Fresh) :
    record.enabled = true ∧ record.operation = .start id := by
  obtain ⟨answer, body, rfl⟩ := fresh
  cases proper with
  | free flags announced => exact ⟨flags.enabled, announced⟩
  | gone flags announced lives => cases lives

theorem Proper.disabled_of_terminated
    (proper : Proper id ⟨record, stage⟩) (terminated : record.terminated = true) :
    record.enabled = false := by
  cases proper with
  | gone flags => exact flags.enabled
  | free flags | parked flags | joining flags | yielding flags | awaiting flags =>
      rw [flags.terminated] at terminated
      cases terminated

theorem Proper.living_of_enabled
    (proper : Proper id ⟨record, stage⟩) (enabled : record.enabled = true) :
    stage.isOver = false := by
  cases proper with
  | free flags announced living => exact living
  | parked | joining | yielding | awaiting => rfl
  | gone flags =>
      rw [flags.enabled] at enabled
      cases enabled

end Actor

theorem Machine.Coherent.eq_ending
    {machine : Machine σ μ} {id chosen : ActorId} {target : Actor σ μ}
    (coherent : machine.Coherent id) (placed : machine.Placed id)
    (there : machine.actors.get? chosen = some target) (enabled : target.record.enabled = true)
    (stops : target.record.operation.kind = .stop) : target.stage = .ending false :=
  Stage.eq_ending (coherent.announces_of_enabled there enabled) (coherent.not_running placed there)
    ((coherent.proper _ target there).living_of_enabled enabled) stops

/-- Whom the next turn shows: after a create one more, the new actor, which is to be started. -/
inductive Turn.Grows (turn : Turn) (snapshot : Snapshot) (next : Turn) : Prop
  | create {newcomer : Snapshot} (creates : snapshot.operation = .create)
      (size : next.actors.length = turn.actors.length + 1)
      (there : next.actors[turn.actors.length]? = some newcomer)
      (numbered : newcomer.id = ⟨turn.actors.length⟩) (enabled : newcomer.enabled = true)
      (starts : newcomer.operation = .start ⟨turn.actors.length⟩) : Turn.Grows turn snapshot next
  | same (differs : snapshot.operation ≠ .create)
      (size : next.actors.length = turn.actors.length) : Turn.Grows turn snapshot next

namespace Run

open Machine

variable {π : Type} {program : Program σ μ} {handles : Handles σ μ} {run next first : Run π σ μ}
  {number step : Nat} {policy : π} {turn : Turn} {snapshot other : Snapshot} {id : ActorId}
  {log : Log}

theorem getElem?_snapshots
    {machine : Machine σ μ} {actor : Actor σ μ} (there : machine.actors.get? id = some actor) :
    machine.snapshots[id.index]? = some (actor.record.snapshot id) := by
  have listed : actor.record.snapshot id ∈ machine.snapshots :=
    mem_snapshots_iff.mpr ⟨actor, there, rfl⟩
  obtain ⟨position, found⟩ := List.mem_iff_getElem?.mp listed
  rw [show id.index = position from congrArg ActorId.index (numbered_snapshots machine _ _ found)]
  exact found

/-- What the turns of a run tell about the actors. -/
structure Annals (run : Run π σ μ) : Prop where
  numbered : ∀ turn ∈ run.turns, Numbered turn.actors
  starts : ∀ step snapshot, run.Selects step snapshot → snapshot.id ≠ .root →
    (∀ early other, early < step → run.Selects early other → other.id ≠ snapshot.id) →
      snapshot.operation = .start snapshot.id
  stops : ∀ step snapshot late other, run.Selects step snapshot → snapshot.kind = .stop →
    step < late → run.Selects late other → other.id ≠ snapshot.id
  grows : ∀ (index : Nat) (turn next : Turn) (snapshot : Snapshot), run.turns[index]? = some turn →
    run.turns[index + 1]? = some next → run.Selects (index + 1) snapshot → turn.Grows snapshot next

def Chosen (run : Run π σ μ) (id : ActorId) : Prop :=
  ∃ step snapshot, run.Selects step snapshot ∧ snapshot.id = id

inductive Peopled (run : Run π σ μ) (turn : Turn) (snapshot : Snapshot) : Prop
  | create (creates : snapshot.operation = .create)
      (size : run.machine.actors.size = turn.actors.length + 1)
      (new : ¬ run.Chosen ⟨turn.actors.length⟩) : Peopled run turn snapshot
  | same (differs : snapshot.operation ≠ .create)
      (size : run.machine.actors.size = turn.actors.length) : Peopled run turn snapshot

/-- How the machine fits the turns before the end of the execution. -/
structure Lives (run : Run π σ μ) : Prop where
  bearer : ∀ id, run.machine.control.actor? = some id → id = .root ∨ run.Chosen id
  present : ∀ id, run.Chosen id → id.index < run.machine.actors.size
  fresh : ∀ id actor, run.machine.actors.get? id = some actor → id ≠ .root → ¬ run.Chosen id →
    actor.stage.Fresh
  stopped : ∀ step snapshot, run.Selects step snapshot → snapshot.kind = .stop →
    run.machine.Over snapshot.id ∨ run.machine.control = .returning snapshot.id ∧
      ∃ record, run.machine.actors.get? snapshot.id = some ⟨record, .ending false⟩
  held : ∀ id turn, run.machine.control = .returning id → run.turns.back? = some turn →
    run.machine.actors.size = turn.actors.length
  peopled : ∀ turn snapshot, (∀ id, run.machine.control ≠ .returning id) →
    run.turns.back? = some turn → run.Selects run.turns.size snapshot → run.Peopled turn snapshot

theorem Selects.exists_turn (selects : run.Selects step snapshot) :
    ∃ turn, run.turns[step - 1]? = some turn ∧ turn.decision = .run snapshot.id ∧
      snapshot ∈ turn.actors := by
  cases selects with
  | turn asked chosen listed => exact ⟨_, asked, chosen, listed⟩

theorem Selects.unique
    (numbered : ∀ turn ∈ run.turns, Numbered turn.actors) (selects : run.Selects step snapshot)
    (also : run.Selects step other) : other = snapshot := by
  obtain ⟨turn, asked, chosen, listed⟩ := selects.exists_turn
  obtain ⟨_, askedToo, chosenToo, listedToo⟩ := also.exists_turn
  cases asked.symm.trans askedToo
  rw [chosen, Decision.run.injEq] at chosenToo
  exact (numbered turn (Array.mem_of_getElem? asked)).eq_of_id_eq listedToo listed chosenToo.symm

theorem chosen_congr_iff (turns : next.turns = run.turns) : next.Chosen id ↔ run.Chosen id := by
  constructor
  · rintro ⟨step, snapshot, selects, same⟩
    exact ⟨step, snapshot, selects.congr turns.symm, same⟩
  · rintro ⟨step, snapshot, selects, same⟩
    exact ⟨step, snapshot, selects.congr turns, same⟩

theorem chosen_push_iff
    {chosen : ActorId} (listed : ∃ snapshot ∈ turn.actors, snapshot.id = chosen)
    (runs : turn.decision = .run chosen) (pushed : next.turns = run.turns.push turn) :
    next.Chosen id ↔ run.Chosen id ∨ id = chosen := by
  constructor
  · rintro ⟨step, snapshot, selects, rfl⟩
    rcases (selects_push_iff pushed).mp selects with selects | ⟨-, same, -⟩
    · exact .inl ⟨step, snapshot, selects, rfl⟩
    · rw [runs, Decision.run.injEq] at same
      exact .inr same.symm
  · rintro (⟨step, snapshot, selects, same⟩ | rfl)
    · exact ⟨step, snapshot, (selects_push_iff pushed).mpr (.inl selects), same⟩
    · obtain ⟨snapshot, member, rfl⟩ := listed
      exact ⟨_, snapshot, (selects_push_iff pushed).mpr (.inr ⟨rfl, runs, member⟩), rfl⟩

theorem Annals.congr (annals : run.Annals) (turns : next.turns = run.turns) : next.Annals where
  numbered := by
    rw [turns]
    exact annals.numbered
  starts step snapshot selects mortal first := by
    refine annals.starts step snapshot (selects.congr turns.symm) mortal ?_
    exact fun early other before earlier => first early other before (earlier.congr turns)
  stops step snapshot late other selects stops after later :=
    annals.stops step snapshot late other (selects.congr turns.symm) stops after
      (later.congr turns.symm)
  grows index turn following snapshot := by
    rw [turns]
    exact fun asked then_ selects =>
      annals.grows index turn following snapshot asked then_ (selects.congr turns.symm)

theorem Punctual.creates_iff
    {actor : Actor σ μ} (punctual : run.Punctual)
    (numbered : ∀ turn ∈ run.turns, Numbered turn.actors) (consistent : run.machine.Consistent)
    (returning : run.machine.control = .returning id)
    (there : run.machine.actors.get? id = some actor)
    (selects : run.Selects run.turns.size snapshot) :
    snapshot.operation = .create ↔ actor.stage.Creates := by
  obtain ⟨coherent, known, present, enabled, placed⟩ := consistent.of_returning returning
  cases there.symm.trans present
  rw [(punctual.selected id actor returning there).unique numbered selects]
  exact Stage.creates_iff (coherent.announces_of_enabled there enabled) placed

section Tick

variable {after : Machine σ μ} (lives : run.Lives) (annals : run.Annals) (punctual : run.Punctual)
  (consistent : run.machine.Consistent) (turns : next.turns = run.turns)
  (here : run.machine.control.actor? = some id) (stays : next.machine.control.actor? = some id)
  (elsewhere : ∀ other, next.machine.control ≠ .returning other)

include lives annals punctual consistent turns here stays elsewhere

theorem Lives.of_spares
    (spares : Spares id run.machine next.machine)
    (alone : ∀ actor, run.machine.control = .returning id →
      run.machine.actors.get? id = some actor → ¬ actor.stage.Creates)
    (stops : ∀ record, run.machine.control = .returning id →
      run.machine.actors.get? id = some ⟨record, .ending false⟩ → next.machine.Over id) :
    next.Lives where
  bearer := by
    intro other same
    cases stays.symm.trans same
    rw [chosen_congr_iff turns]
    exact lives.bearer id here
  present := by
    intro other chosen
    rw [chosen_congr_iff turns] at chosen
    rw [spares.size]
    exact lives.present other chosen
  fresh := by
    intro other actor there mortal unchosen
    rw [chosen_congr_iff turns] at unchosen
    have differs : other ≠ id := by
      rintro rfl
      exact (lives.bearer other here).elim mortal unchosen
    obtain ⟨before, known, same⟩ := spares.exists_before there differs
    rw [← same]
    exact lives.fresh other before known mortal unchosen
  stopped := by
    intro step snapshot selects ends
    left
    rcases lives.stopped step snapshot (selects.congr turns.symm) ends with
      gone | ⟨returning, record, there⟩
    · exact spares.terminated gone
    · rw [returning] at here
      cases here
      exact stops record returning there
  held := by
    intro other _ returning
    exact absurd returning (elsewhere other)
  peopled := by
    intro turn snapshot _ last selects
    rw [turns] at last selects
    have selects := selects.congr turns.symm
    by_cases returns : ∃ holder, run.machine.control = .returning holder
    · obtain ⟨holder, returning⟩ := returns
      rw [returning] at here
      cases here
      obtain ⟨-, actor, there, -⟩ := consistent.of_returning returning
      have creates := punctual.creates_iff annals.numbered consistent returning there selects
      refine .same (fun same => alone actor returning there (creates.mp same)) ?_
      rw [spares.size]
      exact lives.held id turn returning last
    · have elsewhere : ∀ holder, run.machine.control ≠ .returning holder :=
        fun holder same => returns ⟨holder, same⟩
      cases lives.peopled turn snapshot elsewhere last selects with
      | create creates size new =>
          exact .create creates (spares.size.trans size) (mt (chosen_congr_iff turns).mp new)
      | same differs size => exact .same differs (spares.size.trans size)

theorem Lives.of_creates
    {record : Record} {name : Option String} {child body : σ} {newcomer : Actor σ μ}
    (control : run.machine.control = .returning id)
    (there : run.machine.actors.get? id = some ⟨record, .waiting (.create name child) body⟩)
    (actors : next.machine.actors = run.machine.actors.push newcomer)
    (fresh : newcomer.stage.Fresh) : next.Lives where
  bearer := by
    intro other same
    cases stays.symm.trans same
    rw [chosen_congr_iff turns]
    exact lives.bearer id here
  present := by
    intro other chosen
    rw [chosen_congr_iff turns] at chosen
    rw [actors, Roster.size_push]
    exact Nat.lt_succ_of_lt (lives.present other chosen)
  fresh := by
    intro other actor found mortal unchosen
    rw [chosen_congr_iff turns] at unchosen
    rcases newcomer_or_settled actors found with ⟨-, rfl⟩ | settled
    · exact fresh
    · exact lives.fresh other actor settled mortal unchosen
  stopped := by
    intro step snapshot selects ends
    left
    rcases lives.stopped step snapshot (selects.congr turns.symm) ends with
      ⟨actor, found, terminated⟩ | ⟨returning, record, found⟩
    · exact ⟨actor, get?_settled actors found, terminated⟩
    · cases control.symm.trans returning
      cases there.symm.trans found
  held := by
    intro other _ returning
    exact absurd returning (elsewhere other)
  peopled := by
    intro turn snapshot _ last selects
    rw [turns] at last selects
    have selects := selects.congr turns.symm
    have creates := punctual.creates_iff annals.numbered consistent control there selects
    have size := lives.held id turn control last
    refine .create (creates.mpr ⟨name, child, body, rfl⟩) ?_ ?_
    · rw [actors, Roster.size_push, size]
    · rw [chosen_congr_iff turns]
      intro chosen
      have inside := lives.present _ chosen
      rw [size] at inside
      exact Nat.lt_irrefl _ inside

end Tick

section Decide

variable {decision : Decision} (lives : run.Lives) (choosing : run.machine.control = .choosing id)
  (coherent : run.machine.Coherent id)

include lives choosing

theorem Lives.over_of_stopped
    (selects : run.Selects step snapshot) (stops : snapshot.kind = .stop) :
    run.machine.Over snapshot.id := by
  rcases lives.stopped step snapshot selects stops with gone | ⟨returning, -⟩
  · exact gone
  · cases choosing.symm.trans returning

include coherent

theorem Lives.grows
    (last : run.turns.back? = some turn) (selects : run.Selects run.turns.size snapshot)
    (decision : Decision) : turn.Grows snapshot ⟨id, run.machine.snapshots, decision⟩ := by
  have some : 0 < turn.actors.length := by
    obtain ⟨_, asked, -, listed⟩ := selects.exists_turn
    rw [Array.back?_eq_getElem?] at last
    cases asked.symm.trans last
    exact List.length_pos_of_mem listed
  have peopled := lives.peopled turn snapshot (fun other returning => by
    cases choosing.symm.trans returning) last selects
  cases peopled with
  | same differs size => exact .same differs ((length_snapshots run.machine).trans size)
  | create creates size new =>
      obtain ⟨⟨record, stage⟩, there⟩ :=
        exists_get? (show turn.actors.length < run.machine.actors.size by omega)
      have mortal : (⟨turn.actors.length⟩ : ActorId) ≠ .root := by
        intro root
        have none : turn.actors.length = 0 := congrArg ActorId.index root
        rw [none] at some
        exact Nat.lt_irrefl 0 some
      have fresh := lives.fresh _ _ there mortal new
      obtain ⟨enabled, starts⟩ := (coherent.proper _ _ there).of_fresh fresh
      exact .create creates ((length_snapshots run.machine).trans size) (getElem?_snapshots there)
        rfl enabled starts

theorem Annals.decide
    (annals : run.Annals) (legal : Turn.Legal ⟨id, run.machine.snapshots, decision⟩)
    (turns : next.turns = run.turns.push ⟨id, run.machine.snapshots, decision⟩) : next.Annals where
  numbered := by
    intro turn member
    rw [turns, Array.mem_push] at member
    rcases member with old | rfl
    · exact annals.numbered turn old
    · exact numbered_snapshots run.machine
  starts := by
    intro step snapshot selects mortal first
    rcases (selects_push_iff turns).mp selects with old | ⟨rfl, chosen, listed⟩
    · exact annals.starts step snapshot old mortal fun early other before earlier =>
        first early other before ((selects_push_iff turns).mpr (.inl earlier))
    · -- Who is chosen for the first time has not left its first stage.
      obtain ⟨actor, there, same⟩ := mem_snapshots_iff.mp listed
      have unchosen : ¬ run.Chosen snapshot.id := by
        rintro ⟨early, other, earlier, also⟩
        exact first early other (Nat.lt_succ_of_le earlier.le)
          ((selects_push_iff turns).mpr (.inl earlier)) also
      have fresh := lives.fresh snapshot.id actor there mortal unchosen
      rw [← same]
      exact ((coherent.proper _ _ there).of_fresh fresh).2
  stops := by
    intro step snapshot late other selects stops after later
    have bounded : late ≤ run.turns.size + 1 := by
      have most := later.le
      rwa [turns, Array.size_push] at most
    rcases (selects_push_iff turns).mp selects with selects | ⟨rfl, -, -⟩
    · rcases (selects_push_iff turns).mp later with later | ⟨rfl, chosen, listed⟩
      · exact annals.stops step snapshot late other selects stops after later
      · -- Who has stopped has terminated by now, and is not enabled.
        intro same
        obtain ⟨actor, there, enabled⟩ := exists_of_enables (legal other.id (by rw [chosen]; rfl))
        obtain ⟨gone, known, terminated⟩ := lives.over_of_stopped choosing selects stops
        rw [same] at there
        cases there.symm.trans known
        rw [(coherent.proper _ _ known).disabled_of_terminated terminated] at enabled
        cases enabled
    · exact absurd bounded (Nat.not_le_of_lt after)
  grows := by
    intro index turn following snapshot asked then_ selects
    rw [turns, Array.getElem?_push] at then_
    split at then_
    · rename_i last
      cases then_
      rw [turns, Array.getElem?_push, if_neg (by omega)] at asked
      have back : run.turns.back? = some turn := by
        rw [Array.back?_eq_getElem?, ← last]
        exact asked
      rcases (selects_push_iff turns).mp selects with selects | ⟨impossible, -, -⟩
      · rw [last] at selects
        exact lives.grows choosing coherent back selects decision
      · omega
    · have inside : index + 1 < run.turns.size := (Array.getElem?_eq_some_iff.mp then_).1
      rw [turns, Array.getElem?_push, if_neg (by omega)] at asked
      rcases (selects_push_iff turns).mp selects with selects | ⟨impossible, -, -⟩
      · exact annals.grows index turn following snapshot asked then_ selects
      · omega

theorem Lives.decide
    {chosen : ActorId} {target : Actor σ μ} (placed : run.machine.Placed id)
    (there : run.machine.actors.get? chosen = some target)
    (enabled : target.record.enabled = true)
    (machine : next.machine = (run.machine.advance chosen target.record).switch id chosen)
    (turns : next.turns = run.turns.push ⟨id, run.machine.snapshots, .run chosen⟩) :
    next.Lives := by
  obtain ⟨actors, run_eq⟩ := exists_run_eq run.machine id chosen target.record
  have control : next.machine.control = .returning chosen := by rw [machine, run_eq]
  have spares : Spares id run.machine next.machine := by
    rw [machine]
    exact spares_run run.machine id chosen target.record
  have listed : ∃ snapshot ∈ run.machine.snapshots, snapshot.id = chosen :=
    ⟨target.record.snapshot chosen, mem_snapshots_iff.mpr ⟨target, there, rfl⟩, rfl⟩
  have news : ∀ other, next.Chosen other ↔ run.Chosen other ∨ other = chosen :=
    fun other => chosen_push_iff listed rfl turns
  constructor
  case bearer =>
    intro other same
    rw [control] at same
    cases same
    exact .inr ((news chosen).mpr (.inr rfl))
  case present =>
    intro other selected
    rw [spares.size]
    rcases (news other).mp selected with selected | rfl
    · exact lives.present other selected
    · exact index_lt there
  case fresh =>
    intro other actor found mortal unchosen
    have unchosen : ¬ run.Chosen other :=
      fun selected => unchosen ((news other).mpr (.inl selected))
    have differs : other ≠ id := by
      rintro rfl
      exact (lives.bearer other (by rw [choosing]; rfl)).elim mortal unchosen
    obtain ⟨before, known, same⟩ := spares.exists_before found differs
    rw [← same]
    exact lives.fresh other before known mortal unchosen
  case stopped =>
    intro step snapshot selects stops
    rcases (selects_push_iff turns).mp selects with selects | ⟨-, same, listed⟩
    · exact .inl (spares.terminated (lives.over_of_stopped choosing selects stops))
    · cases same
      obtain ⟨actor, found, shown⟩ := mem_snapshots_iff.mp listed
      cases there.symm.trans found
      rw [← shown] at stops
      have ending := coherent.eq_ending placed there enabled stops
      obtain ⟨active, now⟩ := exists_get?_run there id
      rw [← machine, ending] at now
      exact .inr ⟨control, _, now⟩
  case held =>
    intro other turn _ last
    rw [turns, Array.back?_push] at last
    cases last
    rw [spares.size]
    exact (length_snapshots run.machine).symm
  case peopled =>
    intro turn snapshot elsewhere
    exact absurd control (elsewhere chosen)

end Decide

theorem annals_start (program : Program σ μ) (number : Nat) (policy : π) :
    (start program number policy).Annals where
  numbered := nofun
  starts step snapshot selects := by
    obtain ⟨_, asked, -⟩ := selects.exists_turn
    cases asked
  stops step snapshot late other selects := by
    obtain ⟨_, asked, -⟩ := selects.exists_turn
    cases asked
  grows index turn next snapshot asked := by
    cases asked

theorem lives_start (program : Program σ μ) (number : Nat) (policy : π) :
    (start program number policy).Lives := by
  have unasked : ∀ step snapshot, ¬ (start program number policy).Selects step snapshot := by
    intro step snapshot selects
    obtain ⟨_, asked, -⟩ := selects.exists_turn
    cases asked
  constructor
  case bearer =>
    intro id same
    exact .inl (Option.some.inj same).symm
  case present =>
    rintro id ⟨step, snapshot, selects, -⟩
    exact absurd selects (unasked step snapshot)
  case fresh =>
    intro id actor there mortal
    exact absurd (eq_of_get?_start there).1 mortal
  case stopped =>
    intro step snapshot selects
    exact absurd selects (unasked step snapshot)
  case held =>
    intro id turn _ last
    cases last
  case peopled =>
    intro turn snapshot _ last
    cases last

variable [Scheduler π]

theorem Steps.annals
    (steps : Steps program run log next) (annals : run.Annals)
    (lives : run.machine.ended = false → run.Lives)
    (punctual : run.machine.ended = false → run.Punctual)
    (sound : run.machine.Sound handles) (discreet : program.Discreet handles)
    (legal : ∀ turn ∈ next.turns, turn.Legal) :
    next.Annals ∧ (next.machine.ended = false → next.Lives) := by
  have onward := steps.onward sound.sane
  cases steps with
  | tick undecided =>
      refine ⟨annals.congr rfl, fun still => ?_⟩
      have going := onward.going still
      obtain ⟨consistent, guarded⟩ := sound.going going
      have moves := moves_next consistent going (guarded.honest discreet) undecided
      obtain ⟨id, here, stays, concerns⟩ := moves.concerns going still
      have elsewhere := (moves.counts going still).not_returning
      cases concerns with
      | spares spares alone stops =>
          exact (lives going).of_spares annals (punctual going) consistent rfl here stays elsewhere
            spares alone stops
      | creates control there actors fresh =>
          exact (lives going).of_creates annals (punctual going) consistent rfl here stays elsewhere
            control there actors fresh
  | @decide id decision policy written choosing chosen =>
      have going : run.machine.ended = false := by
        by_contra ended
        exact sound.sane.decided (by simpa using ended) id choosing
      obtain ⟨coherent, -, placed⟩ := (sound.going going).1.of_choosing choosing
      have legal := legal _ Array.mem_push_self
      refine ⟨annals.decide (lives going) choosing coherent legal rfl, fun still => ?_⟩
      by_cases runs : ∃ target, decision = .run target
      · obtain ⟨target, rfl⟩ := runs
        obtain ⟨actor, there, enabled, same⟩ := decided_run coherent (legal target rfl)
        exact (lives going).decide choosing coherent placed there enabled same rfl
      · rw [ended_decided fun target same => runs ⟨target, same⟩] at still
        cases still
  | @fail id fault policy choosing =>
      refine ⟨annals.congr rfl, fun still => ?_⟩
      have going := onward.going still
      have elsewhere : run.machine.control ≠ .returning id := by
        rw [choosing]
        nofun
      rcases crashed_or run.machine id fault with same | ended
      · refine (lives going).of_spares annals (punctual going) (sound.going going).1 rfl
          (by rw [choosing]; rfl) (by rw [same]; rfl) ?_ (spares_same (by rw [same]; rfl))
          (fun _ returning => absurd returning elsewhere)
          fun _ returning => absurd returning elsewhere
        intro other returning
        rw [same] at returning
        cases returning
      · rw [ended] at still
        cases still

theorem Reached.lives
    (discreet : program.Discreet handles)
    (reached : Reached program (start program number policy) run)
    (legal : ∀ turn ∈ run.turns, turn.Legal) :
    run.Annals ∧ (run.machine.ended = false → run.Lives) := by
  induction reached with
  | here =>
      exact ⟨annals_start program number policy, fun _ => lives_start program number policy⟩
  | @step run reached log induction =>
      have sane := reached.sane (sane_start (program.root number))
      have steps : Steps program run log _ := steps_step sane log
      have before : ∀ turn ∈ run.turns, turn.Legal :=
        fun turn member => legal turn (steps.mem_turns member)
      have sound := reached.sound (sound_start discreet number policy) discreet before
      have punctual := reached.punctual discreet before
      obtain ⟨annals, lives⟩ := induction before
      exact steps.annals annals lives punctual sound discreet legal

/-- The turns of an execution in which only enabled actors are run tell this about the actors. -/
theorem annals_of_reached
    (discreet : program.Discreet handles)
    (reached : Reached program (start program number policy) run)
    (legal : ∀ turn ∈ run.turns, turn.Legal) : run.Annals :=
  (reached.lives discreet legal).1

end Run

end Interleave
