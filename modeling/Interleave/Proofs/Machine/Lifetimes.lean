import Interleave.Proofs.Machine.Footprint

namespace Interleave

variable {σ μ : Type}

/-- How far an actor has come. -/
inductive Age
  | body
  | ending
  | stopped
  | gone

def Stage.age : Stage σ μ → Age
  | .running | .waiting .. => .body
  | .ending false => .ending
  | .ending true => .stopped
  | .ended => .gone

/-- What the summary of an execution tells about an actor. How many others wait for its end is only
told once no more can join it. -/
structure Life where
  age : Age
  terminated : Bool
  cancelled : Bool
  faults : List ActorError
  waiters : Option Nat

def Record.life (record : Record) (ended : Bool) (age : Age) : Life :=
  ⟨age, record.terminated, record.cancelled, record.faults,
    if ended || record.terminated then some record.waiters.length else none⟩

def Actor.life (actor : Actor σ μ) (ended : Bool) : Life := actor.record.life ended actor.stage.age

structure Fair (cancelled : Bool) (faults : List ActorError) : Prop where
  few : faults.length ≤ 1
  cancelled_iff : cancelled = true ↔ faults = [.cancelled]

theorem fair_nil : Fair false [] := ⟨Nat.zero_le 1, by simp⟩

namespace Life

inductive Proper : Life → Prop
  | body (waiters : Option Nat) : Proper ⟨.body, false, false, [], waiters⟩
  | ending {cancelled : Bool} {faults : List ActorError} (waiters : Option Nat)
      (fair : Fair cancelled faults) : Proper ⟨.ending, false, cancelled, faults, waiters⟩
  | stopped {cancelled : Bool} {faults : List ActorError} (fair : Fair cancelled faults) :
      Proper ⟨.stopped, true, cancelled, faults, some 0⟩
  | gone {cancelled : Bool} {faults : List ActorError} (terminated : Bool)
      (fair : Fair cancelled faults) : Proper ⟨.gone, terminated, cancelled, faults, some 0⟩

/-- What can happen to an actor: it is about to terminate, its body has just ended, or all actors
go. -/
structure Prospect where
  due : Prop
  closing : Prop
  parting : Prop

/-- What becomes of the life of an actor in one transition. The actor terminates when its end is
due, and it goes when it has terminated or the execution is over. -/
inductive Ages (prospect : Prospect) : Life → Life → Prop
  | same (life : Life) : Ages prospect life life
  | woken {age : Age} {terminated cancelled : Bool} {faults : List ActorError}
      (first second : Option Nat) (young : age = .body ∨ age = .ending) :
      Ages prospect ⟨age, terminated, cancelled, faults, first⟩
        ⟨age, terminated, cancelled, faults, second⟩
  | settled {cancelled : Bool} {faults : List ActorError} (closes : prospect.closing)
      (first second : Option Nat) (fair : Fair cancelled faults) :
      Ages prospect ⟨.body, false, false, [], first⟩ ⟨.ending, false, cancelled, faults, second⟩
  | finished {cancelled : Bool} {faults : List ActorError} (ends : prospect.due)
      (waiters : Option Nat) :
      Ages prospect ⟨.ending, false, cancelled, faults, waiters⟩
        ⟨.stopped, true, cancelled, faults, some 0⟩
  | left {age : Age} {terminated cancelled : Bool} {faults : List ActorError}
      (goes : prospect.parting ∨ age = .stopped) (waiters : Option Nat) :
      Ages prospect ⟨age, terminated, cancelled, faults, waiters⟩
        ⟨.gone, terminated, cancelled, faults, some 0⟩

variable {before after life : Life} {prospect : Prospect}

theorem Proper.fair (proper : life.Proper) : Fair life.cancelled life.faults := by
  cases proper with
  | body waiters => exact fair_nil
  | ending _ fair | stopped fair | gone _ fair => exact fair

theorem Proper.eq_blank (proper : life.Proper) (embodied : life.age = .body) :
    life = ⟨.body, false, false, [], life.waiters⟩ := by
  cases proper with
  | body => rfl
  | ending | stopped | gone => cases embodied

theorem Proper.eq_stopped (proper : life.Proper) (stopped : life.age = .stopped) :
    life = ⟨.stopped, true, life.cancelled, life.faults, some 0⟩ := by
  cases proper with
  | stopped => rfl
  | body | ending | gone => cases stopped

theorem Proper.waiters_of_gone (proper : life.Proper) (gone : life.age = .gone) :
    life.waiters = some 0 := by
  cases proper with
  | gone => rfl
  | body | ending | stopped => cases gone

theorem Proper.terminated_of_ending (proper : life.Proper) (ending : life.age = .ending) :
    life.terminated = false := by
  cases proper with
  | ending => rfl
  | body | stopped | gone => cases ending

theorem Proper.young (proper : life.Proper) (joinable : life.waiters = none) :
    life.age = .body ∨ life.age = .ending := by
  cases proper with
  | body => exact .inl rfl
  | ending => exact .inr rfl
  | stopped | gone => cases joinable

theorem Ages.proper (ages : Ages prospect before after) (proper : before.Proper) : after.Proper := by
  cases ages with
  | same => exact proper
  | woken first second young =>
      cases proper with
      | body => exact .body second
      | ending _ fair => exact .ending second fair
      | stopped | gone => simp at young
  | settled closes first second fair => exact .ending second fair
  | finished ends waiters => exact .stopped proper.fair
  | left goes waiters => exact .gone _ proper.fair

theorem Ages.terminated (ages : Ages prospect before after) (terminated : before.terminated = true) :
    after.terminated = true ∧ after.faults = before.faults := by
  cases ages with
  | same | woken | left => exact ⟨terminated, rfl⟩
  | settled | finished => cases terminated

theorem Ages.due_of_terminated
    (ages : Ages prospect before after) (terminated : after.terminated = true) :
    before.terminated = true ∨ prospect.due := by
  cases ages with
  | same | woken | left => exact .inl terminated
  | settled => cases terminated
  | finished ends => exact .inr ends

theorem Ages.embodied_iff
    (ages : Ages prospect before after) (unclosed : ¬ prospect.closing) (going : ¬ prospect.parting) :
    (after.age = .body ↔ before.age = .body) ∧ after.faults = before.faults := by
  cases ages with
  | same | woken => exact ⟨Iff.rfl, rfl⟩
  | settled closes => exact absurd closes unclosed
  | finished => exact ⟨⟨nofun, nofun⟩, rfl⟩
  | left goes =>
      refine ⟨⟨nofun, fun embodied => ?_⟩, rfl⟩
      rw [goes.resolve_left going] at embodied
      cases embodied

end Life

namespace Record

variable {record changed : Record}

theorem life_congr (same : record.SameEnding changed) (ended : Bool) (age : Age) :
    changed.life ended age = record.life ended age := by
  simp only [life, same.terminated, same.cancelled, same.faults, same.waiters]

/-- The end of the execution shows who waits, and nothing else. -/
theorem ages_of_sameEnding
    {ended later : Bool} {age : Age} {prospect : Life.Prospect} (same : record.SameEnding changed)
    (proper : (record.life ended age).Proper) (lasting : ended = true → later = true) :
    Life.Ages prospect (record.life ended age) (changed.life later age) := by
  rw [life_congr same]
  cases ended with
  | true =>
      rw [lasting rfl]
      exact .same _
  | false =>
      cases later with
      | false => exact .same _
      | true =>
          cases gone : record.terminated with
          | true =>
              have told : record.life true age = record.life false age := by simp [life, gone]
              rw [told]
              exact .same _
          | false =>
              have told : record.life true age =
                  ⟨age, false, record.cancelled, record.faults, some record.waiters.length⟩ := by
                simp [life, gone]
              have blank : record.life false age =
                  ⟨age, false, record.cancelled, record.faults, none⟩ := by
                simp [life, gone]
              rw [told, blank]
              rw [blank] at proper
              exact .woken none _ (proper.young rfl)

end Record

theorem Actor.life_congr
    {actor changed : Actor σ μ} (aged : changed.stage.age = actor.stage.age)
    (same : actor.record.SameEnding changed.record) (ended : Bool) :
    changed.life ended = actor.life ended := by
  rw [Actor.life, aged]
  exact Record.life_congr same ended _

namespace Machine

variable {program : Program σ μ} {machine before middle after : Machine σ μ} {id other : ActorId}
  {actor : Actor σ μ} {operation : Operation} {stage : Stage σ μ}

def life? (machine : Machine σ μ) (id : ActorId) : Option Life :=
  (machine.actors.get? id).map fun actor => actor.life machine.ended

theorem life?_of_get? (there : machine.actors.get? id = some actor) :
    machine.life? id = some (actor.life machine.ended) := by
  rw [life?, there, Option.map_some]

theorem exists_of_life? {life : Life} (lives : machine.life? id = some life) :
    ∃ actor, machine.actors.get? id = some actor ∧ actor.life machine.ended = life :=
  Option.map_eq_some_iff.mp lives

structure Calm (before after : Machine σ μ) : Prop where
  lives : ∀ id, after.life? id = before.life? id
  ended : after.ended = before.ended
  deadlocked : after.deadlocked = before.deadlocked

theorem Calm.trans (first : Calm before middle) (rest : Calm middle after) : Calm before after where
  lives id := (rest.lives id).trans (first.lives id)
  ended := rest.ended.trans first.ended
  deadlocked := rest.deadlocked.trans first.deadlocked

theorem calm_of_change
    {change : ActorId → Actor σ μ → Actor σ μ}
    (actors : ∀ other, after.actors.get? other = (machine.actors.get? other).map (change other))
    (lives : ∀ other actor, machine.actors.get? other = some actor →
      (change other actor).life machine.ended = actor.life machine.ended)
    (ended : after.ended = machine.ended) (deadlocked : after.deadlocked = machine.deadlocked) :
    Calm machine after where
  lives id := by
    rw [life?, life?, actors, ended]
    cases there : machine.actors.get? id with
    | none => rfl
    | some actor => exact congrArg some (lives id actor there)
  ended := ended
  deadlocked := deadlocked

theorem calm_same
    (actors : after.actors = machine.actors) (ended : after.ended = machine.ended)
    (deadlocked : after.deadlocked = machine.deadlocked) : Calm machine after where
  lives id := by rw [life?, life?, actors, ended]
  ended := ended
  deadlocked := deadlocked

theorem calm_modifyRecord
    {change : Record → Record} (machine : Machine σ μ) (id : ActorId)
    (endings : ∀ record : Record, record.SameEnding (change record)) :
    Calm machine (machine.modifyRecord id change) := by
  refine calm_of_change (get?_modifyRecord machine id · change) ?_ rfl rfl
  intro other actor _
  split
  · apply Actor.life_congr
    · rfl
    · exact endings actor.record
  · rfl

theorem calm_modifyRecords
    {change : ActorId → Record → Record} (machine : Machine σ μ)
    (endings : ∀ id (record : Record), record.SameEnding (change id record)) :
    Calm machine (machine.modifyRecords change) := by
  refine calm_of_change (get?_modifyRecords machine · change) ?_ rfl rfl
  intro other actor _
  apply Actor.life_congr
  · rfl
  · exact endings other actor.record

theorem calm_setStage
    (aged : ∀ actor, machine.actors.get? id = some actor → stage.age = actor.stage.age) :
    Calm machine (machine.setStage id stage) := by
  refine calm_of_change (get?_setStage machine id · stage) ?_ rfl rfl
  intro other actor there
  split
  · rename_i same
    subst same
    apply Actor.life_congr
    · exact aged actor there
    · exact ⟨rfl, rfl, rfl, rfl⟩
  · rfl

theorem calm_releaseBlocked (machine : Machine σ μ) : Calm machine machine.releaseBlocked := by
  simp only [releaseBlocked]
  split
  · exact calm_same rfl rfl rfl
  · split
    · apply calm_modifyRecords
      intro _ record
      unfold Record.releaseYielded
      split <;> exact ⟨rfl, rfl, rfl, rfl⟩
    · apply calm_modifyRecords
      intro _ record
      unfold Record.releaseAwaiting
      split <;> exact ⟨rfl, rfl, rfl, rfl⟩

theorem calm_placed
    (machine : Machine σ μ) (id : ActorId) (operation : Operation) (stage : Stage σ μ) :
    Calm (machine.setStage id stage) (machine.reach id operation stage) := by
  unfold reach
  split
  · exact calm_same rfl rfl rfl
  · have announced := calm_modifyRecord (machine.setStage id stage) id fun record =>
      (⟨rfl, rfl, rfl, rfl⟩ : record.SameEnding (record.announce operation))
    exact (announced.trans (calm_releaseBlocked _)).trans (calm_same rfl rfl rfl)

theorem actor?_reach_of_actor?
    (machine : Machine σ μ) (id : ActorId) (operation : Operation) (stage : Stage σ μ) :
    (machine.reach id operation stage).control.actor? = some id := by
  unfold reach
  split <;> rfl

theorem calm_join
    (going : machine.ended = false) (there : machine.actors.get? other = some actor)
    (living : actor.record.terminated = false) :
    Calm machine (machine.modifyRecord other fun record =>
      { record with waiters := record.waiters ++ [id] }) := by
  refine calm_of_change (get?_modifyRecord machine other · _) ?_ rfl rfl
  intro known found present
  split
  · rename_i same
    subst same
    cases there.symm.trans present
    simp only [Actor.life, Record.life, going, living]
    rfl
  · rfl

def Embodied (machine : Machine σ μ) (id : ActorId) : Prop :=
  ∃ actor, machine.actors.get? id = some actor ∧ actor.stage.age = .body

theorem Calm.embodied (calm : Calm before after) (embodied : before.Embodied id) :
    after.Embodied id := by
  obtain ⟨actor, there, aged⟩ := embodied
  have lives := calm.lives id
  rw [life?_of_get? there] at lives
  obtain ⟨changed, present, same⟩ := exists_of_life? lives
  exact ⟨changed, present, (congrArg Life.age same).trans aged⟩

def Acts (id : ActorId) (before after : Machine σ μ) : Prop :=
  before.Embodied id →
    Calm before after ∧ (before.control.actor? = some id → after.control.actor? = some id)

theorem gentle_acts (id : ActorId) : Gentle id (@Acts σ μ id) where
  refl _ _ := ⟨calm_same rfl rfl rfl, fun holds => holds⟩
  trans first rest embodied := by
    obtain ⟨calm, kept⟩ := first embodied
    obtain ⟨also, still⟩ := rest (calm.embodied embodied)
    exact ⟨calm.trans also, fun holds => still (kept holds)⟩
  pass holds _ := ⟨calm_same rfl rfl rfl, fun _ => holds⟩
  reach machine operation pending body embodied := by
    obtain ⟨actor, there, aged⟩ := embodied
    have placed : Calm machine (machine.setStage id (.waiting pending body)) := by
      apply calm_setStage
      intro found present
      cases there.symm.trans present
      exact aged.symm
    exact ⟨placed.trans (calm_placed machine id operation _),
      fun _ => actor?_reach_of_actor? machine id operation _⟩
  record machine other _ endings _ := ⟨calm_modifyRecord machine other endings, fun holds => holds⟩
  join going there living _ := ⟨calm_join going there living, fun holds => holds⟩
  mailbox _ _ := ⟨calm_same rfl rfl rfl, fun holds => holds⟩
  parked _ _ _ _ := ⟨calm_same rfl rfl rfl, fun holds => holds⟩
  note _ _ _ := ⟨calm_same rfl rfl rfl, fun holds => holds⟩

end Machine

end Interleave
