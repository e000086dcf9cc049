import Interleave.Random.Source
import Interleave.Scheduler

namespace Interleave.Policy

structure Priority where
  source : Random.Source
  count : Nat
  changePoints : List Nat
  /-- The highest priority comes first. -/
  order : List ActorId
  badActor : Option ActorId
  stepLimit : Option Nat
  steps : Nat
  sends : Nat
  /-- The most sends of an earlier execution. -/
  maxSends : Nat

namespace Priority

def ofSettings (settings : Settings) : Priority where
  source := .ofSeed settings.seed
  count := settings.changePoints
  changePoints := []
  order := []
  badActor := settings.badActor
  stepLimit := settings.stepLimit
  steps := 0
  sends := 0
  maxSends := 0

/-- Gives an actor a random place in the order. -/
def place (policy : Priority) (id : ActorId) : Priority :=
  let drawn := policy.source.below .wide (policy.order.length + 1)
  { policy with
    order := policy.order.insertIdx drawn.1 id
    source := drawn.2 }

/-- Places the actors that have appeared since the last scheduling point. -/
def welcome (actors : List Snapshot) (policy : Priority) : Priority :=
  (actors.drop policy.order.length).foldl (fun policy actor => policy.place actor.id) policy

def toFront (order : List ActorId) (id : ActorId) : List ActorId :=
  if order.contains id then id :: order.erase id else order

def toBack (order : List ActorId) (id : ActorId) : List ActorId :=
  if order.contains id then order.erase id ++ [id] else order

/-- Removes a change point and moves the actor that it concerns. -/
def change (actors : List Snapshot) (current : ActorId) (policy : Priority) : Event × Priority :=
  let passed := { policy with changePoints := policy.changePoints.erase policy.sends }
  match policy.badActor with
  | some bad =>
      if bad.index < actors.length then
        (.boosted bad, { passed with order := toFront policy.order bad })
      else (.demoted current, { passed with order := toBack policy.order current })
  | none => (.demoted current, { passed with order := toBack policy.order current })

def isSending (actors : List Snapshot) (current : ActorId) : Bool :=
  actors[current.index]?.any fun actor => actor.kind = .send

/-- Counts a send, and takes the change point at it if there is one. -/
def countSend (actors : List Snapshot) (current : ActorId) (policy : Priority) :
    Option Event × Priority :=
  if isSending actors current then
    let counted := { policy with sends := policy.sends + 1 }
    if counted.changePoints.contains counted.sends then
      let (event, changed) := counted.change actors current
      (some event, changed)
    else (none, counted)
  else (none, policy)

def lookUp (actors : List Snapshot) (id : ActorId) : Except Fault Snapshot :=
  match actors[id.index]? with
  | some actor => .ok actor
  | none => .error (.outOfRange id.index actors.length)

def decide (actors : List Snapshot) (policy : Priority) : Except Fault Decision := do
  let enabled := (← policy.order.mapM (lookUp actors)).filter Snapshot.enabled
  match enabled.find? (fun actor => actor.kind ≠ .send) <|> enabled.head? with
  | some actor => return .run actor.id
  | none => return .deadlock

def choose (actors : List Snapshot) (current : ActorId) : Attempt Priority Decision := do
  modify fun policy => policy.welcome actors
  modify fun policy => { policy with steps := policy.steps + 1 }
  let policy ← get
  if policy.stepLimit.any fun limit => limit < policy.steps then return .hitStepLimit
  let (event, counted) := policy.countSend actors current
  set counted
  event.forM Attempt.log
  counted.decide actors

/-- Draws change points among the sends of an execution. -/
def drawPoints (maxSends : Nat) : Nat → Random.Source → List Nat × Random.Source
  | 0, source => ([], source)
  | count + 1, source =>
      let drawn := source.between 1 maxSends
      let rest := drawPoints maxSends count drawn.2
      (drawn.1 :: rest.1, rest.2)

def advance (policy : Priority) : Bool × Priority :=
  let maxSends := max policy.maxSends policy.sends
  let drawn :=
    if maxSends = 0 then ([], policy.source) else drawPoints maxSends policy.count policy.source
  (true, { policy with
    order := []
    maxSends := maxSends
    sends := 0
    steps := 0
    changePoints := drawn.1
    source := drawn.2 })

instance : Scheduler Priority where
  choose := choose
  advance := Attempt.change advance
  steps := steps

theorem length_drawPoints (maxSends count : Nat) (source : Random.Source) :
    (drawPoints maxSends count source).1.length = count := by
  induction count generalizing source with
  | zero => rfl
  | succ count induction => simp [drawPoints, induction]

theorem mem_drawPoints {maxSends count point : Nat} {source : Random.Source}
    (positive : 0 < maxSends) (member : point ∈ (drawPoints maxSends count source).1) :
    1 ≤ point ∧ point ≤ maxSends := by
  induction count generalizing source with
  | zero => simp [drawPoints] at member
  | succ count induction =>
      simp only [drawPoints, List.mem_cons] at member
      cases member with
      | inl head =>
          rw [head]
          exact ⟨source.le_between 1 maxSends, source.between_le positive⟩
      | inr later => exact induction later

end Priority

end Interleave.Policy
