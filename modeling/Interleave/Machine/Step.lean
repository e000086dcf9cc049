import Interleave.Machine.Primitive

namespace Interleave.Machine

variable {σ μ : Type}

/-- What the result of a body means: a failure of the root and a panic are bugs and end the
execution, and so does a root that is unwound by a deadlock. -/
def settle (id : ActorId) (result : Except ActorError Unit) (machine : Machine σ μ) :
    StateM Log (Machine σ μ) := do
  match result with
  | .ok () => return machine
  | .error .terminated =>
      if id = .root ∧ !machine.sleepSetBlocked ∧ !machine.hitStepLimit then
        machine.reportBug .deadlock
      else return machine
  | .error .cancelled =>
      return machine.modifyRecord id fun record =>
        { record.addFault .cancelled with cancelled := true }
  | .error error =>
      let faulty := machine.modifyRecord id (Record.addFault error)
      if id = .root ∨ error.isPanic then
        return (← faulty.reportBug error).terminate
      modifyThe Log (Log.add (.failed id error))
      return faulty

/-- The actor has terminated, and whoever waits for that can run again. -/
def finish (id : ActorId) (machine : Machine σ μ) : Machine σ μ :=
  let waiters := ((machine.actors.get? id).map fun actor => actor.record.waiters).getD []
  waiters.foldl (fun machine waiter => machine.modifyRecord waiter Record.enable)
    (machine.modifyRecord id Record.finish)

/-- An actor has control again. After the end of the execution its call fails. -/
def proceed (id : ActorId) : Attempt (Machine σ μ) Unit := do
  let machine ← get
  match (← machine.actors.get id).stage with
  | .waiting pending body =>
      if machine.ended then
        match pending with
        | .start _ => set (machine.pass (.closing id (.error .terminated)))
        | _ => reply id body (.error .terminated)
      else
        let answer ← complete pending
        reply id body answer
  | .ending false =>
      if machine.ended then set (machine.leave id)
      else set ((machine.finish id).reach id (.stop id) (.ending true))
  | .running | .ending true | .ended => set (machine.leave id)

/-- Runs an action of the body that has control. -/
def act (id : ActorId) (action : Action σ μ) : Attempt (Machine σ μ) Unit :=
  match action with
  | .call call next => perform id next call
  | .return result => modify fun machine => machine.pass (.closing id result)
  | .panic payload => modify fun machine => machine.pass (.closing id (.error (.ofPanic payload)))

/-- Works for an actor, which is stopped if the work faults. -/
def workFor (id : ActorId) (work : Attempt (Machine σ μ) Unit) (machine : Machine σ μ) :
    StateM Log (Machine σ μ) := do
  match ← work.runOn machine with
  | (.ok (), next) => return next
  | (.error fault, next) => next.crash id fault

/-- One transition where no decision is due. -/
def tick (program : Program σ μ) (machine : Machine σ μ) : StateM Log (Machine σ μ) := do
  match machine.control with
  | .resuming id body reply =>
      let running := machine.setStage id .running
      workFor id (act id (program.resume (running.view id) body reply)) running
  | .returning id => workFor id (proceed id) machine
  | .closing id result =>
      return (← settle id result machine).reach id (.stop id) (.ending false)
  | .choosing _ | .finished => return machine

/-- Gives control to the chosen actor. Progress releases the actors that have yielded. -/
def handTo (id next : ActorId) : Attempt (Machine σ μ) Unit := do
  modify fun machine => { machine with trace := machine.trace.push next }
  let chosen ← record next
  if chosen.operation.kind.isProgress then
    modify fun machine => machine.releaseYielded next
  if next ≠ id then
    let released ← (← record id).deactivate id
    changeRecord id fun _ => released
    let activated ← (← record next).activate next
    changeRecord next fun _ => activated
    modify fun machine =>
      match machine.actors.get? id with
      | some ⟨_, .ending true⟩ => machine.setStage id .ended
      | _ => machine
  modify fun machine => machine.pass (.returning next)

def conclude (id : ActorId) (change : Machine σ μ → Machine σ μ) (event : Event) :
    Attempt (Machine σ μ) Unit := do
  Attempt.log event
  modify fun machine => (change machine).terminate.pass (.returning id)

def follow (id : ActorId) (decision : Decision) : Attempt (Machine σ μ) Unit := do
  let machine ← get
  Attempt.log (.step machine.steps id decision machine.snapshots)
  match decision with
  | .run next => handTo id next
  | .deadlock =>
      if machine.live.isEmpty then conclude id (fun machine => machine) (.complete machine.steps)
      else
        conclude id (fun machine => { machine with deadlocked := machine.live })
          (.deadlock machine.steps machine.live)
  | .sleepSetBlocked =>
      conclude id (fun machine => { machine with sleepSetBlocked := true })
        (.sleepSetBlocked machine.steps)
  | .hitStepLimit =>
      conclude id (fun machine => { machine with hitStepLimit := true })
        (.hitStepLimit machine.steps)

/-- The transition at the scheduling point of an actor. -/
def decide (id : ActorId) (decision : Decision) (machine : Machine σ μ) :
    StateM Log (Machine σ μ) :=
  workFor id (follow id decision) machine

end Interleave.Machine
