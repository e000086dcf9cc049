import Interleave.Proofs.Attempt
import Interleave.Proofs.Search.Transitions
import Interleave.Scheduler

namespace Interleave

namespace TransitionSystem

inductive Phase (system : TransitionSystem)
  | running (state : system.State) (run : List ActorId)
  | ended

/-- A point of an exploration, with the executions that are over and how each of them ended. -/
structure Point (π : Type) (system : TransitionSystem) where
  policy : π
  log : Log
  finished : List (List ActorId × Decision)
  phase : Phase system

section Explores

variable (system : TransitionSystem) {π : Type} [Scheduler π]

/-- The scheduler is told which actor has reached the scheduling point; `current` may depend on the
number of the execution and on its steps so far. -/
inductive Drives (current : Nat → List ActorId → ActorId) : Point π system → Point π system → Prop
  | run {policy next : π} {log written : Log} {finished : List (List ActorId × Decision)}
      {state : system.State} {run : List ActorId} {actor : ActorId}
      (chosen : (Scheduler.choose (system.actors state) (current finished.length run)).Returns
        (policy, log) (.run actor) (next, written)) :
      Drives current ⟨policy, log, finished, .running state run⟩
        ⟨next, written, finished, .running (system.step state actor) (run ++ [actor])⟩
  | finish {policy next : π} {log written : Log} {finished : List (List ActorId × Decision)}
      {state : system.State} {run : List ActorId} {decision : Decision}
      (chosen : (Scheduler.choose (system.actors state) (current finished.length run)).Returns
        (policy, log) decision (next, written))
      (idle : decision.actor? = none) :
      Drives current ⟨policy, log, finished, .running state run⟩
        ⟨next, written, finished ++ [(run, decision)], .ended⟩
  | restart {policy next : π} {log written : Log} {finished : List (List ActorId × Decision)}
      (advanced : Scheduler.advance.Returns (policy, log) true (next, written)) :
      Drives current ⟨policy, log, finished, .ended⟩
        ⟨next, written, finished, .running system.initial []⟩

inductive Stops (current : Nat → List ActorId → ActorId) : Point π system → Fault → Prop
  | running {policy : π} {log : Log} {finished : List (List ActorId × Decision)}
      {state : system.State} {run : List ActorId} {fault : Fault}
      (failed : (Scheduler.choose (system.actors state) (current finished.length run)).Fails
        (policy, log) fault) :
      Stops current ⟨policy, log, finished, .running state run⟩ fault
  | ended {policy : π} {log : Log} {finished : List (List ActorId × Decision)} {fault : Fault}
      (failed : Scheduler.advance.Fails (policy, log) fault) :
      Stops current ⟨policy, log, finished, .ended⟩ fault

def Reaches (current : Nat → List ActorId → ActorId) : Point π system → Point π system → Prop :=
  Relation.ReflTransGen (system.Drives current)

variable {system}

def Point.start (policy : π) (log : Log) : Point π system :=
  ⟨policy, log, [], .running system.initial []⟩

/-- An execution has ended and nothing is left to explore. -/
def Point.Exhausted (point : Point π system) : Prop :=
  point.phase = .ended ∧ ∃ after, Scheduler.advance.Returns (point.policy, point.log) false after

variable (system)

def Explores (current : Nat → List ActorId → ActorId) (policy : π) (log : Log)
    (finished : List (List ActorId × Decision)) : Prop :=
  ∃ point, system.Reaches current (.start policy log) point ∧ point.Exhausted ∧
    point.finished = finished

end Explores

variable {system : TransitionSystem} {π : Type} [Scheduler π]
  {current : Nat → List ActorId → ActorId}

theorem Drives.unique : Relator.RightUnique (system.Drives (π := π) current) := by
  intro point first second one other
  cases one with
  | run chosen =>
      cases other with
      | run again =>
          obtain ⟨same, states⟩ := chosen.unique again
          cases same
          cases states
          rfl
      | finish again idle =>
          obtain ⟨rfl, -⟩ := chosen.unique again
          cases idle
  | finish chosen idle =>
      cases other with
      | run again =>
          obtain ⟨rfl, -⟩ := chosen.unique again
          cases idle
      | finish again _ =>
          obtain ⟨rfl, states⟩ := chosen.unique again
          cases states
          rfl
  | restart advanced =>
      cases other with
      | restart again =>
          obtain ⟨-, states⟩ := advanced.unique again
          cases states
          rfl

theorem Point.Exhausted.stays
    {point next : Point π system} (exhausted : point.Exhausted)
    (drives : system.Drives current point next) : False := by
  obtain ⟨ended, after, advanced⟩ := exhausted
  cases drives with
  | run _ => cases ended
  | finish _ _ => cases ended
  | restart again =>
      obtain ⟨impossible, -⟩ := advanced.unique again
      cases impossible

theorem Point.Exhausted.eq_of_reaches
    {point other : Point π system} (exhausted : point.Exhausted)
    (reaches : system.Reaches current point other) : other = point := by
  rcases Relation.ReflTransGen.cases_head reaches with same | ⟨next, drives, -⟩
  · exact same.symm
  · exact (exhausted.stays drives).elim

theorem Explores.unique
    {policy : π} {log : Log} {finished others : List (List ActorId × Decision)}
    (explores : system.Explores current policy log finished)
    (also : system.Explores current policy log others) : others = finished := by
  obtain ⟨point, reaches, exhausted, rfl⟩ := explores
  obtain ⟨other, reachesOther, exhaustedOther, rfl⟩ := also
  rcases Relation.ReflTransGen.total_of_right_unique Drives.unique reaches reachesOther with
    onward | onward
  · rw [exhausted.eq_of_reaches onward]
  · rw [exhaustedOther.eq_of_reaches onward]

theorem Explores.leads
    {policy : π} {log : Log} {finished : List (List ActorId × Decision)}
    (explores : system.Explores current policy log finished) (point : Point π system)
    (reaches : system.Reaches current (.start policy log) point) :
    ∃ last, system.Reaches current point last ∧ last.Exhausted := by
  obtain ⟨last, reachesLast, exhausted, -⟩ := explores
  rcases Relation.ReflTransGen.total_of_right_unique Drives.unique reaches reachesLast with
    onward | beyond
  · exact ⟨last, onward, exhausted⟩
  · have same := exhausted.eq_of_reaches beyond
    exact ⟨last, by rw [same]; exact .refl, exhausted⟩

def Point.next? (current : Nat → List ActorId → ActorId) (point : Point π system) :
    Option (Point π system) :=
  match point.phase with
  | .running state run =>
      match (Scheduler.choose (system.actors state) (current point.finished.length run)).outcome
          (point.policy, point.log) with
      | ((.ok decision, policy), log) =>
          match decision with
          | .run actor =>
              some ⟨policy, log, point.finished,
                .running (system.step state actor) (run ++ [actor])⟩
          | _ => some ⟨policy, log, point.finished ++ [(run, decision)], .ended⟩
      | _ => none
  | .ended =>
      match Scheduler.advance.outcome (point.policy, point.log) with
      | ((.ok true, policy), log) =>
          some ⟨policy, log, point.finished, .running system.initial []⟩
      | _ => none

/-- The point after some more steps, or the last one. -/
def Point.forward (current : Nat → List ActorId → ActorId) : Nat → Point π system → Point π system
  | 0, point => point
  | steps + 1, point =>
      match point.next? current with
      | some next => next.forward current steps
      | none => point

theorem drives_of_next?
    {point next : Point π system} (goes : point.next? current = some next) :
    system.Drives current point next := by
  obtain ⟨policy, log, finished, phase⟩ := point
  cases phase with
  | running state run =>
      simp only [Point.next?] at goes
      split at goes
      · rename_i decision changed written chosen
        cases decision with
        | run actor =>
            cases goes
            exact .run chosen
        | deadlock =>
            cases goes
            exact .finish chosen rfl
        | sleepSetBlocked =>
            cases goes
            exact .finish chosen rfl
        | hitStepLimit =>
            cases goes
            exact .finish chosen rfl
      · cases goes
  | ended =>
      simp only [Point.next?] at goes
      split at goes
      · rename_i changed written advanced
        cases goes
        exact .restart advanced
      · cases goes

theorem reaches_forward (steps : Nat) (point : Point π system) :
    system.Reaches current point (point.forward current steps) := by
  induction steps generalizing point with
  | zero => exact .refl
  | succ steps induction =>
      unfold Point.forward
      split
      · rename_i next goes
        exact .head (drives_of_next? goes) (induction next)
      · exact .refl

end TransitionSystem

end Interleave
