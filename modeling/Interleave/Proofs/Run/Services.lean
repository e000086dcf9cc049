import Interleave.Proofs.Machine.Queues
import Interleave.Proofs.Run.Turns

namespace Interleave

variable {π σ μ : Type}

/-- An actor that has got control at a step goes on with the answer to its call. -/
structure Service (σ μ : Type) where
  step : Nat
  pending : Pending σ μ
  reply : Reply μ

structure Receipt (μ : Type) where
  step : Nat
  message : μ
deriving DecidableEq

namespace Service

def sent? (address : Address) (service : Service σ μ) : Option (Envelope μ) :=
  match service.pending, service.reply with
  | .send mailbox message, .ok _ =>
      if mailbox = address then some ⟨service.step, message⟩ else none
  | _, _ => none

def received? (address : Address) (service : Service σ μ) : Option (Receipt μ) :=
  match service.pending, service.reply with
  | .receive mailbox, .ok (.message message) =>
      if mailbox = address then some ⟨service.step, message⟩ else none
  | _, _ => none

def sent (address : Address) (services : List (Service σ μ)) : List (Envelope μ) :=
  services.filterMap (sent? address)

def received (address : Address) (services : List (Service σ μ)) : List (Receipt μ) :=
  services.filterMap (received? address)

@[simp] theorem sent_append (address : Address) (first second : List (Service σ μ)) :
    sent address (first ++ second) = sent address first ++ sent address second :=
  List.filterMap_append

@[simp] theorem received_append (address : Address) (first second : List (Service σ μ)) :
    received address (first ++ second) = received address first ++ received address second :=
  List.filterMap_append

@[simp] theorem sent_send
    (address other : Address) (step : Nat) (message : μ) (answer : Answer μ) :
    sent other [(⟨step, .send address message, .ok answer⟩ : Service σ μ)] =
      if address = other then [⟨step, message⟩] else [] := by
  by_cases same : address = other
  · simp [sent, sent?, same]
  · simp [sent, sent?, same]

@[simp] theorem received_send
    (address other : Address) (step : Nat) (message : μ) (reply : Reply μ) :
    received other [(⟨step, .send address message, reply⟩ : Service σ μ)] = [] := rfl

@[simp] theorem sent_receive (address other : Address) (step : Nat) (reply : Reply μ) :
    sent other [(⟨step, .receive address, reply⟩ : Service σ μ)] = [] := rfl

@[simp] theorem received_receive
    (address other : Address) (step : Nat) (message : μ) :
    received other [(⟨step, .receive address, .ok (.message message)⟩ : Service σ μ)] =
      if address = other then [⟨step, message⟩] else [] := by
  by_cases same : address = other
  · simp [received, received?, same]
  · simp [received, received?, same]

def Idle (services : List (Service σ μ)) : Prop :=
  ∀ address, sent address services = [] ∧ received address services = []

theorem idle_nil : Idle ([] : List (Service σ μ)) :=
  fun _ => ⟨rfl, rfl⟩

theorem idle_of_error {service : Service σ μ} {error : ActorError}
    (failed : service.reply = .error error) : Idle [service] := by
  obtain ⟨step, pending, reply⟩ := service
  change reply = _ at failed
  subst failed
  intro address
  cases pending <;> exact ⟨rfl, rfl⟩

theorem idle_of_unused
    {pending : Pending σ μ} (unused : ∀ address, ¬ pending.Uses address) (step : Nat)
    (answer : Reply μ) : Idle [⟨step, pending, answer⟩] := by
  intro address
  cases pending with
  | send mailbox message => exact absurd (.send mailbox message) (unused mailbox)
  | receive mailbox => exact absurd (.receive mailbox) (unused mailbox)
  | _ => exact ⟨rfl, rfl⟩

end Service

namespace Run

open Service

variable {program : Program σ μ} {run next first : Run π σ μ} {services : List (Service σ μ)}

def service? (run next : Run π σ μ) : Option (Service σ μ) :=
  match run.machine.control, next.machine.control with
  | .returning id, .resuming _ _ answer =>
      match run.machine.actors.get? id with
      | some ⟨_, .waiting pending _⟩ => some ⟨run.turns.size, pending, answer⟩
      | _ => none
  | _, _ => none

theorem idle_of_failed
    (failed : ∀ id body answer, next.machine.control ≠ .resuming id body (.ok answer)) :
    Idle (run.service? next).toList := by
  unfold service?
  split
  · rename_i id other body result returning resuming
    split
    · cases result with
      | error error => exact idle_of_error rfl
      | ok answer => exact absurd resuming (failed other body answer)
    · exact idle_nil
  · exact idle_nil

theorem idle_of_control (elsewhere : ∀ id, run.machine.control ≠ .returning id) :
    Idle (run.service? next).toList := by
  unfold service?
  split
  · rename_i id _ _ _ returning _
    exact absurd returning (elsewhere id)
  · exact idle_nil

theorem service?_of_returning
    {id other : ActorId} {record : Record} {pending : Pending σ μ} {body next_body : σ}
    {answer : Reply μ} (control : run.machine.control = .returning id)
    (there : run.machine.actors.get? id = some ⟨record, .waiting pending body⟩)
    (resumes : next.machine.control = .resuming other next_body answer) :
    run.service? next = some ⟨run.turns.size, pending, answer⟩ := by
  unfold service?
  rw [control, resumes]
  simp only [there]

variable [Scheduler π]

inductive Recorded (program : Program σ μ) (first : Run π σ μ) :
    Run π σ μ → List (Service σ μ) → Prop
  | here : Recorded program first first []
  | step {run : Run π σ μ} {services : List (Service σ μ)}
      (recorded : Recorded program first run services) (log : Log) :
      Recorded program first ((run.step program).run log).1
        (services ++ (run.service? ((run.step program).run log).1).toList)

theorem Recorded.reached (recorded : Recorded program first run services) :
    Reached program first run := by
  induction recorded with
  | here => exact .here
  | step _ log induction => exact .step induction log

theorem Reached.exists_recorded (reached : Reached program first run) :
    ∃ services, Recorded program first run services := by
  induction reached with
  | here => exact ⟨[], .here⟩
  | step _ log induction =>
      obtain ⟨services, recorded⟩ := induction
      exact ⟨_, recorded.step log⟩

theorem Recorded.cons
    {last : Run π σ μ} {later : List (Service σ μ)} (log : Log)
    (recorded : Recorded program ((run.step program).run log).1 last later) :
    Recorded program run last ((run.service? ((run.step program).run log).1).toList ++ later) := by
  induction recorded with
  | here =>
      rw [List.append_nil]
      exact .step .here log
  | step _ log induction =>
      rw [← List.append_assoc]
      exact .step induction log

def history (program : Program σ μ) : Nat → Run π σ μ → Log → List (Service σ μ)
  | 0, _, _ => []
  | allowance + 1, run, log =>
      if run.isFinished then []
      else
        let (next, written) := (run.step program).run log
        (run.service? next).toList ++ history program allowance next written

theorem recorded_history (program : Program σ μ) (allowance : Nat) (run : Run π σ μ) (log : Log) :
    Recorded program run ((run.complete program allowance).run log).1
      (run.history program allowance log) := by
  induction allowance generalizing run log with
  | zero => exact .here
  | succ allowance induction =>
      rw [complete_succ, history]
      split
      · exact .here
      · exact .cons log (induction _ _)

end Run

end Interleave
