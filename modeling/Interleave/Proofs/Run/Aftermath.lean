import Interleave.Policy.Scripted
import Interleave.Proofs.Machine.Aftermath
import Interleave.Proofs.Run.Steps

namespace Interleave

variable {π σ μ : Type} [Scheduler π]

namespace Run

variable {program : Program σ μ} {first run : Run π σ μ} {id : ActorId} {call : Call σ μ} {next : σ}
  {error : ActorError}

/-- Since the end of the execution, the actor has made a call that disables it. -/
def Parked (program : Program σ μ) (first run : Run π σ μ) (id : ActorId) : Prop :=
  ∃ before call next log, Reached program first before ∧ before.machine.ended = true ∧
    before.machine.Calls program id call next ∧ before.machine.Parks id call ∧
    Reached program ((before.step program).run log).1 run

theorem Parked.step (parked : Parked program first run id) (log : Log) :
    Parked program first ((run.step program).run log).1 id := by
  obtain ⟨before, call, next, written, reached, ended, calls, parks, later⟩ := parked
  exact ⟨before, call, next, written, reached, ended, calls, parks, later.step log⟩

theorem Steps.awake
    {log : Log} {last : Run π σ μ} (steps : Steps program run log last)
    (going : run.machine.ended = false) (ended : last.machine.ended = true) (id : ActorId) :
    ¬ last.machine.Disabled id := by
  have woken : Machine.Woken run.machine last.machine := by
    cases steps with
    | tick => exact Machine.woken_next program run.machine
    | @decide id decision => exact Machine.woken_decided run.machine id decision
    | @fail id fault =>
        change Machine.Woken run.machine (run.machine.crashed id fault)
        rcases Machine.crash_or_awake run.machine id fault (.empty .trace) with same | awake
        · rw [Machine.crashed, same]
          exact .inl rfl
        · exact .inr awake
  rcases woken with same | awake
  · cases (same.trans going).symm.trans ended
  · exact awake id

/-- After the end, whoever is disabled has done that to itself. -/
theorem Reached.parked
    (reached : Reached program first run) (sane : first.machine.Sane)
    (going : first.machine.ended = false) (ended : run.machine.ended = true)
    (disabled : run.machine.Disabled id) : Parked program first run id := by
  induction reached with
  | here => cases going.symm.trans ended
  | @step run reached log induction =>
      have steps : Steps program run log ((run.step program).run log).1 :=
        steps_step (reached.sane sane) log
      cases before : run.machine.ended with
      | false => exact absurd disabled (steps.awake before ended id)
      | true =>
          have undecided := (reached.sane sane).decided before
          rw [step_of_undecided program undecided (reached.sane sane) log] at disabled
          rcases Machine.lulls_next program (reached.sane sane) before id disabled with
            disabled | ⟨call, next, calls, parks⟩
          · exact (induction before disabled).step log
          · exact ⟨run, call, next, log, reached, before, calls, parks, .here⟩

/-- Once the execution has ended, every call that waits for something is refused, whatever the actor
has called before. The exception is a receive from an empty mailbox by an owner that has disabled
itself since the end, which crashes. -/
theorem refuses_of_ended
    {number : Nat} {policy : π} (reached : Reached program (start program number policy) run)
    (ended : run.machine.ended = true) (calls : run.machine.Calls program id call next)
    (refused : call.refusal? id = some error)
    (genuine : ∀ address, call = .receive address → run.machine.Genuine address) (log : Log) :
    (∃ steps, 0 < steps ∧ steps ≤ 2 ∧
      run.machine.Refuses (run.after program log steps).machine id next error) ∨
    run.machine.Starves id call ∧ Parked program (start program number policy) run id ∧
      (run.after program log 1).machine.crashes =
        (id, .disabledReceiver id) :: run.machine.crashes := by
  have sane := reached.sane (Machine.sane_start _)
  have comes : ∀ steps, (run.after program log steps).machine =
      (Machine.next program)^[steps] run.machine :=
    fun steps => congrArg Run.machine (complete_of_ended program steps log sane ended)
  by_cases starves : run.machine.Disabled id ∧ run.machine.Starves id call
  · obtain ⟨disabled, starves⟩ := starves
    refine .inr ⟨starves, reached.parked (Machine.sane_start _) rfl ended disabled, ?_⟩
    rw [comes]
    exact Machine.crashes_of_starves calls genuine starves disabled
  · obtain ⟨steps, positive, few, refuses⟩ :=
      Machine.refuses_of_calls sane ended calls refused genuine starves
    refine .inl ⟨steps, positive, few, ?_⟩
    rw [comes]
    exact refuses

end Run

/-- The root waits for a message, whatever it is told. -/
inductive Vigil
  | begun
  | waiting (mailbox : Address)

namespace Vigil

def program : Program Vigil Nat where
  root _ := .begun
  resume _
    | .begun, .ok (.mailbox address) => .call (.receive address) (.waiting address)
    | .begun, _ => .call .mailbox .begun
    | .waiting address, _ => .call (.receive address) (.waiting address)

end Vigil

namespace Run

/-- The vigil ends in a deadlock, and its next receive is refused. -/
theorem refuses_of_ended_vigil :
    let run := (start Vigil.program 0 (Policy.Scripted.ofScript [])).after Vigil.program
      (.empty .error) 4
    let address : Address := ⟨.root, 0⟩
    run.machine.ended = true ∧
      run.machine.Calls Vigil.program .root (.receive address) (.waiting address) ∧
      run.machine.Genuine address ∧
      ∃ steps, 0 < steps ∧ steps ≤ 2 ∧ run.machine.Refuses
        (run.after Vigil.program (.empty .error) steps).machine .root (.waiting address)
          .terminated := by
  intro run address
  have ended : run.machine.ended = true := rfl
  have calls : run.machine.Calls Vigil.program .root (.receive address) (.waiting address) :=
    ⟨.waiting address, .error .terminated, rfl, rfl⟩
  have genuine : run.machine.Genuine address := ⟨_, rfl, rfl⟩
  refine ⟨ended, calls, genuine, ?_⟩
  rcases refuses_of_ended (reached_after 4) ended calls rfl
    (by rintro _ ⟨⟩; exact genuine) (.empty .error) with refuses | ⟨-, -, crashed⟩
  · exact refuses
  · cases crashed

end Run

end Interleave
