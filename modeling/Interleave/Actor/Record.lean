import Interleave.Actor.Error
import Interleave.Fault

namespace Interleave

structure Record where
  name : Option String
  enabled : Bool
  active : Bool
  terminated : Bool
  cancelled : Bool
  /-- Waits until another actor makes progress. -/
  yielded : Bool
  /-- Waits until no other actor can run. -/
  awaitingDeadlock : Bool
  operation : Operation
  sendStep : Option Nat
  waiters : List ActorId
  faults : List ActorError
deriving DecidableEq

structure Status where
  id : ActorId
  name : Option String
  terminated : Bool
  cancelled : Bool
  faults : List ActorError
  waiters : Nat
deriving DecidableEq

namespace Record

def start (id : ActorId) (name : Option String) (active : Bool) : Record where
  name := name
  enabled := true
  active := active
  terminated := false
  cancelled := false
  yielded := false
  awaitingDeadlock := false
  operation := .start id
  sendStep := none
  waiters := []
  faults := []

def snapshot (record : Record) (id : ActorId) : Snapshot :=
  ⟨id, record.enabled, record.operation, record.sendStep⟩

def status (record : Record) (id : ActorId) : Status :=
  ⟨id, record.name, record.terminated, record.cancelled, record.faults, record.waiters.length⟩

/-- Announces an operation. Only a receive keeps the step of the send that it will consume. -/
def announce (operation : Operation) (record : Record) : Record :=
  { record with
    operation := operation
    sendStep := if operation.kind = .receive then record.sendStep else none }

def enable (record : Record) : Record := { record with enabled := true }

def disable (record : Record) : Record := { record with enabled := false }

def releaseYielded (record : Record) : Record :=
  if record.yielded then { record with yielded := false, enabled := true } else record

def releaseAwaiting (record : Record) : Record :=
  if record.awaitingDeadlock then { record with awaitingDeadlock := false, enabled := true }
  else record

def activate (id : ActorId) (record : Record) : Except Fault Record :=
  if record.enabled && !record.active then .ok { record with active := true }
  else .error (.notReady id record.enabled record.active)

def deactivate (id : ActorId) (record : Record) : Except Fault Record :=
  if record.active then .ok { record with active := false } else .error (.notHolding id)

/-- Wakes the actor after the end of the execution, so that it unwinds. -/
def wake (record : Record) : Record := { record with enabled := true, active := true }

def finish (record : Record) : Record :=
  { record with enabled := false, terminated := true, waiters := [] }

def addFault (fault : ActorError) (record : Record) : Record :=
  { record with faults := record.faults ++ [fault] }

theorem activate_eq_ok_iff {id : ActorId} {record result : Record} :
    record.activate id = .ok result ↔
      record.enabled ∧ record.active = false ∧ result = { record with active := true } := by
  simp only [activate]
  split
  · rename_i guard
    obtain ⟨enabled, idle⟩ : record.enabled ∧ record.active = false := by simpa using guard
    simp [enabled, idle, eq_comm]
  · rename_i guard
    have refused : ¬ (record.enabled ∧ record.active = false) := by simpa using guard
    simp only [reduceCtorEq, false_iff]
    exact fun all => refused ⟨all.1, all.2.1⟩

end Record

end Interleave
