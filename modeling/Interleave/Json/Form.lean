import Interleave.Json.Record
import Interleave.Report

namespace Interleave.Json

/-- How values are written, without blanks, and read. -/
class Form (α : Type) where
  write : α → List Char
  read : Reader α

def encode [Form α] (value : α) : String := String.ofList (Form.write value)

def decode [Form α] (text : String) : Except Problem α := Reader.run Form.read text

namespace Form

def separated (items : List (List Char)) : List Char := (items.intersperse [',']).flatten

def writeList (write : α → List Char) (values : List α) : List Char :=
  '[' :: separated (values.map write) ++ [']']

def writeText (text : String) : List Char := Quoted.write text.toList

def writeMember (member : String × List Char) : List Char :=
  writeText member.1 ++ ':' :: member.2

def writeRecord (members : List (String × List Char)) : List Char :=
  '\x7b' :: separated (members.map writeMember) ++ ['\x7d']

def writeOptional (write : α → List Char) : Option α → List Char
  | some value => write value
  | none => ['n', 'u', 'l', 'l']

instance : Form ActorId where
  write id := writeNatural id.index
  read := ActorId.mk <$> Reader.natural

instance : Form OpKind where
  write kind := writeText kind.text
  read := Variant.read OpKind.ofText?

instance : Form TargetKind where
  write kind := writeText kind.text
  read := Variant.read TargetKind.ofText?

structure OperationPart where
  kind : Option OpKind
  targetKind : Option TargetKind
  target : Option (Option ActorId)

def operationFields : List (Field OperationPart) :=
  [⟨"op_type", fun part => part.kind.isSome, fun part => do
      return { part with kind := some (← Form.read) }⟩,
    ⟨"target_kind", fun part => part.targetKind.isSome, fun part => do
      return { part with targetKind := some (← Form.read) }⟩,
    ⟨"target", fun part => part.target.isSome, fun part => do
      return { part with target := some (← Reader.optional Form.read) }⟩]

/-- A target that is missing is absent. -/
def OperationPart.operation? (part : OperationPart) : Option Operation := do
  return ⟨← part.kind, ← part.targetKind, part.target.getD none⟩

instance : Form Operation where
  write operation := writeRecord
    [("op_type", Form.write operation.kind), ("target_kind", Form.write operation.targetKind),
      ("target", writeOptional Form.write operation.target)]
  read := Record.read "struct Operation" operationFields ⟨none, none, none⟩ OperationPart.operation?

structure SnapshotPart where
  id : Option ActorId
  enabled : Option Bool
  operation : Option Operation
  sendStep : Option (Option Nat)

def snapshotFields : List (Field SnapshotPart) :=
  [⟨"id", fun part => part.id.isSome, fun part => do
      return { part with id := some (← Form.read) }⟩,
    ⟨"enabled", fun part => part.enabled.isSome, fun part => do
      return { part with enabled := some (← Reader.truth) }⟩,
    ⟨"op", fun part => part.operation.isSome, fun part => do
      return { part with operation := some (← Form.read) }⟩,
    ⟨"send_step_index", fun part => part.sendStep.isSome, fun part => do
      return { part with sendStep := some (← Reader.optional Reader.natural) }⟩]

def SnapshotPart.snapshot? (part : SnapshotPart) : Option Snapshot := do
  return ⟨← part.id, ← part.enabled, ← part.operation, part.sendStep.getD none⟩

def writeTruth (value : Bool) : List Char :=
  if value then ['t', 'r', 'u', 'e'] else ['f', 'a', 'l', 's', 'e']

instance : Form Snapshot where
  write snapshot := writeRecord
    [("id", Form.write snapshot.id), ("enabled", writeTruth snapshot.enabled),
      ("op", Form.write snapshot.operation),
      ("send_step_index", writeOptional writeNatural snapshot.sendStep)]
  read :=
    Record.read "struct ActorSnapshot" snapshotFields ⟨none, none, none, none⟩
      SnapshotPart.snapshot?

def traceFields : List (Field (Option Trace)) :=
  [⟨"steps", Option.isSome, fun _ => do return some ⟨← Reader.list Form.read⟩⟩]

instance : Form Trace where
  write trace := writeRecord [("steps", writeList Form.write trace.steps)]
  read := Record.read "struct ScheduleTrace" traceFields none id

structure BugPart where
  iteration : Option Nat
  error : Option String
  trace : Option Trace

def bugFields : List (Field BugPart) :=
  [⟨"iteration", fun part => part.iteration.isSome, fun part => do
      return { part with iteration := some (← Reader.natural) }⟩,
    ⟨"error", fun part => part.error.isSome, fun part => do
      return { part with error := some (String.ofList (← Reader.text)) }⟩,
    ⟨"trace", fun part => part.trace.isSome, fun part => do
      return { part with trace := some (← Form.read) }⟩]

def BugPart.report? (part : BugPart) : Option BugReport := do
  return ⟨← part.iteration, ← part.error, ← part.trace⟩

instance : Form BugReport where
  write bug := writeRecord
    [("iteration", writeNatural bug.iteration), ("error", writeText bug.error),
      ("trace", Form.write bug.trace)]
  read := Record.read "struct BugReport" bugFields ⟨none, none, none⟩ BugPart.report?

end Form

end Interleave.Json
