import Interleave.Proofs.Json.Ranges
import Interleave.Proofs.Json.Records

namespace Interleave

def Operation.InWords (operation : Operation) : Prop :=
  ∀ target ∈ operation.target, target.index < wordSize

structure Snapshot.InWords (snapshot : Snapshot) : Prop where
  id : snapshot.id.index < wordSize
  operation : snapshot.operation.InWords
  sendStep : ∀ step ∈ snapshot.sendStep, step < wordSize

def Trace.InWords (trace : Trace) : Prop := ∀ actor ∈ trace.steps, actor.index < wordSize

structure BugReport.InWords (bug : BugReport) : Prop where
  iteration : bug.iteration < wordSize
  trace : bug.trace.InWords

namespace Json

variable {α : Type}

open Form Reader Interleave.Json.Record

theorem forall_mem_some {kind : α → Prop} {value : α} (holds : kind value) :
    ∀ found ∈ some value, kind found := by
  rintro _ ⟨⟩
  exact holds

theorem forall_mem_getD {kind : α → Prop} {read : Option (Option α)}
    (each : ∀ content ∈ read, ∀ value ∈ content, kind value) :
    ∀ value ∈ read.getD none, kind value := by
  cases read with
  | none => simp
  | some content => exact each content rfl

theorem takes_actor {actor : ActorId} (inWord : actor.index < wordSize) :
    Takes Form.read (Form.write actor) actor :=
  (takes_natural inWord).map ActorId.mk

theorem yields_actor : Yields (Form.read : Reader ActorId) fun actor => actor.index < wordSize :=
  yields_natural.map fun _ holds => holds

theorem takes_opKind (kind : OpKind) : Takes Form.read (Form.write kind) kind :=
  Variant.takes_variant kind.ofText?_text

theorem takes_targetKind (kind : TargetKind) : Takes Form.read (Form.write kind) kind :=
  Variant.takes_variant kind.ofText?_text

theorem takes_operation {operation : Operation} (inWords : operation.InWords) :
    Takes Form.read (Form.write operation) operation := by
  have target : (optional Form.read).Takes
      (Form.writeOptional Form.write operation.target) operation.target :=
    takes_optional fun actor member => ⟨opens_writeNatural _, takes_actor (inWords actor member)⟩
  exact takes_record _
    (.member _ rfl rfl ((takes_opKind operation.kind).bind_pure _) <|
      .member _ rfl rfl ((takes_targetKind operation.targetKind).bind_pure _) <|
      .member _ rfl rfl (target.bind_pure _) <|
      .done _)
    rfl

def Form.OperationPart.InWords (part : OperationPart) : Prop :=
  ∀ target ∈ part.target, ∀ actor ∈ target, actor.index < wordSize

theorem keep_operation : Keep operationFields OperationPart.InWords := by
  simp only [Keep, operationFields, List.forall_mem_cons]
  refine ⟨fun part holds => ?kind, fun part holds => ?targetKind, fun part _ => ?target, by simp⟩
  case kind => exact yields_bind _ fun _ => yields_pure holds
  case targetKind => exact yields_bind _ fun _ => yields_pure holds
  case target =>
      exact (yields_optional yields_actor).bind fun _ inWord => yields_pure (forall_mem_some inWord)

theorem yields_operation : Yields (Form.read : Reader Operation) Operation.InWords := by
  refine yields_record _ keep_operation (by simp [OperationPart.InWords]) ?_
  intro part operation holds made
  simp only [OperationPart.operation?, Option.bind_eq_bind, Option.bind_eq_some_iff,
    Option.pure_def, Option.some.injEq] at made
  obtain ⟨kind, -, targetKind, -, rfl⟩ := made
  exact forall_mem_getD holds

theorem takes_snapshot {snapshot : Snapshot} (inWords : snapshot.InWords) :
    Takes Form.read (Form.write snapshot) snapshot := by
  have sendStep : (optional natural).Takes
      (Form.writeOptional writeNatural snapshot.sendStep) snapshot.sendStep :=
    takes_optional fun step member =>
      ⟨opens_writeNatural _, takes_natural (inWords.sendStep step member)⟩
  exact takes_record _
    (.member _ rfl rfl ((takes_actor inWords.id).bind_pure _) <|
      .member _ rfl rfl ((takes_truth snapshot.enabled).bind_pure _) <|
      .member _ rfl rfl ((takes_operation inWords.operation).bind_pure _) <|
      .member _ rfl rfl (sendStep.bind_pure _) <|
      .done _)
    rfl

structure Form.SnapshotPart.InWords (part : SnapshotPart) : Prop where
  id : ∀ id ∈ part.id, id.index < wordSize
  operation : ∀ operation ∈ part.operation, operation.InWords
  sendStep : ∀ sendStep ∈ part.sendStep, ∀ step ∈ sendStep, step < wordSize

theorem keep_snapshot : Keep snapshotFields SnapshotPart.InWords := by
  simp only [Keep, snapshotFields, List.forall_mem_cons]
  refine ⟨fun part holds => ?id, fun part holds => ?enabled, fun part holds => ?operation,
    fun part holds => ?sendStep, by simp⟩
  case id =>
      exact yields_actor.bind fun _ inWord =>
        yields_pure ⟨forall_mem_some inWord, holds.operation, holds.sendStep⟩
  case enabled =>
      exact yields_bind _ fun _ => yields_pure ⟨holds.id, holds.operation, holds.sendStep⟩
  case operation =>
      exact yields_operation.bind fun _ inWords =>
        yields_pure ⟨holds.id, forall_mem_some inWords, holds.sendStep⟩
  case sendStep =>
      exact (yields_optional yields_natural).bind fun _ inWord =>
        yields_pure ⟨holds.id, holds.operation, forall_mem_some inWord⟩

theorem yields_snapshot : Yields (Form.read : Reader Snapshot) Snapshot.InWords := by
  refine yields_record _ keep_snapshot (by constructor <;> simp) ?_
  intro part snapshot holds made
  simp only [SnapshotPart.snapshot?, Option.bind_eq_bind, Option.bind_eq_some_iff,
    Option.pure_def, Option.some.injEq] at made
  obtain ⟨id, hasId, enabled, -, operation, hasOperation, rfl⟩ := made
  exact ⟨holds.id id hasId, holds.operation operation hasOperation, forall_mem_getD holds.sendStep⟩

theorem takes_trace {trace : Trace} (inWords : trace.InWords) :
    Takes Form.read (Form.write trace) trace := by
  have steps : (list Form.read).Takes (Form.writeList Form.write trace.steps) trace.steps :=
    takes_list fun actor member => ⟨opens_writeNatural _, takes_actor (inWords actor member)⟩
  exact takes_record _ (.member _ rfl rfl (steps.bind_pure _) <| .done _) rfl

theorem keep_trace : Keep traceFields fun part => ∀ trace ∈ part, trace.InWords := by
  simp only [Keep, traceFields, List.forall_mem_cons]
  refine ⟨fun part _ => ?_, by simp⟩
  exact (yields_list yields_actor).bind fun _ inWord => yields_pure (forall_mem_some inWord)

theorem yields_trace : Yields (Form.read : Reader Trace) Trace.InWords :=
  yields_record _ keep_trace (by simp) fun _ trace holds made => holds trace made

theorem takes_bugReport {bug : BugReport} (inWords : bug.InWords) :
    Takes Form.read (Form.write bug) bug := by
  refine takes_record _
    (.member _ rfl rfl ((takes_natural inWords.iteration).bind_pure _) <|
      .member _ rfl rfl ((takes_text bug.error).bind_pure _) <|
      .member _ rfl rfl ((takes_trace inWords.trace).bind_pure _) <|
      .done _) ?_
  simp only [Form.BugPart.report?, String.ofList_toList]
  rfl

-- the fields in order and no blanks, and escapes by a letter or by a number
example :
    encode (⟨7, "a \"b\"\n\x01", ⟨[⟨0⟩, ⟨12⟩]⟩⟩ : BugReport) =
      "\x7b\"iteration\":7,\"error\":\"a \\\"b\\\"\\n\\u0001\"," ++
        "\"trace\":\x7b\"steps\":[0,12]\x7d\x7d" := by
  decide

structure Form.BugPart.InWords (part : BugPart) : Prop where
  iteration : ∀ iteration ∈ part.iteration, iteration < wordSize
  trace : ∀ trace ∈ part.trace, trace.InWords

theorem keep_bugReport : Keep bugFields BugPart.InWords := by
  simp only [Keep, bugFields, List.forall_mem_cons]
  refine ⟨fun part holds => ?iteration, fun part holds => ?error, fun part holds => ?trace,
    by simp⟩
  case iteration =>
      exact yields_natural.bind fun _ inWord =>
        yields_pure ⟨forall_mem_some inWord, holds.trace⟩
  case error => exact yields_bind _ fun _ => yields_pure ⟨holds.iteration, holds.trace⟩
  case trace =>
      exact yields_trace.bind fun _ inWords =>
        yields_pure ⟨holds.iteration, forall_mem_some inWords⟩

theorem yields_bugReport : Yields (Form.read : Reader BugReport) BugReport.InWords := by
  refine yields_record _ keep_bugReport (by constructor <;> simp) ?_
  intro part bug holds made
  simp only [BugPart.report?, Option.bind_eq_bind, Option.bind_eq_some_iff, Option.pure_def,
    Option.some.injEq] at made
  obtain ⟨iteration, hasIteration, error, -, trace, hasTrace, rfl⟩ := made
  exact ⟨holds.iteration iteration hasIteration, holds.trace trace hasTrace⟩

/-- From its text the value is read again, and nothing of the text is left. -/
structure RoundTrips [Form α] (value : α) : Prop where
  returned : Returns Form.read (encode value).toList value []
  decoded : decode (encode value) = .ok value

theorem roundTrips_iff
    [Form α] {kind : α → Prop}
    (takes : ∀ {value : α}, kind value → Takes Form.read (Form.write value) value)
    (yields : Yields Form.read kind) (value : α) : RoundTrips value ↔ kind value := by
  constructor
  · intro trips
    exact yields trips.returned
  · intro holds
    constructor
    · rw [encode, String.toList_ofList]
      simpa using takes holds .text
    · exact run_of_takes (takes holds)

/-- What is written is read back, with nothing left over, exactly if a machine word holds each of
its numbers. -/
theorem decode_encode :
    (∀ trace : Trace, RoundTrips trace ↔ trace.InWords) ∧
      (∀ bug : BugReport, RoundTrips bug ↔ bug.InWords) ∧
      (∀ operation : Operation, RoundTrips operation ↔ operation.InWords) ∧
      ∀ snapshot : Snapshot, RoundTrips snapshot ↔ snapshot.InWords :=
  ⟨roundTrips_iff takes_trace yields_trace, roundTrips_iff takes_bugReport yields_bugReport,
    roundTrips_iff takes_operation yields_operation, roundTrips_iff takes_snapshot yields_snapshot⟩

/-- The greatest word, and every kind of escape. -/
theorem decode_encode_greatest :
    let trace : Trace := ⟨[⟨wordSize - 1⟩, .root, ⟨10⟩]⟩
    let bug : BugReport := ⟨wordSize - 1, "\"\\/\n\r\t\x00\x08\x0c\x1f\x7fé\u2028😀", trace⟩
    let snapshot : Snapshot := ⟨⟨wordSize - 1⟩, true, .receive ⟨3⟩, some (wordSize - 1)⟩
    RoundTrips trace ∧ RoundTrips bug ∧ RoundTrips Operation.create ∧ RoundTrips snapshot := by
  have trace : Trace.InWords ⟨[⟨wordSize - 1⟩, .root, ⟨10⟩]⟩ := by
    simp [Trace.InWords, ActorId.root, wordSize]
  refine ⟨(decode_encode.1 _).mpr trace, (decode_encode.2.1 _).mpr ⟨by decide, trace⟩,
    (decode_encode.2.2.1 _).mpr ?_, (decode_encode.2.2.2 _).mpr ⟨by decide, ?_, ?_⟩⟩
  · simp [Operation.InWords, Operation.create]
  · simp [Operation.InWords, Operation.receive, wordSize]
  · simp [wordSize]

end Json

end Interleave
