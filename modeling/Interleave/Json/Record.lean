import Interleave.Json.Value

/-!
Records and variants in a JSON text. A record is an object with its fields in any order, or a list
with exactly its fields in their order. A variant is its name, or an object with its name and null.
-/

namespace Interleave.Json

/-- A field of a record of which a part `π` has been read. -/
structure Field (π : Type) where
  name : String
  isRead : π → Bool
  read : π → Reader π

namespace Record

def wholeList (title : String) (fields : List (Field π)) : String :=
  s!"{title} with {fields.length} element" ++ if fields.length = 1 then "" else "s"

/-- The fields in order, up to the end of the list. Before them there were `before` fields. -/
def positional (expected : String) : List (Field π) → (before : Nat) → π → Reader π
  | [], _, part => do
      Reader.endList
      return part
  | field :: rest, before, part => do
      if ← Reader.anotherExpected .list (before = 0) then
        positional expected rest (before + 1) (← field.read part)
      else Reader.refuseAll .list (.length before expected)

/-- The members up to the end of the object, at most so many. A member that is no field is passed
over, and a field must not be repeated. -/
def named (fields : List (Field π)) : Nat → Bool → π → Reader π
  | 0, _, _ => Reader.blocked .unendedObject
  | most + 1, first, part => do
      if ← Reader.anotherExpected .object first then
        Reader.openName
        let name ← Reader.quoted
        match fields.find? fun field => field.name.toList = name with
        | none =>
            Reader.colon
            Reader.skip
            named fields most false part
        | some field =>
            if field.isRead part then Reader.refuseAll .object (.repeated field.name)
            Reader.colon
            named fields most false (← field.read part)
      else
        Reader.drop
        return part

def missing (fields : List (Field π)) (part : π) : String :=
  ((fields.find? fun field => !field.isRead part).map Field.name).getD ""

/-- Reads the fields of a record, and makes the record of them unless one is missing. Fields that
may be missing come last. -/
def read (title : String) (fields : List (Field π)) (start : π) (make : π → Option α) :
    Reader α := do
  let part ←
    match ← Reader.peek with
    | none => Reader.blocked .unendedValue
    | some '[' =>
        Reader.drop
        positional (wholeList title fields) fields 0 start
    | some '\x7b' =>
        Reader.drop
        named fields ((← get).length + 1) true start
    | some _ => Reader.refuseFound title
  match make part with
  | some record => return record
  | none => Reader.refuse (.missing (missing fields part))

end Record

namespace Variant

/-- The variant of a name that is read, after its quote. -/
def byName (ofText? : String → Option α) : Reader α := do
  let name := String.ofList (← Reader.quoted)
  match ofText? name with
  | some variant => return variant
  | none => Reader.refuse (.unknown name)

def read (ofText? : String → Option α) : Reader α := do
  match ← Reader.peek with
  | none => Reader.blocked .unendedValue
  | some '\"' =>
      Reader.drop
      byName ofText?
  | some '\x7b' =>
      Reader.drop
      Reader.openName
      let variant ← byName ofText?
      Reader.colon
      Reader.null
      Reader.mark '\x7d' .expectedValue
      return variant
  | some _ => Reader.blocked .expectedValue

end Variant

end Interleave.Json
