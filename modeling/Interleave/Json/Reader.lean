import Interleave.Json.Problem

namespace Interleave.Json

/-- Reads a value from the start of a text and leaves the rest. -/
abbrev Reader (α : Type) := StateT (List Char) (Except Problem) α

inductive Enclosure
  | list
  | object

namespace Enclosure

def closing : Enclosure → Char
  | list => ']'
  | object => '\x7d'

def unended : Enclosure → Cause
  | list => .unendedList
  | object => .unendedObject

def unseparated : Enclosure → Cause
  | list => .unseparatedItem
  | object => .unseparatedMember

end Enclosure

namespace Reader

def isBlank (char : Char) : Bool :=
  char = ' ' || char = '\n' || char = '\t' || char = '\r'

def skipBlanks : Reader Unit := modify (List.dropWhile isBlank)

/-- The first character after blanks. It is not consumed. -/
def peek : Reader (Option Char) := do
  skipBlanks
  return (← get).head?

def drop : Reader Unit := modify List.tail

/-- The next character is in the way, or the end of the text. The place is after its first byte. -/
def blocked (cause : Cause) : Reader α := fun text => .error ⟨cause, bytes text - 1⟩

/-- The text that has been read so far is well formed, but is not what is expected. -/
def refuse (mismatch : Mismatch) : Reader α := fun text => .error ⟨.mismatch mismatch, bytes text⟩

/-- Refuses a list or an object. If it ends here, the place is after its end. -/
def refuseAll (enclosure : Enclosure) (mismatch : Mismatch) : Reader α := do
  if (← peek) = some enclosure.closing then drop
  refuse mismatch

def word : List Char → Reader Unit
  | [] => return
  | expected :: more => do
      match (← get).head? with
      | none => blocked .unendedValue
      | some char =>
          if char ≠ expected then blocked .expectedWord
          drop
          word more

def mark (expected : Char) (otherwise : Cause) : Reader Unit := do
  match ← peek with
  | none => blocked .unendedObject
  | some char => if char = expected then drop else blocked otherwise

def colon : Reader Unit := mark ':' .expectedColon

def openName : Reader Unit := mark '\"' .expectedName

/-- Whether another value follows before the end, which is not consumed. Values are separated by
commas, which are consumed. -/
def another (enclosure : Enclosure) (first : Bool) : Reader Bool := do
  match ← peek with
  | none => blocked enclosure.unended
  | some char =>
      if char = enclosure.closing then return false
      else if first then return true
      else if char = ',' then
        drop
        return true
      else blocked enclosure.unseparated

/-- As `another`, but a comma at the end is noticed at once. -/
def anotherExpected (enclosure : Enclosure) (first : Bool) : Reader Bool := do
  if ← another enclosure first then
    match ← peek with
    | none => blocked .unendedValue
    | some char =>
        if char = enclosure.closing then blocked .trailingComma
        return true
  else return false

/-- The end of a list that is known to have no more items. -/
def endList : Reader Unit := do
  match ← peek with
  | none => blocked .unendedList
  | some char =>
      if char = ']' then drop
      else
        if char ≠ ',' then blocked .trailing
        drop
        if (← peek) = some ']' then blocked .trailingComma else blocked .trailing

def finish : Reader Unit := do
  if (← peek).isSome then blocked .trailing

def run (reader : Reader α) (text : String) : Except Problem α :=
  (do
    let value ← reader
    finish
    return value : Reader α).run' text.toList

theorem skipBlanks_cons {char : Char} {rest : List Char} (visible : isBlank char = false) :
    skipBlanks (char :: rest) = .ok ((), char :: rest) := by
  change Except.ok ((), (char :: rest).dropWhile isBlank) = _
  rw [List.dropWhile_cons_of_neg (by simp [visible])]

theorem peek_cons {char : Char} {rest : List Char} (visible : isBlank char = false) :
    peek (char :: rest) = .ok (some char, char :: rest) := by
  change (skipBlanks (char :: rest) >>= fun found => Except.ok (found.2.head?, found.2)) = _
  rw [skipBlanks_cons visible]
  rfl

end Reader

end Interleave.Json
