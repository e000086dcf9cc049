import Interleave.Double.Shortest
import Interleave.Text

namespace Interleave.Json

inductive Found
  | null
  | truth (value : Bool)
  | natural (value : Nat)
  /-- A whole number below zero, by its distance from zero. -/
  | negative (magnitude : Nat)
  /-- Any other number: whether it is below zero, and its distance from zero. -/
  | fraction (below : Bool) (magnitude : Double)
  | quoted (value : List Char)
  | list
  | object

/-- How a value that is well formed differs from the one that is read. -/
inductive Mismatch
  | kind (found : Found) (expected : String)
  | value (found : Found) (expected : String)
  | length (size : Nat) (expected : String)
  | missing (field : String)
  | repeated (field : String)
  | unknown (variant : String)

/-- What stops a reader. -/
inductive Cause
  | unendedList
  | unendedObject
  | unendedText
  | unendedValue
  | expectedColon
  /-- After an item of a list there is neither a comma nor the end. -/
  | unseparatedItem
  | unseparatedMember
  | expectedWord
  | expectedValue
  | expectedName
  | invalidEscape
  | invalidNumber
  | outOfRange
  | controlCharacter
  /-- One half of a character that takes two units. -/
  | loneUnit
  /-- The second unit of a character does not follow the first. -/
  | brokenUnits
  | trailingComma
  | trailing
  | mismatch (reason : Mismatch)

inductive Verdict
  | truncated
  | malformed
  /-- The text is well formed so far, but of another shape than the value that is read. -/
  | mismatched
deriving DecidableEq

/-- A cause, and how many bytes of the text are left after its place. -/
structure Problem where
  cause : Cause
  left : Nat

namespace Found

def text : Found → String
  | null => "null"
  | truth value => s!"boolean \x60{value}\x60"
  | natural value => s!"integer \x60{value}\x60"
  | negative magnitude => s!"integer \x60-{magnitude}\x60"
  | fraction below magnitude =>
      "floating point \x60" ++ (if below then "-" else "") ++ magnitude.text ++ "\x60"
  | quoted value => "string " ++ Text.quoted (String.ofList value)
  | list => "sequence"
  | object => "map"

end Found

namespace Mismatch

def text : Mismatch → String
  | kind found expected => s!"invalid type: {found.text}, expected {expected}"
  | value found expected => s!"invalid value: {found.text}, expected {expected}"
  | length size expected => s!"invalid length {size}, expected {expected}"
  | missing field => s!"missing field \x60{field}\x60"
  | repeated field => s!"duplicate field \x60{field}\x60"
  | unknown variant => s!"unknown variant \x60{variant}\x60"

end Mismatch

namespace Cause

def text : Cause → String
  | unendedList => "EOF while parsing a list"
  | unendedObject => "EOF while parsing an object"
  | unendedText => "EOF while parsing a string"
  | unendedValue => "EOF while parsing a value"
  | expectedColon => "expected \x60:\x60"
  | unseparatedItem => "expected \x60,\x60 or \x60]\x60"
  | unseparatedMember => "expected \x60,\x60 or \x60\x7d\x60"
  | expectedWord => "expected ident"
  | expectedValue => "expected value"
  | expectedName => "key must be a string"
  | invalidEscape => "invalid escape"
  | invalidNumber => "invalid number"
  | outOfRange => "number out of range"
  | controlCharacter => "control character (\\u0000-\\u001F) found while parsing a string"
  | loneUnit => "lone leading surrogate in hex escape"
  | brokenUnits => "unexpected end of hex escape"
  | trailingComma => "trailing comma"
  | trailing => "trailing characters"
  | mismatch reason => reason.text

def verdict : Cause → Verdict
  | unendedList | unendedObject | unendedText | unendedValue => .truncated
  | mismatch _ => .mismatched
  | _ => .malformed

end Cause

def bytes (text : List Char) : Nat :=
  text.foldr (fun char size => char.utf8Size + size) 0

/-- The line and the bytes of its part before a place that comes after so many bytes, counted on
from a line and a column. -/
def place : List Char → (count line column : Nat) → Nat × Nat
  | [], _, line, column => (line, column)
  | char :: rest, count, line, column =>
      if count = 0 then (line, column)
      else if char = '\n' then place rest (count - 1) (line + 1) 0
      else place rest (count - char.utf8Size) line (column + min count char.utf8Size)

namespace Problem

def verdict (problem : Problem) : Verdict := problem.cause.verdict

def text (problem : Problem) (written : String) : String :=
  let (line, column) := place written.toList (bytes written.toList - problem.left) 1 0
  s!"{problem.cause.text} at line {line} column {column}"

end Problem

end Interleave.Json
