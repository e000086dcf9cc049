import Interleave.Fault
import Interleave.Json.Reader

namespace Interleave.Json

structure Numeral where
  whole : List Char
  fraction : Option (List Char)
  /-- Whether it is negative, and its digits. -/
  exponent : Option (Bool × List Char)

namespace Numeral

def takeDigits : Reader (List Char) :=
  modifyGet fun text => (text.takeWhile Char.isDigit, text.dropWhile Char.isDigit)

/-- At least one digit. If the text ends before it, the cause is `atEnd`. -/
def digits (atEnd : Cause) : Reader (List Char) := do
  match ← takeDigits, ← get with
  | [], [] => Reader.blocked atEnd
  | [], _ => Reader.blocked .invalidNumber
  | digits, _ => return digits

def startsWithDigit (text : List Char) : Bool := text.head?.any Char.isDigit

/-- No digit may follow a zero at the start. -/
def startDigits (atEnd : Cause) : Reader (List Char) := do
  if (← get).head? = some '0' then
    Reader.drop
    if startsWithDigit (← get) then Reader.blocked .invalidNumber
    return ['0']
  else digits atEnd

def read (atEnd : Cause) : Reader Numeral := do
  let whole ← startDigits atEnd
  let fraction ←
    if (← get).head? = some '.' then
      Reader.drop
      some <$> digits atEnd
    else pure none
  let exponent ←
    if (← get).head? = some 'e' ∨ (← get).head? = some 'E' then
      Reader.drop
      let sign := (← get).head?
      if sign = some '+' ∨ sign = some '-' then Reader.drop
      some <$> Prod.mk (decide (sign = some '-')) <$> digits atEnd
    else pure none
  return ⟨whole, fraction, exponent⟩

def digitValue (digit : Char) : Nat := digit.toNat - '0'.toNat

def extend (number : Nat) (digits : List Char) : Nat :=
  digits.foldl (fun number digit => number * 10 + digitValue digit) number

/-- The number that the digits continue, as far as it stays below the limit, and the digits that are
left. -/
def extendBelow (limit number : Nat) : List Char → Nat × List Char
  | [] => (number, [])
  | digit :: rest =>
      let longer := number * 10 + digitValue digit
      if longer < limit then extendBelow limit longer rest else (number, digit :: rest)

/-- The number of double precision that is written out, if it is within the range. The significand
is made of the digits that fit into a machine word; the others count for the exponent only. -/
def magnitude? (numeral : Numeral) : Option Double :=
  let (whole, beyond) := extendBelow wordSize 0 numeral.whole
  let fraction := numeral.fraction.getD []
  let (significand, ignored) := extendBelow wordSize whole fraction
  let shift : Int := beyond.length - (fraction.length - ignored.length)
  let exponent : Int :=
    match numeral.exponent with
    | none => shift
    | some (true, digits) => shift - extend 0 digits
    | some (false, digits) => shift + extend 0 digits
  let significand := Double.ofNat significand
  if exponent < 0 then some (significand.shiftDown exponent.natAbs)
  else significand.shiftUp? exponent.toNat

/-- The digits that are not looked at in a numeral beyond the range: those after the digit with
which the exponent leaves half of a word of 32 bits. -/
def unseen (numeral : Numeral) : Nat :=
  match numeral.exponent with
  | some (false, digits) => (extendBelow (Nat.pow 2 31) 0 digits).2.length - 1
  | _ => 0

/-- The whole number that is written out, if it is one that a word holds. -/
def whole? (negative : Bool) : Numeral → Option Found
  | ⟨digits, none, none⟩ =>
      let value := extend 0 digits
      if negative then
        if 0 < value ∧ 2 * value ≤ wordSize then some (.negative value) else none
      else if value < wordSize then some (.natural value) else none
  | _ => none

end Numeral

def number (negative : Bool) : Reader Found := do
  let numeral ← Numeral.read .unendedValue
  match numeral.whole? negative, numeral.magnitude? with
  | some found, _ => return found
  | none, some magnitude => return .fraction negative magnitude
  | none, none => fun rest => .error ⟨.outOfRange, bytes rest + numeral.unseen⟩

def skipNumber : Reader Unit := do
  let _ ← Numeral.read .invalidNumber

def writeNatural (number : Nat) : List Char := Nat.toDigits 10 number

end Interleave.Json
