import Interleave.Json.Number
import Interleave.Json.Quoted

namespace Interleave.Json

namespace Reader

def quoted : Reader (List Char) := fun text => Quoted.content text

def skipQuoted : Reader Unit := fun text => (Quoted.skip text).map fun rest => ((), rest)

/-- The value that is next. It is consumed, unless it is a list or an object. -/
def found : Reader Found := do
  match ← peek with
  | none => blocked .unendedValue
  | some char =>
      match char with
      | 'n' => word ['n', 'u', 'l', 'l']; return .null
      | 't' => word ['t', 'r', 'u', 'e']; return .truth true
      | 'f' => word ['f', 'a', 'l', 's', 'e']; return .truth false
      | '\"' => drop; return .quoted (← quoted)
      | '-' => drop; number true
      | '[' => return .list
      | '\x7b' => return .object
      | _ => if char.isDigit then number false else blocked .expectedValue

/-- Reads the value that is next, to refuse it. -/
def refuseFound (expected : String) : Reader α := do
  refuse (.kind (← found) expected)

def null : Reader Unit := do
  match ← found with
  | .null => return
  | found => refuse (.kind found "unit")

def truth : Reader Bool := do
  match ← found with
  | .truth value => return value
  | found => refuse (.kind found "a boolean")

def natural : Reader Nat := do
  match ← found with
  | .natural value => return value
  | .negative magnitude => refuse (.value (.negative magnitude) "usize")
  | found => refuse (.kind found "usize")

def text : Reader (List Char) := do
  match ← found with
  | .quoted value => return value
  | found => refuse (.kind found "a string")

def optional (read : Reader α) : Reader (Option α) := do
  if (← peek) = some 'n' then
    word ['n', 'u', 'l', 'l']
    return none
  else return some (← read)

def items (read : Reader α) : Nat → Bool → Reader (List α)
  | 0, _ => blocked .unendedList
  | most + 1, first => do
      if ← anotherExpected .list first then
        let item ← read
        return item :: (← items read most false)
      else
        drop
        return []

def list (read : Reader α) : Reader (List α) := do
  match ← peek with
  | none => blocked .unendedValue
  | some '[' =>
      drop
      items read ((← get).length + 1) true
  | some _ => refuseFound "a sequence"

mutual
/-- Passes over a value. Nothing is nested deeper than `depth`. -/
def skipValue : Nat → Reader Unit
  | 0 => blocked .unendedValue
  | depth + 1 => do
      match ← peek with
      | none => blocked .unendedValue
      | some char =>
          match char with
          | 'n' => word ['n', 'u', 'l', 'l']
          | 't' => word ['t', 'r', 'u', 'e']
          | 'f' => word ['f', 'a', 'l', 's', 'e']
          | '\"' => drop; skipQuoted
          | '-' => drop; skipNumber
          | '[' => drop; skipItems depth true
          | '\x7b' => drop; skipMembers depth true
          | _ => if char.isDigit then skipNumber else blocked .expectedValue

def skipItems : Nat → Bool → Reader Unit
  | 0, _ => blocked .unendedList
  | depth + 1, first => do
      if ← another .list first then
        skipValue depth
        skipItems depth false
      else drop

def skipMembers : Nat → Bool → Reader Unit
  | 0, _ => blocked .unendedObject
  | depth + 1, first => do
      if ← another .object first then
        openName
        skipQuoted
        colon
        skipValue depth
        skipMembers depth false
      else drop
end

/-- A value is nested less deeply than it is long. -/
def skip : Reader Unit := do skipValue (2 * (← get).length + 1)

end Reader

end Interleave.Json
