import Interleave.Machine.Body

namespace Interleave.Code

inductive Value
  | null
  | truth (value : Bool)
  | number (value : Int)
  | text (value : String)
  | list (items : List Value)
  | mailbox (address : Address)

namespace Value

/-- Numbers have 64 bits, with a sign. -/
def Fits (number : Int) : Prop := -Int.pow 2 63 ≤ number ∧ number < Int.pow 2 63

instance (number : Int) : Decidable (Fits number) := by
  unfold Fits
  infer_instance

/-- The position that a number stands for. One below zero counts from the end of a word's range. -/
def index (number : Int) : Nat := (number % wordSize).toNat

def addressText (address : Address) : String :=
  "Mailbox \x7b owner: " ++ address.owner.tagged ++ " \x7d"

mutual
/-- A list is written without spaces. -/
def display : Value → String
  | .null => "null"
  | .truth value => toString value
  | .number value => toString value
  | .text value => value
  | .list items => "[" ++ String.intercalate "," (displayAll items) ++ "]"
  | .mailbox address => addressText address

def displayAll : List Value → List String
  | [] => []
  | value :: rest => value.display :: displayAll rest
end

mutual
/-- Equal kind and content. A mailbox equals nothing, not even itself. -/
def agrees : Value → Value → Bool
  | .null, .null => true
  | .truth left, .truth right => left = right
  | .number left, .number right => left = right
  | .text left, .text right => left = right
  | .list left, .list right => agreeAll left right
  | _, _ => false

def agreeAll : List Value → List Value → Bool
  | [], [] => true
  | left :: lefts, right :: rights => left.agrees right && agreeAll lefts rights
  | _, _ => false
end

end Value

end Interleave.Code
