import Interleave.Code.Value
import Interleave.Fault

namespace Interleave.Code

abbrev Store := List (String × Value)

namespace Store

/-- A variable that was never set is null. -/
def get (store : Store) (name : String) : Value := (store.lookup name).getD .null

def set (store : Store) (name : String) (value : Value) : Store :=
  (name, value) :: store.filter fun binding => binding.1 ≠ name

def select (store : Store) (names : List String) : Store :=
  names.map fun name => (name, store.get name)

end Store

inductive Operator
  | add
  | subtract
  | equal
  | less
  | not
  | concat
  | list
  | at
  | push
  | tail
  | count
  | length
  | empty
  | owner
  | self
  | step
  | ended
deriving DecidableEq

inductive Expr
  | literal (value : Value)
  | variable (name : String)
  | apply (operator : Operator) (arguments : List Expr)

/-- Why an expression has no value: an operation was outside of its range, or its arguments were of
the wrong kinds. -/
inductive Misstep
  | fault (cause : Fault)
  | mismatch (operator : Operator)
deriving DecidableEq

def Misstep.text : Misstep → String
  | fault cause => cause.text
  | mismatch _ => "unexpected kind of value"

namespace Operator

/-- The result of arithmetic, unless it does not fit. -/
def checked (result : Int) (overflow : Fault) : Except Misstep Value :=
  if Value.Fits result then .ok (.number result) else .error (.fault overflow)

def item (items : List Value) (position : Int) : Except Misstep Value :=
  match items[Value.index position]? with
  | some value => .ok value
  | none => .error (.fault (.outOfRange (Value.index position) items.length))

def evaluate (view : View Value) : Operator → List Value → Except Misstep Value
  | .add, [.number left, .number right] => checked (left + right) .additionOverflow
  | .subtract, [.number left, .number right] => checked (left - right) .subtractionOverflow
  | .equal, [left, right] => .ok (.truth (left.agrees right))
  | .less, [.number left, .number right] => .ok (.truth (left < right))
  | .not, [.truth value] => .ok (.truth !value)
  | .concat, values => .ok (.text (String.join (values.map Value.display)))
  | .list, values => .ok (.list values)
  | .at, [.list items, .number position] => item items position
  | .push, [.list items, value] => .ok (.list (items ++ [value]))
  | .tail, [.list items] => .ok (.list items.tail)
  | .count, [.list items] => .ok (.number items.length)
  | .length, [.mailbox address] => .ok (.number (view.mailboxLength address))
  | .empty, [.mailbox address] => .ok (.truth (view.mailboxLength address = 0))
  | .owner, [.mailbox address] => .ok (.number address.owner.index)
  | .self, [] => .ok (.number view.self.index)
  | .step, [] => .ok (.number view.step)
  | .ended, [] => .ok (.truth view.ended)
  | operator, _ => .error (.mismatch operator)

end Operator

namespace Expr

mutual
def evaluate (view : View Value) (store : Store) : Expr → Except Misstep Value
  | .literal value => .ok value
  | .variable name => .ok (store.get name)
  | .apply operator arguments => do
      operator.evaluate view (← evaluateAll view store arguments)

def evaluateAll (view : View Value) (store : Store) :
    List Expr → Except Misstep (List Value)
  | [] => .ok []
  | expr :: rest => do
      return (← expr.evaluate view store) :: (← evaluateAll view store rest)
end

end Expr

end Interleave.Code
