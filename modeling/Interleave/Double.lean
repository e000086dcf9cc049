/-!
Numbers of double precision, without a sign. Each is a natural multiple of the least positive one
and has at most 53 significant binary digits.
-/

namespace Interleave

/-- The number `units / 2 ^ 1074`. -/
structure Double where
  units : Nat
deriving DecidableEq

namespace Double

def scale : Nat := Nat.pow 2 1074

/-- How far the numbers with 53 significant digits are apart from so many units on. -/
def spacing (units : Nat) : Nat := Nat.pow 2 (units.log2 - 52)

/-- The number nearest to a quotient of units. A tie goes to the one with an even last digit. -/
def nearest (numerator denominator : Nat) : Double :=
  let step := spacing (numerator / denominator)
  let quotient := numerator / (denominator * step)
  let twice := 2 * (numerator % (denominator * step))
  if denominator * step < twice ∨ (twice = denominator * step ∧ quotient % 2 = 1) then
    ⟨(quotient + 1) * step⟩
  else ⟨quotient * step⟩

def zero : Double := ⟨0⟩

def ofNat (number : Nat) : Double := nearest (number * scale) 1

def powerOfTen (exponent : Nat) : Double := ofNat (Nat.pow 10 exponent)

instance : Mul Double where
  mul left right := nearest (left.units * right.units) scale

instance : Div Double where
  div left right := nearest (left.units * scale) right.units

def isFinite (double : Double) : Bool := double.units < Nat.pow 2 1024 * scale

/-- Divides by a power of ten, in steps within the range. -/
def shiftDown (double : Double) (exponent : Nat) : Double :=
  if exponent ≤ 308 then double / powerOfTen exponent
  else if double = zero then zero
  else shiftDown (double / powerOfTen 308) (exponent - 308)
termination_by exponent

/-- The product with a power of ten, if it is within the range. -/
def shiftUp? (double : Double) (exponent : Nat) : Option Double :=
  if double = zero then some zero
  else if 308 < exponent then none
  else
    let product := double * powerOfTen exponent
    if product.isFinite then some product else none

end Double

end Interleave
