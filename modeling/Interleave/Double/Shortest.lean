import Interleave.Double

namespace Interleave

structure Decimal where
  digits : Nat
  exponent : Int
deriving DecidableEq

namespace Decimal

def round (decimal : Decimal) : Double :=
  .nearest (decimal.digits * Nat.pow 10 decimal.exponent.toNat * Double.scale)
    (Nat.pow 10 (-decimal.exponent).toNat)

def zeros (count : Int) : List Char := List.replicate count.toNat '0'

/-- From the fifth place after the point up to sixteen digits before it, the digits are written in
their places. Otherwise the first digit stands alone before the point, and the power of ten that it
counts is written with its sign. -/
def write (decimal : Decimal) : List Char :=
  let digits := Nat.toDigits 10 decimal.digits
  let power : Int := digits.length - 1 + decimal.exponent
  if -5 ≤ power ∧ power ≤ 15 then
    if 0 ≤ decimal.exponent then digits ++ zeros decimal.exponent ++ ['.', '0']
    else if 0 ≤ power then
      digits.take (power.toNat + 1) ++ '.' :: digits.drop (power.toNat + 1)
    else '0' :: '.' :: zeros (-power - 1) ++ digits
  else
    let fraction := digits.drop 1
    digits.take 1 ++ (if fraction.isEmpty then [] else '.' :: fraction) ++
      'e' :: (if power < 0 then '-' else '+') :: Nat.toDigits 10 power.natAbs

end Decimal

namespace Double

/-- The multiples of a power of ten on both sides of a number, the nearer one first. Of two that are
equally near the first is the even one. -/
def neighbours (double : Double) (exponent : Int) : List Decimal :=
  let grid := Nat.pow 10 exponent.toNat * scale
  let scaled := double.units * Nat.pow 10 (-exponent).toNat
  let below : Decimal := ⟨scaled / grid, exponent⟩
  let above : Decimal := ⟨scaled / grid + 1, exponent⟩
  let twice := 2 * (scaled % grid)
  if grid < twice ∨ (twice = grid ∧ below.digits % 2 = 1) then [above, below] else [below, above]

/-- The powers of ten, the largest first. Every number rounds to itself from one of their
multiples. -/
def exponents : List Int := (List.range 633).map fun (index : Nat) => (308 : Int) - index

/-- A larger power of ten leaves fewer digits. -/
def shortest? (double : Double) : Option Decimal :=
  exponents.findSome? fun exponent =>
    (double.neighbours exponent).find? fun decimal => decimal.round = double

def text (double : Double) : String :=
  if double = zero then "0.0"
  else String.ofList ((double.shortest?.getD ⟨0, 0⟩).write)

theorem round_shortest {double : Double} {decimal : Decimal}
    (printed : double.shortest? = some decimal) : decimal.round = double := by
  obtain ⟨exponent, _, found⟩ := List.exists_of_findSome?_eq_some printed
  simpa using List.find?_some found

end Double

end Interleave
