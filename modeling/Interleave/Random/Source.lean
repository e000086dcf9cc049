import Interleave.Random.Block

namespace Interleave.Random

/-- The words of the current block that have not been drawn yet, and the number of the next. -/
structure Source where
  key : Key
  next : UInt64
  pending : List UInt32

inductive Width
  | narrow
  | wide

namespace Width

def bits : Width → Nat
  | narrow => 32
  | wide => 64

end Width

/-- The largest low half that a bounded draw accepts: all of them, but for the incomplete last
share. -/
def zone (width : Width) (bound : Nat) : Nat :=
  bound * Nat.pow 2 (width.bits - (bound.log2 + 1)) - 1

namespace Source

def ofSeed (seed : Nat) : Source := ⟨Key.ofSeed (.ofNat seed), 0, []⟩

def refill (source : Source) : Source :=
  { source with
    next := source.next + 1
    pending := (Block.generate source.key source.next).toList }

def word (source : Source) : UInt32 × Source :=
  match source.pending with
  | head :: rest => (head, { source with pending := rest })
  | [] =>
      let full := source.refill
      (full.pending.headD 0, { full with pending := full.pending.tail })

/-- One word, or two with the low half first. -/
def draw (width : Width) (source : Source) : Nat × Source :=
  let (low, afterLow) := source.word
  match width with
  | .narrow => (low.toNat, afterLow)
  | .wide =>
      let (high, afterHigh) := afterLow.word
      (high.toNat * Nat.pow 2 32 + low.toNat, afterHigh)

/-- Draws until the low half of the product with the bound is accepted. Every draw is accepted
with a chance of more than one half, so the number of attempts is no limit in practice. -/
def belowWithin (width : Width) (bound : Nat) : Nat → Source → Nat × Source
  | 0, source => (0, source)
  | attempts + 1, source =>
      let drawn := source.draw width
      let product := drawn.1 * bound
      if product % Nat.pow 2 width.bits ≤ zone width bound then
        (product / Nat.pow 2 width.bits, drawn.2)
      else belowWithin width bound attempts drawn.2

def attemptLimit : Nat := 256

/-- A number less than the bound, which is at least one. -/
def below (width : Width) (bound : Nat) (source : Source) : Nat × Source :=
  belowWithin width bound attemptLimit source

def between (low high : Nat) (source : Source) : Nat × Source :=
  let drawn := source.below .wide (high - low + 1)
  (low + drawn.1, drawn.2)

theorem draw_lt (width : Width) (source : Source) :
    (source.draw width).1 < Nat.pow 2 width.bits := by
  have bounded (source : Source) : source.word.1.toNat < Nat.pow 2 32 := source.word.1.toNat_lt
  cases width with
  | narrow => exact bounded source
  | wide =>
      have low_lt := bounded source
      have high_lt := bounded source.word.2
      change source.word.2.word.1.toNat * 4294967296 + source.word.1.toNat < 18446744073709551616
      change source.word.1.toNat < 4294967296 at low_lt
      change source.word.2.word.1.toNat < 4294967296 at high_lt
      omega

theorem belowWithin_lt (width : Width) {bound : Nat} (positive : 0 < bound) (attempts : Nat)
    (source : Source) : (belowWithin width bound attempts source).1 < bound := by
  induction attempts generalizing source with
  | zero => exact positive
  | succ attempts induction =>
      simp only [belowWithin]
      split
      · apply (Nat.div_lt_iff_lt_mul (Nat.two_pow_pos width.bits)).mpr
        rw [Nat.mul_comm bound]
        exact Nat.mul_lt_mul_of_pos_right (draw_lt width source) positive
      · exact induction _

theorem below_lt (width : Width) {bound : Nat} (positive : 0 < bound) (source : Source) :
    (source.below width bound).1 < bound :=
  belowWithin_lt width positive attemptLimit source

theorem le_between (low high : Nat) (source : Source) :
    low ≤ (source.between low high).1 :=
  Nat.le_add_right low _

theorem between_le {low high : Nat} (ordered : low ≤ high) (source : Source) :
    (source.between low high).1 ≤ high := by
  have drawn : (source.below .wide (high - low + 1)).1 < high - low + 1 :=
    below_lt .wide (Nat.succ_pos _) source
  rw [between]
  omega

end Source

end Interleave.Random
