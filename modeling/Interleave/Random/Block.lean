/-!
The blocks of the random word stream: twelve rounds over sixteen words, which start from four
constants, the key, the number of the block and two zeros.
-/

namespace Interleave.Random

abbrev Block := Vector UInt32 16

abbrev Key := Vector UInt32 8

namespace Block

def rotateLeft (word : UInt32) (count : UInt32) : UInt32 :=
  (word <<< count) ||| (word >>> (32 - count))

/-- One exchange: `target` grows by `other`, and `mixed` takes it in and is rotated. -/
def mix (block : Block) (target other mixed : Fin 16) (count : UInt32) : Block :=
  let sum := block[target] + block[other]
  let rotated := rotateLeft (block[mixed] ^^^ sum) count
  (block.set target sum).set mixed rotated

def quarter (a b c d : Fin 16) (block : Block) : Block :=
  (((block.mix a b d 16).mix c d b 12).mix a b d 8).mix c d b 7

/-- The columns, then the diagonals. -/
def doubleRound (block : Block) : Block :=
  block |> quarter 0 4 8 12 |> quarter 1 5 9 13 |> quarter 2 6 10 14 |> quarter 3 7 11 15
    |> quarter 0 5 10 15 |> quarter 1 6 11 12 |> quarter 2 7 8 13 |> quarter 3 4 9 14

def rounds : Nat → Block → Block
  | 0, block => block
  | count + 1, block => rounds count block.doubleRound

def constants : Vector UInt32 4 := #v[0x61707865, 0x3320646e, 0x79622d32, 0x6b206574]

def initial (key : Key) (number : UInt64) : Block :=
  constants ++ key ++ #v[number.toUInt32, (number >>> 32).toUInt32, 0, 0]

def generate (key : Key) (number : UInt64) : Block :=
  let start := initial key number
  Vector.zipWith (· + ·) (rounds 6 start) start

end Block

namespace Key

/-- The state after one word of the key has been drawn from it. -/
def advance (state : UInt64) : UInt64 := state * 6364136223846793005 + 11634580027462260723

def word (state : UInt64) : UInt32 :=
  let mixed := (((state >>> 18) ^^^ state) >>> 27).toUInt32
  let count := (state >>> 59).toUInt32
  (mixed >>> count) ||| (mixed <<< (32 - count))

/-- The states whose words make up the key of a seed. -/
def states : Nat → UInt64 → List UInt64
  | 0, _ => []
  | count + 1, state => advance state :: states count (advance state)

@[simp] theorem length_states (count : Nat) (state : UInt64) :
    (states count state).length = count := by
  induction count generalizing state with
  | zero => rfl
  | succ count induction => simp [states, induction]

def ofSeed (seed : UInt64) : Key :=
  ⟨((states 8 seed).map word).toArray, by simp⟩

end Key

end Interleave.Random
