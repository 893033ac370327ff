import ProgramSearch.Random.Stream

/-!
# Seeded streams

A seeded stream is the key stream of the ChaCha cipher with twelve rounds. A block
is computed from a key of eight words and from its own number. The key is stretched
from a 64-bit seed by a linear congruential generator whose output is permuted.
-/

namespace ProgramSearch.Random

def rotateLeft (word : UInt32) (count : UInt32) : UInt32 :=
  word <<< count ||| word >>> (32 - count)

def rotateRight (word : UInt32) (count : UInt32) : UInt32 :=
  if count = 0 then word else word >>> count ||| word <<< (32 - count)

/-- Sixteen words, as a matrix of four rows. -/
abbrev Matrix := Array UInt32

/-- Mix four words of a matrix. -/
def quarterRound (state : Matrix) (i j k l : Nat) : Matrix :=
  let a := state.getD i 0
  let b := state.getD j 0
  let c := state.getD k 0
  let d := state.getD l 0
  let a := a + b
  let d := rotateLeft (d ^^^ a) 16
  let c := c + d
  let b := rotateLeft (b ^^^ c) 12
  let a := a + b
  let d := rotateLeft (d ^^^ a) 8
  let c := c + d
  let b := rotateLeft (b ^^^ c) 7
  (((state.setIfInBounds i a).setIfInBounds j b).setIfInBounds k c).setIfInBounds l d

/-- Mix the columns and then the diagonals. -/
def doubleRound (state : Matrix) : Matrix :=
  let state := quarterRound state 0 4 8 12
  let state := quarterRound state 1 5 9 13
  let state := quarterRound state 2 6 10 14
  let state := quarterRound state 3 7 11 15
  let state := quarterRound state 0 5 10 15
  let state := quarterRound state 1 6 11 12
  let state := quarterRound state 2 7 8 13
  quarterRound state 3 4 9 14

/-- Apply a function a number of times. -/
def iterate {β : Type} (f : β → β) : Nat → β → β
  | 0, value => value
  | count + 1, value => iterate f count (f value)

/-- The words "expand 32-byte k". -/
def constants : Array UInt32 := #[0x61707865, 0x3320646e, 0x79622d32, 0x6b206574]

/-- The block with a given number: the mixed matrix added to the unmixed one. -/
def cipherBlock (key : Array UInt32) (number : Nat) : Array UInt32 :=
  let start := constants ++ key ++
    #[UInt32.ofNat number, UInt32.ofNat (number / 2 ^ 32), 0, 0]
  let mixed := iterate doubleRound 6 start
  Array.zipWith (· + ·) mixed start

/-- One step of the generator that stretches a seed. -/
def stretch (state : UInt64) : UInt64 := state * 6364136223846793005 + 11634580027462260723

/-- The word that a state of the generator yields. -/
def output (state : UInt64) : UInt32 :=
  rotateRight (((state >>> 18) ^^^ state) >>> 27).toUInt32 (state >>> 59).toUInt32

/-- Words from successive states of the generator. -/
def keyWords : Nat → UInt64 → List UInt32
  | 0, _ => []
  | count + 1, state => output (stretch state) :: keyWords count (stretch state)

/-- The key of a seed. -/
def key (seed : UInt64) : Array UInt32 := (keyWords 8 seed).toArray

/-- The stream of a seed. -/
def seeded (seed : UInt64) : Stream := Stream.ofBlocks (cipherBlock (key seed))

end ProgramSearch.Random
