import ProgramSearch.Fault
import ProgramSearch.Number.Double
import ProgramSearch.Random.Stream

/-!
# Draws

A draw takes words from a stream and may fail. A uniform draw multiplies a random
word by the size of the range and keeps the high half of the product; a word whose
low half lies beyond a limit is thrown away and another one is taken, which makes
every result equally likely. Whatever word is kept, the result lies in the range.

The number of words that are thrown away has no bound in principle. Here it has one:
after that many refusals the last word is kept, and a double is the low end of its range.
-/

namespace ProgramSearch

/-- Why a request has no answer. -/
inductive Failure where
  | fault (cause : Fault)
  /-- The request broke off because of a defect in what it was given: an empty range,
  a missing input, or a reward that gives up. -/
  | crash
deriving DecidableEq, Repr

/-- A computation that takes random words. -/
abbrev Draw := EStateM Failure Stream

namespace Draw

def crash {β : Type} : Draw β := throw .crash

def ofExcept {β : Type} : Except Fault β → Draw β
  | .ok value => pure value
  | .error cause => throw (.fault cause)

def word : Draw UInt32 := fun stream =>
  let (word, stream) := stream.next
  .ok word stream

def wide : Draw UInt64 := fun stream =>
  let (word, stream) := stream.nextWide
  .ok word stream

/-- How many words may be thrown away for one result. A uniform draw has no such number: on
a stream whose words are all refused it never ends, and here it does. What is drawn from
a stream that is refused less often does not depend on the number. -/
def refusals : Nat := 10000

/-- Draw words until the low half of the product with the size of the range does not
exceed the limit. Both halves have `bits` bits. -/
def scaled (bits : Nat) (take : Draw Nat) (size limit : Nat) : Nat → Draw Nat
  | 0 => do
    let word ← take
    pure (word * size / 2 ^ bits)
  | fuel + 1 => do
    let word ← take
    let product := word * size
    if product % 2 ^ bits ≤ limit then pure (product / 2 ^ bits)
    else scaled bits take size limit fuel

/-- The limit that shifts the size of the range up to its leading bit. -/
def shiftedLimit (bits size : Nat) : Nat := size * 2 ^ (bits - 1 - size.log2) - 1

/-- The limit that leaves the largest multiple of the size of the range. -/
def multipleLimit (bits size : Nat) : Nat := 2 ^ bits - 1 - (2 ^ bits - size) % size

def wordNat : Draw Nat := do pure (← word).toNat

def wideNat : Draw Nat := do pure (← wide).toNat

/-- A number below `size`, from double words. -/
def belowWide (size : Nat) : Draw Nat :=
  if size = 0 then crash else scaled 64 wideNat size (shiftedLimit 64 size) refusals

/-- A number below `size`, from single words and the shifted limit. -/
def belowShifted (size : Nat) : Draw Nat :=
  if size = 0 then crash else scaled 32 wordNat size (shiftedLimit 32 size) refusals

/-- A number below `size`, from single words and the limit of multiples. -/
def belowMultiple (size : Nat) : Draw Nat :=
  if size = 0 then crash else scaled 32 wordNat size (multipleLimit 32 size) refusals

/-- A double in `[0, 1)` from the upper 52 bits of a double word. -/
def fraction : Draw Float := do
  let word ← wide
  pure ((word >>> 12).toFloat / 4503599627370496.0)

/-- Draw doubles in a range until one is strictly below its end. -/
def uniformLoop (low high : Float) : Nat → Draw Float
  | 0 => pure low
  | fuel + 1 => do
    let value := (← fraction) * (high - low) + low
    if value < high then pure value else uniformLoop low high fuel

/-- A double from `low` up to `high`, without `high`. The range must be neither empty
nor wider than the finite doubles. -/
def uniform (low high : Float) : Draw Float :=
  if low < high && high - low < 1.0 / 0.0 then uniformLoop low high refusals else crash

/-- True with the given probability. A certain event takes no word. -/
def chance (probability : Float) : Draw Bool :=
  if probability == 1.0 then pure true
  else if 0.0 ≤ probability && probability ≤ 1.0 then do
    let word ← wideNat
    pure (decide ((word : Int) < ((Double.exact probability).map fun exact =>
      (exact.scale 64).floor).getD 0))
  else crash

/-- What weights add up to. The sum wraps around. -/
def total (weights : List UInt32) : UInt32 := weights.foldr (· + ·) 0

/-- A position in a list of weights, each as likely as its weight. If the sum wraps around,
the running totals are out of order, and the first one that is large enough counts. -/
def weighted (weights : List UInt32) : Draw Nat := do
  let choice ← belowMultiple (total weights).toNat
  pure (position (UInt32.ofNat choice) 0 weights)
where
  /-- The first position at which the running total exceeds the choice, or else the last. -/
  position (choice before : UInt32) : List UInt32 → Nat
    | [] | [_] => 0
    | weight :: rest =>
      if choice < before + weight then 0 else position choice (before + weight) rest + 1

end Draw

end ProgramSearch
