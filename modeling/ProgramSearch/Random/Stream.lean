import ProgramSearch.Number.Binary

/-!
# Streams of random words

A stream is an endless sequence of 32-bit words that is produced in blocks. A draw
takes words from the front and leaves the rest, so what a stream yields depends
only on how much was taken from it before.
-/

namespace ProgramSearch

/-- The words that were produced but not taken, and how to produce the blocks that
follow. -/
structure Stream where
  /-- The words of the block with a given number. -/
  block : Nat → Array UInt32
  /-- The number of the first block that was not produced yet. -/
  upcoming : Nat
  current : Array UInt32
  /-- How many words of the current block were taken. -/
  taken : Nat

namespace Stream

/-- The stream that starts with block zero. -/
def ofBlocks (block : Nat → Array UInt32) : Stream := ⟨block, 0, #[], 0⟩

/-- The given words, over and over. -/
def cyclic (words : Array UInt32) : Stream := ofBlocks fun _ => words

/-- Take one word. An empty block counts as a single zero. -/
def next (stream : Stream) : UInt32 × Stream :=
  match stream.current[stream.taken]? with
  | some word => (word, { stream with taken := stream.taken + 1 })
  | none =>
    let fresh := stream.block stream.upcoming
    (fresh.getD 0 0,
      { stream with upcoming := stream.upcoming + 1, current := fresh, taken := 1 })

/-- Take two words as one of twice the width, the lower half first. -/
def nextWide (stream : Stream) : UInt64 × Stream :=
  let (low, stream) := stream.next
  let (high, stream) := stream.next
  (high.toUInt64 <<< 32 ||| low.toUInt64, stream)

end Stream

end ProgramSearch
