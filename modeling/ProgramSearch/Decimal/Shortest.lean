import ProgramSearch.Number.Binary

/-!
# Shortest decimals

A machine number stands for every real number that rounds to it. Of the decimals
in that interval, the shortest is the one with the fewest digits, and among those
the one nearest to the exact value. When two are equally near, the format that is
being written decides.

Decimals with a given number of digits form a grid. If any point of the grid lies
in the interval, then so does one of the two neighbours of the exact value, so it
is enough to look at these.
-/

namespace ProgramSearch.Decimal

/-- Which of two equally near decimals is written. -/
inductive Tie where
  | up
  | toEven
deriving DecidableEq, Repr

/-- The value `coefficient · 10 ^ exponent`. -/
structure Digits where
  coefficient : Nat
  exponent : Int
deriving DecidableEq, Repr

namespace Digits

/-- Drop zeros at the end of the coefficient. -/
def trim : Nat → Digits → Digits
  | 0, digits => digits
  | fuel + 1, digits =>
    if digits.coefficient % 10 = 0 then trim fuel ⟨digits.coefficient / 10, digits.exponent + 1⟩
    else digits

end Digits

/-- A positive machine number `significand · 2 ^ exponent`. Its lower neighbour is
only half as far away when the significand is the least of its binade. -/
structure Rounded where
  significand : Nat
  exponent : Int
  narrowBelow : Bool
deriving DecidableEq, Repr

namespace Rounded

/-- The power of ten at or below the value. The logarithm to the base two, rounded
down, leaves two candidates. -/
def magnitude (value : Rounded) : Int :=
  let guess := ((value.significand.log2 + value.exponent) * 30103).fdiv 100000
  let next := guess + 1
  let reached :=
    10 ^ next.toNat * 2 ^ (-value.exponent).toNat
      ≤ value.significand * 2 ^ value.exponent.toNat * 10 ^ (-next).toNat
  if reached then next else guess

/-- The decimal with the given number of digits that is written for the value, if
one of them rounds to it. Everything is counted in quarters of the distance
between neighbouring machine numbers, so that the ends of the interval are whole.
The ends belong to the interval when the significand is even. -/
def candidate? (tie : Tie) (value : Rounded) (count : Nat) : Option Digits :=
  let unit := value.magnitude + 1 - count
  let step := 2 ^ (value.exponent - 2).toNat * 10 ^ (-unit).toNat
  let grid := 2 ^ (2 - value.exponent).toNat * 10 ^ unit.toNat
  let exact := 4 * value.significand * step
  let least := (4 * value.significand - if value.narrowBelow then 1 else 2) * step
  let greatest := (4 * value.significand + 2) * step
  let even := value.significand % 2 = 0
  let below := exact / grid
  let above := below + 1
  let belowFits := decide (least < below * grid) || (decide even && least == below * grid)
  let aboveFits := decide (above * grid < greatest) || (decide even && above * grid == greatest)
  let offset := 2 * (exact % grid)
  let preferBelow : Bool :=
    if offset = grid then
      match tie with
      | .up => false
      | .toEven => below % 2 == 0
    else decide (offset < grid)
  match belowFits, aboveFits with
  | true, true => some ⟨if preferBelow then below else above, unit⟩
  | true, false => some ⟨below, unit⟩
  | false, true => some ⟨above, unit⟩
  | false, false => none

/-- The first number of digits, from `count` on, with a decimal in the interval. -/
def search (tie : Tie) (value : Rounded) : Nat → Nat → Digits
  | 0, count => ⟨value.significand, count⟩
  | fuel + 1, count =>
    match value.candidate? tie count with
    | some digits => digits.trim count
    | none => search tie value fuel (count + 1)

/-- The shortest decimal of a double. Seventeen digits always suffice. -/
def shortest (tie : Tie) (value : Rounded) : Digits := search tie value 17 1

end Rounded

end ProgramSearch.Decimal
