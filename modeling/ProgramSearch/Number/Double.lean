import ProgramSearch.Number

/-!
# Double precision numbers

The running instance of a system of numbers. The exact value, the remainder and
the total order are read off the 64 bits of a number, so they are fixed by
whole-number arithmetic; the other operations are the machine's.

The remainder of two finite numbers is always itself a double: on the smaller of
the two exponents it is a whole number below one of the two significands.
-/

namespace ProgramSearch.Double

/-- The number of stored fraction bits. -/
def fractionBits : Nat := 52

/-- The exponent of the smallest positive double. -/
def leastExponent : Int := -1074

def isNegative (x : Float) : Bool := x.toBits >>> 63 == 1

/-- The exponent field and the fraction field. -/
def fields (x : Float) : Nat × Nat :=
  let bits := x.toBits.toNat
  (bits / 2 ^ fractionBits % 2048, bits % 2 ^ fractionBits)

/-- Significand and exponent of the magnitude of a finite number. A zero
exponent field means that no leading one is implied. -/
def magnitude (x : Float) : Option (Nat × Int) :=
  match fields x with
  | (0, fraction) => some (fraction, leastExponent)
  | (field, fraction) =>
    if field = 2047 then none
    else some (2 ^ fractionBits + fraction, (field : Int) - 1 + leastExponent)

/-- The exact value of a finite number. -/
def exact (x : Float) : Option Binary :=
  (magnitude x).map fun (significand, exponent) =>
    ⟨if isNegative x then -(significand : Int) else significand, exponent⟩

/-- The double of the given sign and magnitude `significand · 2 ^ exponent`, for
a significand below `2 ^ 53` and an exponent that is not below the least one. The
significand moves up until its leading bit is the implied one or the exponent is
the least. -/
def assemble (negative : Bool) (significand : Nat) (exponent : Int) : Float :=
  let room := fractionBits - significand.log2
  let shift := if significand = 0 then 0 else min room (exponent - leastExponent).toNat
  let shifted := significand * 2 ^ shift
  let magnitude :=
    if shifted < 2 ^ fractionBits then shifted
    else (exponent - shift - leastExponent).toNat * 2 ^ fractionBits + shifted
  Float.ofBits (UInt64.ofNat (magnitude + if negative then 2 ^ 63 else 0))

/-- The remainder of a division that rounds toward zero, exact and of the sign of
the dividend. Dividing by an infinity leaves the dividend. -/
def remainder (x y : Float) : Float :=
  match magnitude x, magnitude y with
  | some (dividend, high), some (divisor, low) =>
    if divisor = 0 then 0.0 / 0.0
    else
      let common := min high low
      let left := dividend * 2 ^ (high - common).toNat
      let right := divisor * 2 ^ (low - common).toNat
      assemble (isNegative x) (left % right) common
  | some _, none => if y == y then x else 0.0 / 0.0
  | none, _ => 0.0 / 0.0

/-- The bits as an unsigned number, turned over for negative numbers so that the
order of positions is the order of values. -/
def rank (x : Float) : Nat :=
  (if isNegative x then ~~~x.toBits else x.toBits ||| 0x8000000000000000).toNat

end ProgramSearch.Double

namespace ProgramSearch

instance : Number Float where
  zero := 0.0
  one := 1.0
  nan := 0.0 / 0.0
  infinity := 1.0 / 0.0
  negativeInfinity := -1.0 / 0.0
  add := (· + ·)
  sub := (· - ·)
  mul := (· * ·)
  div := (· / ·)
  rem := Double.remainder
  pow := Float.pow
  log x base := x.log / base.log
  equal := (· == ·)
  below x y := x < y
  ofNat := Float.ofNat
  exact := Double.exact
  rank := Double.rank

end ProgramSearch
