/-!
# Binary fractions

A binary fraction is a whole number scaled by a power of two. Every finite
machine number is one, so a rule that only needs the exact value of a number,
such as the rounding down of an address or the choice of decimal digits, is
stated here without mentioning a floating-point format.
-/

namespace ProgramSearch

/-- Powers are the ones that the numbers come with, also beside a library that has powers of its
own for them. -/
instance (priority := 20000) naturalPower {α : Type} [NatPow α] : Pow α Nat := instPowNat

attribute [default_instance 20000] naturalPower

/-- The value `significand · 2 ^ exponent`. Representations are not unique:
`⟨2, 0⟩` and `⟨1, 1⟩` denote the same value. -/
structure Binary where
  significand : Int
  exponent : Int
deriving DecidableEq, Repr

namespace Binary

/-- Multiply by a power of two. Only the exponent moves, so nothing is lost. -/
def scale (value : Binary) (power : Int) : Binary :=
  { value with exponent := value.exponent + power }

/-- The greatest whole number that does not exceed the value. Shifting a whole
number to the right rounds it down, also below zero. -/
def floor (value : Binary) : Int :=
  match value.exponent with
  | .ofNat up => value.significand * 2 ^ up
  | .negSucc down => value.significand >>> (down + 1)

/-- Whether the value is a whole number: nothing is lost by rounding it down. -/
def isWhole (value : Binary) : Bool :=
  match value.exponent with
  | .ofNat _ => true
  | .negSucc down => value.floor * 2 ^ (down + 1) == value.significand

end Binary

end ProgramSearch
