import ProgramSearch.Decimal.Numeral
import ProgramSearch.Decimal.Shortest
import ProgramSearch.Number.Double

/-!
# Number layouts

How the shortest digits of a double are laid out as text. Three layouts are in
use: the plain one of programs and scores, the detailed one of compiled values, and
the one of stored documents. They differ in where an exponent is written, in
whether a whole number shows a fraction, and in how an exponent shows its sign.
-/

namespace ProgramSearch.Decimal

/-- The choices of one layout. -/
structure Layout where
  /-- The powers of ten that are written without an exponent. -/
  isPositional : Int → Bool
  /-- What follows a whole number written without an exponent. -/
  wholeEnd : List Char
  /-- What stands before an exponent that is not negative. -/
  exponentSign : List Char
  tie : Tie

namespace Layout

/-- Never an exponent, and no fraction for whole numbers. -/
def plain : Layout := ⟨fun _ => true, [], [], .up⟩

/-- An exponent below `10 ^ -4` and from `10 ^ 16` on. -/
def detailed : Layout := ⟨fun power => -4 ≤ power && power < 16, ['.', '0'], [], .up⟩

/-- An exponent below `10 ^ -5` and from `10 ^ 16` on, with its sign. -/
def stored : Layout := ⟨fun power => -5 ≤ power && power < 16, ['.', '0'], ['+'], .toEven⟩

def zeros (count : Nat) : List Char := List.replicate count '0'

/-- Lay out a positive decimal. -/
def spellDigits (layout : Layout) (digits : Digits) : List Char :=
  let text := natural digits.coefficient
  let power := digits.exponent + text.length - 1
  if layout.isPositional power then
    if 0 ≤ digits.exponent then text ++ zeros digits.exponent.toNat ++ layout.wholeEnd
    else if 0 ≤ power then
      let whole := (power + 1).toNat
      text.take whole ++ '.' :: text.drop whole
    else '0' :: '.' :: zeros (-power - 1).toNat ++ text
  else
    let fraction := if text.length ≤ 1 then [] else '.' :: text.drop 1
    let sign := if power < 0 then ['-'] else layout.exponentSign
    text.take 1 ++ fraction ++ 'e' :: sign ++ natural power.natAbs

/-- The magnitude of a finite double as a rounded number. -/
def rounded? (x : Float) : Option Rounded :=
  (Double.magnitude x).map fun (significand, exponent) =>
    ⟨significand, exponent,
      significand == 2 ^ Double.fractionBits && Double.leastExponent < exponent⟩

/-- The characters of the magnitude of a double. -/
def spellMagnitude (layout : Layout) (x : Float) : List Char :=
  match rounded? x with
  | none => ['i', 'n', 'f']
  | some value =>
    if value.significand = 0 then '0' :: layout.wholeEnd
    else layout.spellDigits (value.shortest layout.tie)

/-- The characters of a double. "Not a number" has no sign; both zeros and both
infinities have one. -/
def spell (layout : Layout) (x : Float) : List Char :=
  if x == x then
    if Double.isNegative x then '-' :: layout.spellMagnitude x else layout.spellMagnitude x
  else ['N', 'a', 'N']

/-- The text of a double. -/
def write (layout : Layout) (x : Float) : String := String.ofList (layout.spell x)

end Layout

end ProgramSearch.Decimal
