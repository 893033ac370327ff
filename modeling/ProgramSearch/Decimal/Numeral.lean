import ProgramSearch.Number.Binary

/-!
# Reading numerals

A numeral is a sign, whole digits, an optional fraction and an optional exponent.
Its value as a double is found by a fixed procedure that is not always the nearest
double: as many digits as fit into sixty-four bits form a significand, the others
only count as powers of ten, and the significand is then scaled by a power of ten
in double precision.
-/

namespace ProgramSearch.Decimal

/-- The decimal digits of a natural number. -/
def natural (value : Nat) : List Char := Nat.toDigits 10 value

/-- A numeral by its digits. An absent fraction or exponent is told apart from an
empty or zero one, because only a numeral with neither is a whole number. -/
structure Numeral where
  negative : Bool
  whole : List Nat
  fraction : Option (List Nat)
  exponent : Option Int
deriving DecidableEq, Repr

namespace Numeral

/-- Split off the leading decimal digits. -/
def digits (text : List Char) : List Nat × List Char :=
  ((text.takeWhile Char.isDigit).map fun digit => digit.toNat - '0'.toNat,
    text.dropWhile Char.isDigit)

def value (digits : List Nat) : Nat := digits.foldl (fun total digit => 10 * total + digit) 0

/-- The whole digits: a single zero, or digits that do not start with zero. -/
def scanWhole (text : List Char) : Option (List Nat × List Char) :=
  match digits text with
  | ([], _) => none
  | (0 :: _ :: _, _) => none
  | found => some found

/-- A point, if there is one, is followed by a digit. -/
def scanFraction (text : List Char) : Option (Option (List Nat) × List Char) :=
  match text with
  | '.' :: rest =>
    match digits rest with
    | ([], _) => none
    | (found, rest) => some (some found, rest)
  | _ => some (none, text)

/-- The digits of an exponent, of which there is at least one. -/
def scanPower (negative : Bool) (text : List Char) : Option (Option Int × List Char) :=
  match digits text with
  | ([], _) => none
  | (found, rest) => some (some (if negative then -(value found : Int) else value found), rest)

/-- The letter of an exponent, if there is one, is followed by an optional sign and
a digit. -/
def scanExponent (text : List Char) : Option (Option Int × List Char) :=
  match text with
  | 'e' :: '-' :: rest | 'E' :: '-' :: rest => scanPower true rest
  | 'e' :: '+' :: rest | 'E' :: '+' :: rest => scanPower false rest
  | 'e' :: rest | 'E' :: rest => scanPower false rest
  | _ => some (none, text)

def scanSign (text : List Char) : Bool × List Char :=
  match text with
  | '-' :: rest => (true, rest)
  | _ => (false, text)

/-- The longest numeral at the start of a text, with the text that follows. -/
def scan (text : List Char) : Option (Numeral × List Char) := do
  let (negative, text) := scanSign text
  let (whole, text) ← scanWhole text
  let (fraction, text) ← scanFraction text
  let (exponent, text) ← scanExponent text
  pure (⟨negative, whole, fraction, exponent⟩, text)

/-- The numeral that a whole text spells. -/
def ofText? (text : String) : Option Numeral :=
  match scan text.toList with
  | some (numeral, []) => some numeral
  | _ => none

def isWhole (numeral : Numeral) : Bool := numeral.fraction.isNone && numeral.exponent.isNone

/-- Significands have sixty-four bits. -/
def significandBound : Nat := 2 ^ 64

/-- The natural number that a numeral denotes, if it is written without sign,
fraction and exponent and fits into sixty-four bits. -/
def natural? (numeral : Numeral) : Option Nat :=
  let total := value numeral.whole
  if !numeral.negative && numeral.isWhole && total < significandBound then some total else none

/-- Take digits into a significand while it fits. Gives the significand and the
digits that are left. -/
def accumulate (significand : Nat) : List Nat → Nat × List Nat
  | [] => (significand, [])
  | digit :: rest =>
    let next := 10 * significand + digit
    if next < significandBound then accumulate next rest else (significand, digit :: rest)

/-- The significand and the power of ten of the digits alone. Whole digits that do
not fit are powers of ten; fraction digits that do not fit are dropped. -/
def significand (numeral : Numeral) : Nat × Int :=
  let (head, skipped) := accumulate 0 numeral.whole
  let fraction := numeral.fraction.getD []
  let (total, dropped) := accumulate head fraction
  (total, (skipped.length : Int) - (fraction.length - dropped.length : Nat))

/-- The greatest power of ten that scaling uses in one step. -/
def stepLimit : Nat := 308

def powerOfTen (power : Nat) : Float := Float.ofScientific 1 false power

/-- Divide by a power of ten in at most the given number of steps and a last one, each
by at most `10 ^ 308`. Zero stays zero. -/
def divideInSteps : Nat → Float → Nat → Float
  | 0, x, power => x / powerOfTen power
  | steps + 1, x, power =>
    if power ≤ stepLimit then x / powerOfTen power
    else if x == 0.0 then x
    else divideInSteps steps (x / powerOfTen stepLimit) (power - stepLimit)

/-- Divide by a power of ten. -/
def divideByPower (x : Float) (power : Nat) : Float := divideInSteps (power / stepLimit) x power

/-- Scale by a power of ten. Nothing denotes a value beyond the finite doubles. -/
def scale? (significand : Nat) (power : Int) : Option Float :=
  let x := (UInt64.ofNat significand).toFloat
  match power with
  | .ofNat up =>
    if up ≤ stepLimit then
      let scaled := x * powerOfTen up
      if scaled < 1.0 / 0.0 then some scaled else none
    else if x == 0.0 then some x
    else none
  | .negSucc down => some (divideByPower x (down + 1))

/-- An exponent beyond thirty-two bits decides by itself. -/
def exponentBound : Nat := 2 ^ 31

/-- The magnitude of a numeral as a double. -/
def magnitude? (numeral : Numeral) : Option Float :=
  let total := value numeral.whole
  if numeral.isWhole && total < significandBound then some (UInt64.ofNat total).toFloat
  else
    let (significand, power) := numeral.significand
    let exponent := numeral.exponent.getD 0
    if exponentBound ≤ exponent.natAbs then
      if 0 < exponent && significand != 0 then none else some 0.0
    else scale? significand (power + exponent)

/-- The double that a numeral denotes, if it is finite. -/
def toFloat? (numeral : Numeral) : Option Float :=
  numeral.magnitude?.map fun x => if numeral.negative then -x else x

end Numeral

end ProgramSearch.Decimal
