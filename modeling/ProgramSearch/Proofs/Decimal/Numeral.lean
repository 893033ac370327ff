import Mathlib.Data.List.Basic
import ProgramSearch.Decimal.Numeral

/-!
# Reading spelled numerals

Each part of a numeral is scanned up to the first character that cannot belong to it. So a part that is
followed by such a character is read as it was written. A natural number in particular is read back as
itself: its digits do not start with a zero unless it is zero.
-/

namespace ProgramSearch.Decimal

/-- A word is taken from the front of a text, up to a character that does not belong to it. -/
theorem word_taken {part : Char → Bool} {word rest : List Char}
    (parts : ∀ c ∈ word, part c = true) (stops : ∀ c ∈ rest.head?, part c = false) :
    (word ++ rest).takeWhile part = word ∧ (word ++ rest).dropWhile part = rest := by
  have stopped : rest.takeWhile part = [] ∧ rest.dropWhile part = rest := by
    cases rest with
    | nil => exact ⟨rfl, rfl⟩
    | cons c rest => simp [stops c rfl]
  rw [List.takeWhile_append_of_pos parts, List.dropWhile_append_of_pos parts, stopped.1, stopped.2,
    List.append_nil]
  exact ⟨rfl, rfl⟩

/-- The digits that characters stand for. -/
def digitsOf (word : List Char) : List Nat := word.map fun digit => digit.toNat - '0'.toNat

/-- The value of the digits is the number that the characters spell. -/
theorem value_digits_of (word : List Char) :
    Numeral.value (digitsOf word) = Nat.ofDigitChars 10 word 0 := by
  rw [Numeral.value, digitsOf, List.foldl_map, Nat.ofDigitChars_eq_foldl]

/-- No digit stands at the front. -/
def StopsDigits (rest : List Char) : Prop := ∀ c ∈ rest.head?, c.isDigit = false

theorem digits_word {word rest : List Char} (digits : ∀ c ∈ word, c.isDigit = true)
    (stops : StopsDigits rest) : Numeral.digits (word ++ rest) = (digitsOf word, rest) := by
  have taken := word_taken digits stops
  rw [Numeral.digits, taken.1, taken.2, digitsOf]

/-- A word that may stand before the point of a numeral: digits, the first of which is no zero unless
it is the only one. -/
structure IsWholeWord (word : List Char) : Prop where
  digits : ∀ c ∈ word, c.isDigit = true
  nonempty : word ≠ []
  leading : word.head? = some '0' → word = ['0']

/-- The whole digits of a numeral are read as they are written. -/
theorem whole_scanned {word rest : List Char} (whole : IsWholeWord word) (stops : StopsDigits rest) :
    Numeral.scanWhole (word ++ rest) = some (digitsOf word, rest) := by
  rw [Numeral.scanWhole, digits_word whole.digits stops]
  match word, whole with
  | [], whole => exact absurd rfl whole.nonempty
  | [c], _ => simp [digitsOf]
  | c :: d :: word, whole =>
    have positive : c.toNat - '0'.toNat ≠ 0 := by
      intro zero
      have bounds := Char.isDigit_iff_toNat.mp (whole.digits c (by simp))
      have same : c = '0' := Char.toNat_inj.mp (by omega)
      exact nomatch whole.leading (congrArg some same)
    obtain ⟨first, found⟩ := Nat.exists_eq_succ_of_ne_zero positive
    have shape : digitsOf (c :: d :: word) = (first + 1) :: digitsOf (d :: word) := by
      rw [digitsOf, List.map_cons, found]
      rfl
    rw [shape]
    rfl

/-- The decimal digits of a natural number are digits. -/
theorem natural_digits (value : Nat) : ∀ c ∈ natural value, c.isDigit = true :=
  fun _ member => Nat.isDigit_of_mem_toDigits (by decide) (by decide) member

/-- A positive number is spelled without a zero in front. -/
theorem natural_head {value : Nat} (positive : 0 < value) : (natural value).head? ≠ some '0' := by
  induction value using Nat.strongRecOn with
  | _ value inductionHypothesis =>
    rw [natural, Nat.toDigits_eq_if (by decide)]
    split
    case isTrue small =>
      intro zero
      exact absurd (Nat.digitChar_eq_zero.mp (Option.some.inj zero)) (by omega)
    case isFalse large =>
      rw [List.head?_append_of_ne_nil _ Nat.toDigits_ne_nil]
      exact inductionHypothesis (value / 10) (by omega) (by omega)

/-- A natural number is spelled by a word that may stand before the point. -/
theorem natural_whole (value : Nat) : IsWholeWord (natural value) where
  digits := natural_digits value
  nonempty := Nat.toDigits_ne_nil
  leading zero := by
    rcases Nat.eq_zero_or_pos value with rfl | positive
    · rfl
    · exact absurd zero (natural_head positive)

/-- A natural number is scanned as a numeral without sign, fraction and exponent. -/
theorem natural_scanned (value : Nat) :
    Numeral.scan (natural value) = some (⟨false, digitsOf (natural value), none, none⟩, []) := by
  have unsigned : Numeral.scanSign (natural value) = (false, natural value) := by
    unfold Numeral.scanSign
    split
    case h_1 rest spelled => exact absurd (natural_digits value '-' (by simp [spelled])) (by decide)
    case h_2 => rfl
  have whole : Numeral.scanWhole (natural value ++ []) = _ :=
    whole_scanned (natural_whole value) nofun
  rw [List.append_nil] at whole
  simp [Numeral.scan, unsigned, whole, Numeral.scanFraction, Numeral.scanExponent]

/-- The digits of a natural number have its value. -/
theorem natural_value (value : Nat) : Numeral.value (digitsOf (natural value)) = value := by
  rw [value_digits_of, natural, Nat.ofDigitChars_ten_toDigits]

/-- A natural number is read as a numeral without sign, fraction and exponent. -/
theorem natural_read (value : Nat) :
    Numeral.ofText? (String.ofList (natural value)) =
      some ⟨false, digitsOf (natural value), none, none⟩ := by
  rw [Numeral.ofText?, String.toList_ofList, natural_scanned]

section Parts

/-- A fraction with its point. The empty one is not written. -/
def pointed (fraction : List Char) : List Char := if fraction = [] then [] else '.' :: fraction

/-- The digits of a fraction, if there is one. -/
def fractionOf (fraction : List Char) : Option (List Nat) :=
  if fraction = [] then none else some (digitsOf fraction)

/-- What follows the digits of a numeral, and the exponent that it spells: nothing, or a letter with a
sign and digits. -/
inductive SpellsExponent : List Char → Option Int → Prop where
  | absent : SpellsExponent [] none
  | negative (value : Nat) : SpellsExponent ('e' :: '-' :: natural value) (some (-value))
  | positive (value : Nat) : SpellsExponent ('e' :: '+' :: natural value) (some value)

variable {fraction ending : List Char} {exponent : Option Int}

/-- The digits of an exponent are read up to the end. -/
theorem power_scanned (negative : Bool) (value : Nat) :
    Numeral.scanPower negative (natural value) =
      some (some (if negative then -(value : Int) else value), []) := by
  have taken : Numeral.digits (natural value ++ []) = _ := digits_word (natural_digits value) nofun
  rw [List.append_nil] at taken
  have nonempty : digitsOf (natural value) ≠ [] := by
    rw [digitsOf, ne_eq, List.map_eq_nil_iff]
    exact Nat.toDigits_ne_nil
  rw [Numeral.scanPower, taken]
  split
  case h_1 empty => exact absurd (Prod.mk.inj empty).1 nonempty
  case h_2 same =>
    obtain ⟨rfl, rfl⟩ := Prod.mk.inj same
    rw [natural_value]

/-- The exponent of a numeral is read as it is written. -/
theorem exponent_scanned (spells : SpellsExponent ending exponent) :
    Numeral.scanExponent ending = some (exponent, []) := by
  cases spells with
  | absent => rfl
  | negative value => exact power_scanned true value
  | positive value => exact power_scanned false value

/-- An exponent is no digit and no fraction. -/
theorem exponent_starts (spells : SpellsExponent ending exponent) :
    StopsDigits ending ∧ ∀ rest, ending ≠ '.' :: rest := by
  cases spells with
  | absent => exact ⟨nofun, nofun⟩
  | negative value | positive value =>
    refine ⟨fun c member => ?_, nofun⟩
    cases member
    rfl

/-- The fraction of a numeral is read as it is written. -/
theorem fraction_scanned (digits : ∀ c ∈ fraction, c.isDigit = true) (stops : StopsDigits ending)
    (other : ∀ rest, ending ≠ '.' :: rest) :
    Numeral.scanFraction (pointed fraction ++ ending) = some (fractionOf fraction, ending) := by
  cases fraction with
  | nil =>
    change Numeral.scanFraction ending = some (none, ending)
    unfold Numeral.scanFraction
    split
    case h_1 rest => exact absurd rfl (other rest)
    case h_2 => rfl
  | cons c fraction =>
    change Numeral.scanFraction ('.' :: (c :: fraction ++ ending)) = _
    rw [Numeral.scanFraction, digits_word digits stops]
    rfl

/-- Neither a fraction nor an exponent continues the whole digits. -/
theorem pointed_stops (spells : SpellsExponent ending exponent) :
    StopsDigits (pointed fraction ++ ending) := by
  match fraction with
  | [] => exact (exponent_starts spells).1
  | c :: fraction =>
    intro d member
    cases member
    rfl

end Parts

/-- The parts of a numeral that has a fraction or an exponent. -/
structure Spelling where
  whole : List Char
  fraction : List Char
  ending : List Char
  exponent : Option Int
  word : IsWholeWord whole
  digits : ∀ c ∈ fraction, c.isDigit = true
  spells : SpellsExponent ending exponent
  fractional : fraction ≠ [] ∨ exponent ≠ none

namespace Spelling

variable (spelling : Spelling)

/-- The parts, one behind the other. -/
def text : List Char := spelling.whole ++ (pointed spelling.fraction ++ spelling.ending)

/-- The number that all digits spell without the point between them. -/
def significand : Nat := Nat.ofDigitChars 10 (spelling.whole ++ spelling.fraction) 0

/-- The power of ten that scales the significand. -/
def power : Int := spelling.exponent.getD 0 - spelling.fraction.length

/-- The numeral of the parts with a sign. -/
def numeral (negative : Bool) : Numeral :=
  ⟨negative, digitsOf spelling.whole, fractionOf spelling.fraction, spelling.exponent⟩

/-- A numeral is read as it is written, after its sign. -/
theorem scanned {text : List Char} {negative : Bool}
    (sign : Numeral.scanSign text = (negative, spelling.text)) :
    Numeral.scan text = some (spelling.numeral negative, []) := by
  obtain ⟨stops, other⟩ := exponent_starts spelling.spells
  simp [Numeral.scan, sign, Spelling.text, whole_scanned spelling.word (pointed_stops spelling.spells),
    fraction_scanned spelling.digits stops other, exponent_scanned spelling.spells, numeral]

/-- The parts start with a digit. -/
theorem unsigned : Numeral.scanSign spelling.text = (false, spelling.text) := by
  unfold Numeral.scanSign
  split
  case h_1 rest starts =>
    have word := spelling.word
    rw [Spelling.text] at starts
    match whole : spelling.whole, word with
    | [], word => exact absurd rfl word.nonempty
    | c :: others, word =>
      rw [whole] at starts
      have digit := word.digits c List.mem_cons_self
      rw [(List.cons.inj starts).1] at digit
      exact nomatch digit
  case h_2 => rfl

/-- Digits only make a significand larger. -/
theorem le_fold (digits : List Nat) (start : Nat) :
    start ≤ digits.foldl (fun total digit => 10 * total + digit) start := by
  induction digits generalizing start with
  | nil => exact Nat.le_refl _
  | cons digit rest inductionHypothesis =>
    have more : start ≤ 10 * start + digit := by omega
    exact Nat.le_trans more (inductionHypothesis _)

/-- All digits are taken into a significand that stays within its bound. -/
theorem accumulate_all (digits : List Nat) (start : Nat)
    (fits : digits.foldl (fun total digit => 10 * total + digit) start < Numeral.significandBound) :
    Numeral.accumulate start digits =
      (digits.foldl (fun total digit => 10 * total + digit) start, []) := by
  induction digits generalizing start with
  | nil => rfl
  | cons digit rest inductionHypothesis =>
    have next : 10 * start + digit < Numeral.significandBound :=
      Nat.lt_of_le_of_lt (le_fold rest _) fits
    rw [Numeral.accumulate, if_pos next, inductionHypothesis _ fits]
    rfl

/-- The significand of a numeral consists of all its digits, if these fit. -/
theorem significand_taken (negative : Bool)
    (fits : spelling.significand < Numeral.significandBound) :
    (spelling.numeral negative).significand =
      (spelling.significand, -(spelling.fraction.length : Int)) := by
  have folded (word : List Char) (start : Nat) :
      (digitsOf word).foldl (fun total digit => 10 * total + digit) start =
        Nat.ofDigitChars 10 word start := by
    rw [digitsOf, List.foldl_map, Nat.ofDigitChars_eq_foldl]
  have behind : (fractionOf spelling.fraction).getD [] = digitsOf spelling.fraction := by
    unfold fractionOf
    split
    case isTrue empty => rw [empty]; rfl
    case isFalse => rfl
  have split : spelling.significand =
      Nat.ofDigitChars 10 spelling.fraction (Nat.ofDigitChars 10 spelling.whole 0) :=
    Nat.ofDigitChars_append 0
  have all := accumulate_all (digitsOf spelling.fraction) (Nat.ofDigitChars 10 spelling.whole 0)
    (by rwa [folded, ← split])
  have first := accumulate_all (digitsOf spelling.whole) 0 (by
    rw [folded]
    refine Nat.lt_of_le_of_lt ?_ fits
    rw [split, ← folded spelling.fraction]
    exact le_fold _ _)
  have length : (digitsOf spelling.fraction).length = spelling.fraction.length := List.length_map ..
  rw [folded] at all first
  simp [Numeral.significand, numeral, first, behind, all, ← split, length]

/-- A numeral with a fraction or an exponent denotes its digits without the point, scaled by a power of
ten. -/
theorem magnitude_scaled (negative : Bool)
    (fits : spelling.significand < Numeral.significandBound)
    (near : (spelling.exponent.getD 0).natAbs < Numeral.exponentBound) :
    (spelling.numeral negative).magnitude? =
      Numeral.scale? spelling.significand spelling.power := by
  have broken : (spelling.numeral negative).isWhole = false := by
    rcases spelling.fractional with given | given
    · simp [Numeral.isWhole, numeral, fractionOf, given]
    · obtain ⟨power, present⟩ := Option.ne_none_iff_exists'.mp given
      simp [Numeral.isWhole, numeral, present]
  have far : ¬Numeral.exponentBound ≤ ((spelling.numeral negative).exponent.getD 0).natAbs :=
    Nat.not_le_of_lt near
  simp only [Numeral.magnitude?, broken, Bool.false_and, Bool.false_eq_true, if_false,
    significand_taken spelling negative fits, if_neg far]
  rw [power, Int.add_comm, Int.sub_eq_add_neg]
  rfl

/-- What a numeral with its sign denotes. -/
theorem denoted (negative : Bool) (fits : spelling.significand < Numeral.significandBound)
    (near : (spelling.exponent.getD 0).natAbs < Numeral.exponentBound) :
    (Numeral.ofText? (String.ofList (if negative then '-' :: spelling.text else spelling.text))).bind
        Numeral.toFloat? =
      (Numeral.scale? spelling.significand spelling.power).map
        fun x => if negative then -x else x := by
  have sign : Numeral.scanSign (if negative then '-' :: spelling.text else spelling.text) =
      (negative, spelling.text) := by
    cases negative with
    | false => exact spelling.unsigned
    | true => rfl
  rw [Numeral.ofText?, String.toList_ofList, spelling.scanned sign, Option.bind_some,
    Numeral.toFloat?, spelling.magnitude_scaled negative fits near]
  rfl

end Spelling

end ProgramSearch.Decimal
