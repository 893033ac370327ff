import Mathlib.Data.List.TakeWhile
import ProgramSearch.Json.Reader
import ProgramSearch.Proofs.Decimal.Numeral

/-!
# Reading numbers

A number in a document is kept as it is spelled. The reader takes all characters that numerals consist
of, and a numeral consists of nothing else. So whatever spells a numeral is read back as it is written, if
what follows cannot continue it.
-/

namespace ProgramSearch.Json

/-- What is left of a text after characters that numerals consist of. -/
def Takes (text rest : List Char) : Prop :=
  ∃ taken, text = taken ++ rest ∧ ∀ c ∈ taken, isNumeralPart c = true

theorem Takes.refl (text : List Char) : Takes text text := ⟨[], rfl, nofun⟩

theorem Takes.trans {first second third : List Char} (left : Takes first second)
    (right : Takes second third) : Takes first third := by
  obtain ⟨taken, rfl, parts⟩ := left
  obtain ⟨more, rfl, others⟩ := right
  refine ⟨taken ++ more, (List.append_assoc ..).symm, fun c member => ?_⟩
  exact (List.mem_append.mp member).elim (parts c) (others c)

theorem Takes.cons {c : Char} {text rest : List Char} (part : isNumeralPart c = true)
    (left : Takes text rest) : Takes (c :: text) rest := by
  obtain ⟨taken, rfl, parts⟩ := left
  exact ⟨c :: taken, rfl, List.forall_mem_cons.mpr ⟨part, parts⟩⟩

open Decimal

theorem digits_take (text : List Char) : Takes text (Numeral.digits text).2 := by
  refine ⟨text.takeWhile Char.isDigit, (List.takeWhile_append_dropWhile ..).symm, fun c member => ?_⟩
  simp [isNumeralPart, List.mem_takeWhile_imp member]

/-- The sign is a character of numerals. -/
theorem sign_takes (text : List Char) : Takes text (Numeral.scanSign text).2 := by
  unfold Numeral.scanSign
  split
  · exact .cons rfl (.refl _)
  · exact .refl _

/-- The whole digits are characters of numerals. -/
theorem whole_takes {text rest : List Char} {whole : List Nat}
    (scanned : Numeral.scanWhole text = some (whole, rest)) : Takes text rest := by
  have taken := digits_take text
  unfold Numeral.scanWhole at scanned
  split at scanned
  · exact nomatch scanned
  · exact nomatch scanned
  · cases scanned
    assumption

/-- The point and the digits behind it are characters of numerals. -/
theorem fraction_takes {text rest : List Char} {fraction : Option (List Nat)}
    (scanned : Numeral.scanFraction text = some (fraction, rest)) : Takes text rest := by
  unfold Numeral.scanFraction at scanned
  split at scanned
  case h_1 digits =>
    have taken := digits_take digits
    split at scanned
    · exact nomatch scanned
    case h_2 split =>
      cases scanned
      rw [split] at taken
      exact .cons rfl taken
  case h_2 =>
    cases scanned
    exact .refl _

/-- The digits of an exponent are characters of numerals. -/
theorem power_takes {negative : Bool} {text rest : List Char} {power : Option Int}
    (scanned : Numeral.scanPower negative text = some (power, rest)) : Takes text rest := by
  have taken := digits_take text
  unfold Numeral.scanPower at scanned
  split at scanned
  · exact nomatch scanned
  case h_2 split =>
    cases scanned
    rw [split] at taken
    exact taken

/-- An exponent consists of characters of numerals. -/
theorem exponent_takes {text rest : List Char} {exponent : Option Int}
    (scanned : Numeral.scanExponent text = some (exponent, rest)) : Takes text rest := by
  unfold Numeral.scanExponent at scanned
  split at scanned
  case h_7 =>
    cases scanned
    exact .refl _
  case h_5 | h_6 => exact .cons rfl (power_takes scanned)
  all_goals exact .cons rfl (.cons rfl (power_takes scanned))

/-- A numeral consists of characters of numerals. -/
theorem numeral_takes {text rest : List Char} {numeral : Numeral}
    (scanned : Numeral.scan text = some (numeral, rest)) : Takes text rest := by
  simp only [Numeral.scan, Option.bind_eq_bind, Option.bind_eq_some_iff] at scanned
  obtain ⟨⟨whole, afterWhole⟩, readWhole, ⟨fraction, afterFraction⟩, readFraction,
    ⟨exponent, afterExponent⟩, readExponent, same⟩ := scanned
  cases same
  exact (sign_takes text).trans ((whole_takes readWhole).trans
    ((fraction_takes readFraction).trans (exponent_takes readExponent)))

/-- A numeral starts with a sign or a digit. -/
theorem numeral_starts {text rest : List Char} {numeral : Numeral}
    (scanned : Numeral.scan text = some (numeral, rest)) :
    ∃ c tail, text = c :: tail ∧ (c = '-' ∨ c.isDigit = true) := by
  simp only [Numeral.scan, Option.bind_eq_bind, Option.bind_eq_some_iff] at scanned
  obtain ⟨⟨whole, afterWhole⟩, readWhole, -⟩ := scanned
  unfold Numeral.scanSign at readWhole
  split at readWhole
  case h_1 digits => exact ⟨'-', digits, rfl, .inl rfl⟩
  case h_2 =>
    cases text with
    | nil => cases readWhole
    | cons c tail =>
      refine ⟨c, tail, rfl, .inr ?_⟩
      by_contra other
      have none : Numeral.digits (c :: tail) = ([], c :: tail) := by
        simp [Numeral.digits, other]
      simp [Numeral.scanWhole, none] at readWhole

/-- The spelling of a number starts with a sign or a digit. -/
theorem number_starts {spelling : String} (numeral : (Numeral.ofText? spelling).isSome = true) :
    ∃ c tail, spelling.toList = c :: tail ∧ (c = '-' ∨ c.isDigit = true) := by
  obtain ⟨found, read⟩ := Option.isSome_iff_exists.mp numeral
  unfold Numeral.ofText? at read
  split at read
  case h_1 scanned => exact numeral_starts scanned
  case h_2 => exact nomatch read

/-- The number in a readable document is spelled as a numeral. -/
theorem numeral_of_readable {spelling : String} (readable : (number spelling).isReadable = true) :
    (Numeral.ofText? spelling).isSome = true := by
  rw [isReadable, toFloat?] at readable
  exact Option.isSome_of_isSome_bind readable

/-- The text cannot continue a number. -/
def EndsNumber (rest : List Char) : Prop := ∀ c ∈ rest.head?, isNumeralPart c = false

/-- A number is scanned as it is spelled, if what follows cannot continue it. -/
theorem number_scanned {spelling : String} {rest : List Char}
    (numeral : (Numeral.ofText? spelling).isSome = true) (ends : EndsNumber rest) :
    scanNumber (spelling.toList ++ rest) = some (.number spelling, rest) := by
  obtain ⟨found, read⟩ := Option.isSome_iff_exists.mp numeral
  unfold Numeral.ofText? at read
  split at read
  case h_2 => exact nomatch read
  case h_1 same scanned =>
    obtain ⟨taken, whole, parts⟩ := numeral_takes scanned
    rw [List.append_nil] at whole
    have split := word_taken (whole ▸ parts) ends
    rw [scanNumber, split.1, split.2, scanned, String.ofList_toList]

end ProgramSearch.Json
