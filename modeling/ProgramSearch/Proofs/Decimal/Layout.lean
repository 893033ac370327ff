import ProgramSearch.Decimal.Layout
import ProgramSearch.Proofs.Decimal.Numeral
import ProgramSearch.Proofs.Decimal.Shortest
import ProgramSearch.Proofs.Number.Identity

/-!
# Stored numbers are numerals

The stored layout writes every positive decimal as a numeral with a fraction or an exponent. The point
moves, but the digits and the power of ten that scales them stay those of the decimal, with one
exception: a whole number is written with a zero behind its point, and this zero belongs to its digits.
-/

namespace ProgramSearch.Decimal

/-- The power of ten of the leading digit. -/
def Digits.power (digits : Digits) : Int := digits.exponent + (natural digits.coefficient).length - 1

theorem Digits.power_eq (digits : Digits) :
    digits.power = digits.exponent + (natural digits.coefficient).length - 1 :=
  rfl

/-- The significand and the power of ten that the stored layout writes for a decimal. -/
def Digits.written (digits : Digits) : Nat × Int :=
  if Layout.stored.isPositional digits.power ∧ 0 ≤ digits.exponent then
    (digits.coefficient * 10 ^ (digits.exponent.toNat + 1), -1)
  else (digits.coefficient, digits.exponent)

theorem natural_ne_nil (value : Nat) : natural value ≠ [] := Nat.toDigits_ne_nil

/-- The digits of a natural number spell it. -/
theorem of_natural (value : Nat) : Nat.ofDigitChars 10 (natural value) 0 = value :=
  Nat.ofDigitChars_ten_toDigits

/-- A positive number followed by digits may stand before the point. -/
theorem extended_whole {value : Nat} (positive : 0 < value) {more : List Char}
    (digits : ∀ c ∈ more, c.isDigit = true) : IsWholeWord (natural value ++ more) where
  digits c member := (List.mem_append.mp member).elim (natural_digits value c) (digits c)
  nonempty empty := natural_ne_nil value (List.append_eq_nil_iff.mp empty).1
  leading zero := by
    rw [List.head?_append_of_ne_nil _ (natural_ne_nil value)] at zero
    exact absurd zero (natural_head positive)

/-- The first digits of a positive number may stand before the point. -/
theorem initial_whole {value count : Nat} (positive : 0 < value) (some_ : 0 < count) :
    IsWholeWord ((natural value).take count) where
  digits c member := natural_digits value c (List.mem_of_mem_take member)
  nonempty empty := by
    rcases List.take_eq_nil_iff.mp empty with none | none
    · exact absurd none some_.ne'
    · exact natural_ne_nil value none
  leading zero := by
    rw [List.head?_take, if_neg some_.ne'] at zero
    exact absurd zero (natural_head positive)

namespace Layout

/-- Zeros are digits. -/
theorem zeros_digits (count : Nat) : ∀ c ∈ zeros count, c.isDigit = true := by
  intro c member
  rw [List.eq_of_mem_replicate member]
  rfl

theorem zeros_length (count : Nat) : (zeros count).length = count := List.length_replicate

variable {digits : Digits}

/-- The layout of a decimal depends on the power of ten of its leading digit. -/
theorem spell_digits_eq (digits : Digits) : stored.spellDigits digits =
    if stored.isPositional digits.power then
      if 0 ≤ digits.exponent then
        natural digits.coefficient ++ zeros digits.exponent.toNat ++ stored.wholeEnd
      else if 0 ≤ digits.power then
        (natural digits.coefficient).take (digits.power + 1).toNat ++
          '.' :: (natural digits.coefficient).drop (digits.power + 1).toNat
      else '0' :: '.' :: zeros (-digits.power - 1).toNat ++ natural digits.coefficient
    else
      (natural digits.coefficient).take 1 ++
        (if (natural digits.coefficient).length ≤ 1 then []
          else '.' :: (natural digits.coefficient).drop 1) ++
        'e' :: (if digits.power < 0 then ['-'] else stored.exponentSign) ++
        natural digits.power.natAbs :=
  rfl

/-- A whole number without an exponent is written with a zero behind the point. -/
theorem whole_spelled (positive : 0 < digits.coefficient)
    (positional : stored.isPositional digits.power = true) (whole : 0 ≤ digits.exponent) :
    ∃ spelling : Spelling, stored.spellDigits digits = spelling.text ∧
      (spelling.significand, spelling.power) = digits.written ∧ spelling.exponent = none := by
  refine ⟨⟨natural digits.coefficient ++ zeros digits.exponent.toNat, ['0'], [], none,
    extended_whole positive (zeros_digits _), by simp, .absent, .inl (by simp)⟩, ?_, ?_, rfl⟩
  · rw [spell_digits_eq, if_pos positional, if_pos whole]
    rfl
  · have zeros : zeros digits.exponent.toNat ++ ['0'] =
        List.replicate (digits.exponent.toNat + 1) '0' := List.replicate_succ'.symm
    rw [Digits.written, if_pos ⟨positional, whole⟩, Spelling.significand, List.append_assoc, zeros,
      Nat.ofDigitChars_append, of_natural, Nat.ofDigitChars_replicate_zero, Nat.mul_comm]
    rfl

/-- The point of a number that is neither whole nor below one stands between its digits. -/
theorem inner_spelled (positive : 0 < digits.coefficient)
    (positional : stored.isPositional digits.power = true) (fractional : digits.exponent < 0)
    (inside : 0 ≤ digits.power) :
    ∃ spelling : Spelling, stored.spellDigits digits = spelling.text ∧
      (spelling.significand, spelling.power) = digits.written ∧ spelling.exponent = none := by
  have count : ((natural digits.coefficient).drop (digits.power + 1).toNat).length =
      (-digits.exponent).toNat := by
    have power := digits.power_eq
    rw [List.length_drop]
    omega
  have behind : (natural digits.coefficient).drop (digits.power + 1).toNat ≠ [] :=
    List.ne_nil_of_length_pos (by omega)
  refine ⟨⟨(natural digits.coefficient).take (digits.power + 1).toNat,
    (natural digits.coefficient).drop (digits.power + 1).toNat, [], none,
    initial_whole positive (by omega),
    fun c member => natural_digits _ c (List.mem_of_mem_drop member), .absent, .inl behind⟩, ?_, ?_, rfl⟩
  · rw [spell_digits_eq, if_pos positional, if_neg fractional.not_ge, if_pos inside, Spelling.text,
      pointed, if_neg behind, List.append_nil]
  · rw [Digits.written, if_neg (fun both => fractional.not_ge both.2), Spelling.significand,
      List.take_append_drop, of_natural, Spelling.power, count]
    congr 1
    change (0 : Int) - _ = _
    omega

/-- A number below one without an exponent is written with zeros behind the point. -/
theorem small_spelled
    (positional : stored.isPositional digits.power = true) (fractional : digits.exponent < 0)
    (below : digits.power < 0) :
    ∃ spelling : Spelling, stored.spellDigits digits = spelling.text ∧
      (spelling.significand, spelling.power) = digits.written ∧ spelling.exponent = none := by
  have behind : zeros (-digits.power - 1).toNat ++ natural digits.coefficient ≠ [] :=
    List.append_ne_nil_of_right_ne_nil _ (natural_ne_nil _)
  refine ⟨⟨['0'], zeros (-digits.power - 1).toNat ++ natural digits.coefficient, [], none,
    natural_whole 0, fun c member => (List.mem_append.mp member).elim (zeros_digits _ c)
      (natural_digits _ c), .absent, .inl behind⟩, ?_, ?_, rfl⟩
  · rw [spell_digits_eq, if_pos positional, if_neg fractional.not_ge, if_neg below.not_ge,
      Spelling.text, pointed, if_neg behind, List.append_nil]
    rfl
  · have zeroFirst : ['0'] ++ (zeros (-digits.power - 1).toNat ++ natural digits.coefficient) =
        List.replicate ((-digits.power - 1).toNat + 1) '0' ++ natural digits.coefficient := rfl
    rw [Digits.written, if_neg (fun both => fractional.not_ge both.2), Spelling.significand, zeroFirst,
      Nat.ofDigitChars_append, Nat.ofDigitChars_replicate_zero, Nat.mul_zero, of_natural,
      Spelling.power, List.length_append, zeros_length]
    congr 1
    have power := digits.power_eq
    change (0 : Int) - _ = _
    omega

/-- A number with an exponent is written with one digit before the point. -/
theorem scientific_spelled (positive : 0 < digits.coefficient)
    (far : stored.isPositional digits.power = false) :
    ∃ spelling : Spelling, stored.spellDigits digits = spelling.text ∧
      (spelling.significand, spelling.power) = digits.written ∧
      spelling.exponent = some digits.power := by
  have sign : SpellsExponent
      ('e' :: (if digits.power < 0 then ['-'] else stored.exponentSign) ++
        natural digits.power.natAbs) (some digits.power) := by
    rcases lt_or_ge digits.power 0 with below | above
    · have spells := SpellsExponent.negative digits.power.natAbs
      rw [Int.ofNat_natAbs_of_nonpos below.le, neg_neg] at spells
      rw [if_pos below]
      exact spells
    · have spells := SpellsExponent.positive digits.power.natAbs
      rw [Int.natAbs_of_nonneg above] at spells
      rw [if_neg above.not_gt]
      exact spells
  have fraction : pointed ((natural digits.coefficient).drop 1) =
      if (natural digits.coefficient).length ≤ 1 then []
      else '.' :: (natural digits.coefficient).drop 1 := by
    simp only [pointed, List.drop_eq_nil_iff]
  refine ⟨⟨(natural digits.coefficient).take 1, (natural digits.coefficient).drop 1, _, _,
    initial_whole positive Nat.one_pos,
    fun c member => natural_digits _ c (List.mem_of_mem_drop member), sign, .inr nofun⟩, ?_, ?_, rfl⟩
  · rw [spell_digits_eq, far, if_neg Bool.false_ne_true, ← fraction]
    simp only [Spelling.text, List.append_assoc, List.cons_append]
  · have written : digits.written = (digits.coefficient, digits.exponent) :=
      if_neg fun both => Bool.false_ne_true (far.symm.trans both.1)
    rw [written, Spelling.significand, List.take_append_drop, of_natural, Spelling.power,
      List.length_drop]
    congr 1
    have length := Nat.length_toDigits_pos (b := 10) (n := digits.coefficient)
    change digits.power - _ = _
    rw [Digits.power, natural]
    omega

/-- A positive decimal is written as a numeral for its digits. -/
theorem stored_spelled (digits : Digits) (positive : 0 < digits.coefficient) :
    ∃ spelling : Spelling, stored.spellDigits digits = spelling.text ∧
      (spelling.significand, spelling.power) = digits.written ∧
      (spelling.exponent.getD 0).natAbs ≤ digits.power.natAbs := by
  cases positional : stored.isPositional digits.power with
  | false =>
    obtain ⟨spelling, text, scaled, exponent⟩ := scientific_spelled positive positional
    exact ⟨spelling, text, scaled, by rw [exponent]; exact Nat.le_refl _⟩
  | true =>
    have forms : ∃ spelling : Spelling, stored.spellDigits digits = spelling.text ∧
        (spelling.significand, spelling.power) = digits.written ∧ spelling.exponent = none := by
      rcases lt_or_ge digits.exponent 0 with fractional | whole
      · rcases lt_or_ge digits.power 0 with below | inside
        · exact small_spelled positional fractional below
        · exact inner_spelled positive positional fractional inside
      · exact whole_spelled positive positional whole
    obtain ⟨spelling, text, scaled, exponent⟩ := forms
    exact ⟨spelling, text, scaled, by rw [exponent]; exact Nat.zero_le _⟩

section Doubles

variable {x : Float} {value : Rounded}

/-- The magnitude of a finite double, where it is not zero, is a positive double. -/
theorem rounded_double (found : rounded? x = some value) (nonzero : value.significand ≠ 0) :
    value.IsDouble := by
  have fraction : (Double.fields x).2 < 2 ^ 52 := Nat.mod_lt _ (by decide)
  have field : (Double.fields x).1 < 2048 := Nat.mod_lt _ (by decide)
  rw [rounded?, Double.magnitude] at found
  split at found
  case h_1 least split =>
    cases found
    rw [split] at fraction
    exact {
      positive := Nat.pos_of_ne_zero nonzero
      bounded := by dsimp only at fraction ⊢; omega
      least := le_rfl
      greatest := by dsimp only [Double.leastExponent]; omega
      normal := .inr rfl
      narrow := by simp [Double.leastExponent] }
  case h_2 exponent fractionField other split =>
    rw [split] at fraction field
    dsimp only at fraction field
    have larger : exponent ≠ 0 := fun zero => other (by rw [zero])
    split at found
    case isTrue => cases found
    case isFalse special =>
      cases found
      exact {
        positive := Nat.pos_of_ne_zero nonzero
        bounded := by dsimp only [Double.fractionBits]; omega
        least := by dsimp only [Double.leastExponent]; omega
        greatest := by dsimp only [Double.leastExponent]; omega
        normal := .inl (Nat.le_add_right _ _)
        narrow := by simp [Double.leastExponent, Double.fractionBits] }

/-- The digits that are written for a double fit into the significand that is read, and the exponent is
no large number. -/
theorem written_fits (double : value.IsDouble) :
    (value.shortest .toEven).written.1 < Numeral.significandBound ∧
      (value.shortest .toEven).power.natAbs < Numeral.exponentBound := by
  obtain ⟨positive, bounded, low, high, -⟩ := Rounded.shortest_spec .toEven double
  have count : (natural (value.shortest .toEven).coefficient).length ≤ 18 :=
    (Nat.length_toDigits_le_iff (by decide) (by decide)).mpr
      (bounded.trans_lt (Nat.pow_lt_pow_right (by decide) (by decide)))
  have power := (value.shortest .toEven).power_eq
  constructor
  · rw [Digits.written]
    split
    case isTrue whole =>
      have near : (value.shortest .toEven).power < 16 :=
        of_decide_eq_true (Bool.and_eq_true_iff.mp whole.1).2
      have digits : (value.shortest .toEven).coefficient <
          10 ^ (natural (value.shortest .toEven).coefficient).length :=
        (Nat.length_toDigits_le_iff (by decide) Nat.length_toDigits_pos).mp le_rfl
      calc (value.shortest .toEven).coefficient * 10 ^ ((value.shortest .toEven).exponent.toNat + 1)
        _ < 10 ^ (natural (value.shortest .toEven).coefficient).length *
              10 ^ ((value.shortest .toEven).exponent.toNat + 1) :=
          Nat.mul_lt_mul_of_pos_right digits (Nat.pow_pos (by decide))
        _ = 10 ^ ((natural (value.shortest .toEven).coefficient).length +
              ((value.shortest .toEven).exponent.toNat + 1)) := (Nat.pow_add ..).symm
        _ ≤ 10 ^ 17 := Nat.pow_le_pow_right (by decide) (by omega)
        _ < Numeral.significandBound := by decide
    case isFalse => exact bounded.trans_lt (by decide)
  · have limit : Numeral.exponentBound = 2147483648 := rfl
    omega

/-- What the text of a double denotes. -/
theorem stored_denoted (found : rounded? x = some value) (nonzero : value.significand ≠ 0) :
    (Numeral.ofText? (stored.write x)).bind Numeral.toFloat? =
      (Numeral.scale? (value.shortest .toEven).written.1 (value.shortest .toEven).written.2).map
        fun read => if Double.isNegative x then -read else read := by
  have double := rounded_double found nonzero
  obtain ⟨positive, -⟩ := Rounded.shortest_spec .toEven double
  obtain ⟨spelling, text, written, near⟩ := stored_spelled (value.shortest .toEven) positive
  obtain ⟨fits, far⟩ := written_fits double
  have magnitude : stored.spellMagnitude x = spelling.text := by
    rw [spellMagnitude, found]
    dsimp only
    rw [if_neg nonzero]
    exact text
  have present : (Double.magnitude x).isSome = true := by
    rw [← Option.isSome_map]
    exact Option.isSome_of_eq_some found
  have defined : (x == x) = true :=
    Double.comparison_laws.equal_refl x ((Double.finite_iff x).mpr present)
  have spelled : stored.spell x =
      if Double.isNegative x then '-' :: spelling.text else spelling.text := by
    rw [spell, magnitude, if_pos defined]
  rw [← written] at fits ⊢
  rw [write, spelled]
  exact spelling.denoted _ fits (near.trans_lt far)

end Doubles

end Layout

end ProgramSearch.Decimal
