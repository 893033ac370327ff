import ProgramSearch.Decimal.Numeral
import ProgramSearch.Proofs.Number.Rounding

/-!
# Arithmetic of doubles

A rounded significand and exponent are packed into a double, and unpacking gives them back. So the result
of an operation is known when a double is known that covers the exact result, and in the range of doubles
it is finite. This holds for products and quotients of positive doubles, for natural numbers and for
powers of ten.
-/

namespace ProgramSearch.Double

open Float.Model Float.Model.UnpackedFloat Decimal

section Packing

variable {significand : ℕ} {exponent : ℤ}

/-- A significand without an implied leading bit is packed as it is. -/
theorem unpack_pack_least (sign : Sign) (positive : 0 < significand) (bounded : significand < 2 ^ 52) :
    (Float.Model.pack (.finite sign significand (-1074) positive)).unpack =
      .finite sign significand (-1074) positive := by
  have places : significand.log2 < 52 := (Nat.log2_lt positive.ne').mpr bounded
  have packed : UnpackedFloat.pack Format.binary64 (.finite sign significand (-1074) positive) =
      packComponents Format.binary64 sign 0#11 (BitVec.ofNat 52 significand) := by
    rw [UnpackedFloat.pack]
    dsimp only
    rw [if_neg, if_neg]
    · change ¬ significand.log2 + 1 = 53
      omega
    · decide
  have fraction : (BitVec.ofNat 52 significand).toNat = significand := by
    rw [BitVec.toNat_ofNat, Nat.mod_eq_of_lt bounded]
  have nonzero : BitVec.ofNat 52 significand ≠ 0#52 := by
    intro zero
    rw [zero] at fraction
    exact positive.ne fraction
  change UnpackedFloat.unpack Format.binary64 (UnpackedFloat.pack Format.binary64 _) = _
  rw [packed, UnpackedFloat.unpack]
  simp only [unpackExponent_packComponents, unpackMantissa_packComponents, unpackSign_packComponents]
  rw [if_neg (by decide), if_pos trivial, dif_neg nonzero]
  simp only [fraction]
  cases sign <;> rfl

/-- An exponent field between the special ones is kept. -/
theorem field_kept {field : ℕ} (some_ : 0 < field) (ordinary : field < 2047) :
    (BitVec.ofNat 11 field).toNat = field ∧ BitVec.ofNat 11 field ≠ -1#11 ∧
      BitVec.ofNat 11 field ≠ 0#11 := by
  have kept : (BitVec.ofNat 11 field).toNat = field := by
    rw [BitVec.toNat_ofNat, Nat.mod_eq_of_lt (by omega)]
  refine ⟨kept, fun special => ?_, fun special => ?_⟩
  · rw [special] at kept
    change 2047 = field at kept
    omega
  · rw [special] at kept
    change 0 = field at kept
    omega

/-- The leading bit of a full significand is put back in front of its fraction field. -/
theorem implied_of_full (full : 2 ^ 52 ≤ significand) (bounded : significand < 2 ^ 53) :
    (1#1 ++ BitVec.ofNat 52 significand).toNat = significand := by
  have joined : (1#1 ++ BitVec.ofNat 52 significand).toNat = 2 ^ 52 ||| significand % 2 ^ 52 := rfl
  rw [joined, Nat.or_comm, Nat.or_two_pow_eq_add_of_lt (Nat.mod_lt _ (by decide))]
  omega

/-- A significand with an implied leading bit is packed into its fields and found there again. -/
theorem unpack_pack_normal (sign : Sign) (positive : 0 < significand) (full : 2 ^ 52 ≤ significand)
    (bounded : significand < 2 ^ 53) (least : -1074 ≤ exponent) (greatest : exponent ≤ 971) :
    (Float.Model.pack (.finite sign significand exponent positive)).unpack =
      .finite sign significand exponent positive := by
  have places : significand.log2 = 52 :=
    (Nat.log2_eq_iff positive.ne').mpr ⟨full, bounded⟩
  obtain ⟨field, biased⟩ : ∃ field : ℕ, field = (exponent + 1075).toNat := ⟨_, rfl⟩
  have bias : (exponent + Format.binary64.exponentBias +
      Format.binary64.mantissaBitsWithoutImplicit).toNat = field := by
    rw [biased]
    change (exponent + 1023 + 52).toNat = (exponent + 1075).toNat
    congr 1
    ring
  have packed : UnpackedFloat.pack Format.binary64 (.finite sign significand exponent positive) =
      packComponents Format.binary64 sign (BitVec.ofNat 11 field) (BitVec.ofNat 52 significand) := by
    rw [UnpackedFloat.pack]
    simp only [bias]
    rw [if_neg, if_pos]
    · rw [places]
      rfl
    · change ¬ 2048 ≤ field + 1
      omega
  have range : 0 < field ∧ field < 2047 := by omega
  obtain ⟨stored, notSpecial, notLeast⟩ := field_kept range.1 range.2
  have unbiased : (field : ℤ) - (Format.binary64.exponentBias + (52 : ℕ)) = exponent := by
    change (field : ℤ) - (1023 + 52) = exponent
    omega
  change UnpackedFloat.unpack Format.binary64 (UnpackedFloat.pack Format.binary64 _) = _
  rw [packed, UnpackedFloat.unpack]
  simp only [unpackExponent_packComponents, unpackMantissa_packComponents, unpackSign_packComponents]
  rw [if_neg notSpecial, if_neg notLeast]
  simp only [implied_of_full full bounded, stored, unbiased]
  cases sign <;> rfl

/-- What is packed for a double is found when it is unpacked. -/
theorem unpack_pack {value : Rounded} (sign : Sign) (double : value.IsDouble) :
    (Float.Model.pack (.finite sign value.significand value.exponent double.positive)).unpack =
      .finite sign value.significand value.exponent double.positive := by
  rcases lt_or_ge value.significand (2 ^ 52) with small | full
  · obtain ⟨significand, exponent, narrow⟩ := value
    obtain rfl : exponent = -1074 := double.normal.resolve_left small.not_ge
    exact unpack_pack_least sign double.positive small
  · exact unpack_pack_normal sign double.positive full double.bounded double.least double.greatest

/-- The sign of a double that is negative or not. -/
def signOf (negative : Bool) : Sign := if negative then .negative else .positive

/-- A significand that is not zero is known from its value with a sign, and so is the sign. -/
theorem sign_of_apply {sign : Sign} {negative : Bool} {mantissa : ℕ} (some_ : 0 < mantissa)
    (same : (if negative then -(significand : ℤ) else significand) = sign.apply mantissa) :
    sign = signOf negative ∧ significand = mantissa := by
  cases sign <;> cases negative <;> simp [Sign.apply, signOf] at same ⊢ <;> omega

/-- A double with a significand and an exponent is unpacked into a zero or into its parts. -/
theorem unpack_parts {x : Float} (found : magnitude x = some (significand, exponent)) :
    (significand = 0 ∧ ∃ sign, x.toModel.unpack = .zero sign) ∨
      ∃ positive, x.toModel.unpack =
        .finite (signOf (isNegative x)) significand exponent positive := by
  have read := exact_eq x
  rw [exact, found] at read
  cases unpacked : x.toModel.unpack with
  | infinity | notANumber =>
    rw [unpacked] at read
    cases read
  | zero sign =>
    rw [unpacked] at read
    obtain ⟨none, -⟩ := Binary.mk.inj (Option.some.inj read)
    exact .inl ⟨by split at none <;> omega, sign, rfl⟩
  | finite sign mantissa power some_ =>
    rw [unpacked] at read
    obtain ⟨same, rfl⟩ := Binary.mk.inj (Option.some.inj read)
    obtain ⟨rfl, rfl⟩ := sign_of_apply some_ same
    exact .inr ⟨some_, rfl⟩

/-- A finite double that is not zero is unpacked into the parts that are read off its bits. -/
theorem unpack_of_magnitude {x : Float} (found : magnitude x = some (significand, exponent))
    (positive : 0 < significand) :
    x.toModel.unpack = .finite (signOf (isNegative x)) significand exponent positive := by
  rcases unpack_parts found with ⟨none, -⟩ | ⟨_, parts⟩
  · exact absurd none positive.ne'
  · exact parts

/-- A double of magnitude zero is one of the two zeros. -/
theorem zero_of_magnitude {x : Float} (found : magnitude x = some (0, exponent)) :
    x = 0.0 ∨ x = -0.0 := by
  rcases unpack_parts found with ⟨-, sign, unpacked⟩ | ⟨positive, -⟩
  · cases sign with
    | positive => exact .inl (eq_of_unpack unpacked)
    | negative => exact .inr (eq_of_unpack unpacked)
  · exact absurd positive (lt_irrefl 0)

end Packing

/-- The positive double with the given significand and exponent. -/
structure Carries (x : Float) (value : Rounded) : Prop where
  double : value.IsDouble
  unpacked : x.toModel.unpack = .finite .positive value.significand value.exponent double.positive

/-- The double is the result of rounding a positive rational number. -/
def Approximates (x : Float) (number : ℚ) : Prop :=
  ∃ result, Rounds number result ∧ x = .ofModel (.pack result)

variable {x y : Float} {value other : Rounded} {number : ℚ}

/-- A positive double is below the infinity. -/
theorem Carries.below_infinity (carries : Carries x value) : Number.below x Number.infinity = true := by
  rw [below_eq, carries.unpacked]
  rfl

/-- The opposite of a positive double has the same significand and exponent. -/
theorem Carries.neg (carries : Carries x value) : (-x).toModel.unpack =
    .finite .negative value.significand value.exponent carries.double.positive := by
  change (Float.Model.pack x.toModel.unpack.neg).unpack = _
  rw [carries.unpacked]
  exact unpack_pack .negative carries.double

/-- A number that a double covers is rounded to this double. -/
theorem Approximates.carries (approximates : Approximates x number) (double : value.IsDouble)
    (covers : value.Covers number) : Carries x value := by
  obtain ⟨result, rounds, rfl⟩ := approximates
  rw [rounds.covered double covers]
  exact ⟨double, unpack_pack .positive double⟩

/-- A number in the range of doubles is rounded to a double that covers it. -/
theorem Approximates.within (approximates : Approximates x number) (low : 2 ^ (-1074 : ℤ) ≤ number)
    (high : number < (2 ^ 53 - 1 / 2) * 2 ^ (971 : ℤ)) :
    ∃ value : Rounded, Carries x value ∧ value.Covers number := by
  obtain ⟨result, rounds, rfl⟩ := approximates
  obtain ⟨value, double, covers, rfl⟩ := rounds.within low high
  exact ⟨value, ⟨double, unpack_pack .positive double⟩, covers⟩

/-- A product approximates the product of the values. -/
theorem Carries.mul (first : Carries x value) (second : Carries y other) :
    Approximates (x * y) (value.toRat * other.toRat) := by
  refine ⟨_, mul_rounds first.double second.double, ?_⟩
  rw [← first.unpacked, ← second.unpacked]
  rfl

/-- A quotient approximates the quotient of the values. -/
theorem Carries.div (first : Carries x value) (second : Carries y other) :
    Approximates (x / y) (value.toRat / other.toRat) := by
  refine ⟨_, div_rounds first.double second.double, ?_⟩
  rw [← first.unpacked, ← second.unpacked]
  rfl

/-- A natural number with sixty-four bits is approximated. -/
theorem natural_approximates {natural : ℕ} (positive : 0 < natural) (bounded : natural < 2 ^ 64) :
    Approximates (UInt64.ofNat natural).toFloat natural := by
  refine ⟨_, nat_rounds positive, ?_⟩
  have same : (UInt64.ofNat natural).toNat = natural := by
    rw [UInt64.toNat_ofNat']
    exact Nat.mod_eq_of_lt bounded
  nth_rewrite 2 [← same]
  rfl

section Exact

/-- A natural number with fifty-three bits is the value of a double. -/
theorem natural_double {natural : ℕ} (positive : 0 < natural) (bounded : natural < 2 ^ 53) :
    ∃ value : Rounded, value.IsDouble ∧ value.toRat = natural := by
  have small : natural.log2 < 53 := (Nat.log2_lt positive.ne').mpr bounded
  have split : natural.log2 + (52 - natural.log2) = 52 := by omega
  refine ⟨doubleOf (natural * 2 ^ (52 - natural.log2)) (-(52 - natural.log2 : ℕ)),
    double_of_double (by positivity) ?_ (by omega) (by omega) (.inl ?_), ?_⟩
  · calc natural * 2 ^ (52 - natural.log2)
      _ < 2 ^ (natural.log2 + 1) * 2 ^ (52 - natural.log2) :=
        Nat.mul_lt_mul_of_pos_right Nat.lt_log2_self (by positivity)
      _ = 2 ^ 53 := by
        rw [← Nat.pow_add, Nat.add_right_comm, split]
  · calc 2 ^ 52
      _ = 2 ^ natural.log2 * 2 ^ (52 - natural.log2) := by rw [← Nat.pow_add, split]
      _ ≤ natural * 2 ^ (52 - natural.log2) :=
        Nat.mul_le_mul_right _ (Nat.log2_self_le positive.ne')
  · rw [Rounded.toRat, doubleOf]
    dsimp only
    rw [zpow_neg, zpow_natCast]
    push_cast
    exact mul_inv_cancel_right₀ (by positivity) _

/-- A natural number with fifty-three bits is converted exactly. -/
theorem natural_exact {natural : ℕ} (positive : 0 < natural) (bounded : natural < 2 ^ 53) :
    ∃ value : Rounded, Carries (UInt64.ofNat natural).toFloat value ∧ value.toRat = natural := by
  obtain ⟨value, double, same⟩ := natural_double positive bounded
  have approximates := natural_approximates positive (bounded.trans (by decide))
  exact ⟨value, approximates.carries double (same ▸ Rounded.covers_self value), same⟩

/-- Whether the double that stands for a power of ten has its value. -/
def isPower (power : ℕ) : Bool :=
  match magnitude (Numeral.powerOfTen power) with
  | some (significand, exponent) =>
    !isNegative (Numeral.powerOfTen power) && 2 ^ 52 ≤ significand && significand < 2 ^ 53 &&
      -1074 ≤ exponent && exponent ≤ 971 &&
      significand * 2 ^ exponent.toNat == 10 ^ power * 2 ^ (-exponent).toNat
  | none => false

theorem power_table : ∀ power < 23, isPower power = true := by
  decide +kernel

/-- A small power of ten is exact. -/
theorem power_exact {power : ℕ} (small : power ≤ 22) :
    ∃ value : Rounded, Carries (Numeral.powerOfTen power) value ∧ value.toRat = 10 ^ power := by
  have entry := power_table power (by omega)
  rw [isPower] at entry
  split at entry
  case h_2 => exact nomatch entry
  case h_1 significand exponent found =>
    simp only [Bool.and_eq_true, Bool.not_eq_true', decide_eq_true_iff, beq_iff_eq] at entry
    obtain ⟨⟨⟨⟨⟨positive, full⟩, bounded⟩, least⟩, greatest⟩, same⟩ := entry
    have some_ : 0 < significand := by omega
    have unpacked := unpack_of_magnitude found some_
    rw [positive] at unpacked
    have scaled : (significand * 2 ^ exponent.toNat : ℚ) = 10 ^ power * 2 ^ (-exponent).toNat := by
      exact_mod_cast same
    refine ⟨doubleOf significand exponent,
      ⟨double_of_double some_ bounded least greatest (.inl full), unpacked⟩, ?_⟩
    rw [Rounded.power_split (by norm_num)] at scaled
    rw [Rounded.toRat, doubleOf]
    refine mul_right_cancel₀ (b := (2 : ℚ) ^ (-exponent).toNat) (by positivity) ?_
    linarith

/-- A power of ten is approximated. -/
theorem power_approximates {power : ℕ} (large : 22 < power) (inside : power ≤ 308) :
    Approximates (Numeral.powerOfTen power) (10 ^ power) := by
  have slow : Numeral.powerOfTen power =
      .ofModel (.pack (UnpackedFloat.ofScientific Format.binary64 1 power)) := by
    have beyond : ¬ (1 < 2 ^ 53 ∧ power ≤ 22) := by omega
    rw [Numeral.powerOfTen, Float.ofScientific, dif_neg beyond]
    rfl
  refine ⟨_, ⟨2 ^ 53 * 10 ^ power, -53, .exact, ?_, ?_, upward_of_full (.inl ?_)⟩, slow⟩
  · rw [UnpackedFloat.ofScientific, dif_neg Nat.one_ne_zero, if_neg, if_neg, if_pos]
    · rfl
    · omega
    · change ¬ (power : ℤ) < -(2048 + 0)
      omega
    · change ¬ (power : ℤ) > 2048
      omega
  · have same : (10 ^ power : ℚ) = (2 ^ 53 * 10 ^ power : ℕ) * 2 ^ (-53 : ℤ) := by
      push_cast
      norm_num
      ring
    rw [same]
    exact exact_represents _ _
  · calc 2 ^ 52
      _ ≤ 2 ^ 53 * 1 := by decide
      _ ≤ 2 ^ 53 * 10 ^ power := Nat.mul_le_mul_left _ (Nat.pow_pos (by decide))

end Exact

end ProgramSearch.Double
