import ProgramSearch.Proofs.Decimal.Layout
import ProgramSearch.Proofs.Number.Arithmetic

/-!
# Scaling significands

A significand is converted to a double and multiplied with or divided by a power of ten, and both steps
round. When the significand has at most fifty-three bits and the power of ten is exact, only the last step
rounds, and a decimal in the interval of a double is read as this double. In general the steps do not
leave the interval of the next few doubles. So what was written for a double is always read as some
number, also next to the greatest double.
-/

namespace ProgramSearch.Decimal

open Double

/-- What is written for a decimal has its value. -/
theorem Digits.written_to_rat (digits : Digits) :
    (digits.written.1 * 10 ^ digits.written.2 : ℚ) = digits.toRat := by
  rw [written]
  split
  case isTrue whole =>
    have exponent : (digits.exponent.toNat : ℤ) = digits.exponent := Int.toNat_of_nonneg whole.2
    have power : (10 : ℚ) ^ digits.exponent = 10 ^ digits.exponent.toNat := by
      rw [← zpow_natCast, exponent]
    rw [toRat, power]
    push_cast
    rw [pow_succ, zpow_neg_one]
    ring
  case isFalse => rfl

namespace Numeral

/-- The double that is scaled. -/
def start (significand : ℕ) : Float := (UInt64.ofNat significand).toFloat

variable {significand power : ℕ} {value : Rounded}

/-- A product is the result of scaling if it is finite. -/
theorem scale_up (inside : power ≤ stepLimit)
    (carries : Carries (start significand * powerOfTen power) value) :
    scale? significand power = some (start significand * powerOfTen power) := by
  have finite : start significand * powerOfTen power < 1.0 / 0.0 :=
    of_decide_eq_true carries.below_infinity
  change (if power ≤ stepLimit then
    if start significand * powerOfTen power < 1.0 / 0.0 then
      some (start significand * powerOfTen power) else none else _) = _
  rw [if_pos inside, if_pos finite]

/-- Scaling down by a power of ten within one step is a division. -/
theorem scale_down (inside : power < 307) :
    scale? significand (.negSucc power) = some (start significand / powerOfTen (power + 1)) := by
  have single : (power + 1) / stepLimit = 0 := Nat.div_eq_of_lt (by rw [stepLimit]; omega)
  change some (divideInSteps ((power + 1) / stepLimit) (start significand) (power + 1)) = _
  rw [single, divideInSteps]

/-- A decimal with a small significand and a small power of ten is read as the double that covers it. -/
theorem scale_exact {power : ℤ} (positive : 0 < significand) (bounded : significand < 2 ^ 53)
    (small : power.natAbs ≤ 22) (double : value.IsDouble)
    (covers : value.Covers (significand * 10 ^ power)) :
    ∃ read, scale? significand power = some read ∧ Carries read value := by
  obtain ⟨first, start, same⟩ := natural_exact positive bounded
  cases power with
  | ofNat up =>
    have inside : up ≤ 22 := small
    have step : up ≤ stepLimit := inside.trans (by decide)
    obtain ⟨second, factor, power⟩ := power_exact inside
    have product := start.mul factor
    rw [same, power] at product
    have carries := product.carries double (by simpa using covers)
    exact ⟨_, scale_up step carries, carries⟩
  | negSucc down =>
    have inside : down + 1 ≤ 22 := small
    obtain ⟨second, divisor, power⟩ := power_exact inside
    have quotient := start.div divisor
    rw [same, power] at quotient
    have carries := quotient.carries double (by simpa [div_eq_mul_inv, zpow_negSucc] using covers)
    exact ⟨_, scale_down (by omega), carries⟩

/-- The value of a double is close to the numbers from one on that it covers. -/
theorem value_close {number : ℚ} (double : value.IsDouble) (covers : value.Covers number)
    (large : 1 ≤ number) :
    value.toRat * (2 ^ 53 - 1) ≤ number * 2 ^ 53 ∧ number * 2 ^ 53 ≤ value.toRat * (2 ^ 53 + 1) := by
  obtain ⟨low, high⟩ := Rounded.ends_of_covers covers
  have unit : (0 : ℚ) < 2 ^ (value.exponent - 2) := by positivity
  have normal : 2 ^ 52 ≤ value.significand := by
    refine double.normal.resolve_right fun least => ?_
    have small : (2 : ℚ) ^ (value.exponent - 2) ≤ 2 ^ (-56 : ℤ) :=
      zpow_le_zpow_right₀ (by norm_num) (by omega)
    have bounded : (value.significand : ℚ) < 2 ^ 53 := by exact_mod_cast double.bounded
    have product := mul_le_mul_of_nonneg_right (bounded.le : _ ≤ _) unit.le
    norm_num at small product
    linarith
  have full : (2 ^ 52 : ℚ) * 2 ^ (value.exponent - 2) ≤
      value.significand * 2 ^ (value.exponent - 2) :=
    mul_le_mul_of_nonneg_right (by exact_mod_cast normal) unit.le
  have reach := mul_le_mul_of_nonneg_right (Rounded.reach_le value) unit.le
  rw [Rounded.to_rat_quarters]
  constructor <;> linarith

/-- Numbers that are not small are in the range of doubles at its lower end. -/
theorem range_low {number : ℚ} (large : 1 / 4 ≤ number) : 2 ^ (-1074 : ℤ) ≤ number := by
  have quarter : (2 : ℚ) ^ (-2 : ℤ) = 1 / 4 := by norm_num
  have power : (2 : ℚ) ^ (-1074 : ℤ) ≤ 2 ^ (-2 : ℤ) :=
    zpow_le_zpow_right₀ (by norm_num) (by norm_num)
  exact power.trans (quarter.trans_le large)

/-- Numbers below a large bound are in the range of doubles at its upper end. -/
theorem range_high {number : ℚ} (small : number ≤ 3 * 2 ^ (1022 : ℤ)) :
    number < (2 ^ 53 - 1 / 2) * 2 ^ (971 : ℤ) := by
  have split : 3 * (2 : ℚ) ^ (1022 : ℤ) = 3 * 2 ^ 51 * 2 ^ (971 : ℤ) := by
    rw [mul_assoc, ← zpow_natCast, ← zpow_add₀ (by norm_num)]
    rfl
  exact (small.trans_eq split).trans_lt (mul_lt_mul_of_pos_right (by norm_num) (by positivity))

theorem greatest_power : (10 : ℚ) ^ 308 ≤ 3 * 2 ^ (1022 : ℤ) := by
  have table : 10 ^ 308 ≤ 3 * 2 ^ 1022 := by decide +kernel
  have cast := (Nat.cast_le (α := ℚ)).mpr table
  rw [Nat.cast_mul, Nat.cast_pow, Nat.cast_pow, Nat.cast_ofNat, Nat.cast_ofNat, Nat.cast_ofNat,
    ← zpow_natCast 2] at cast
  exact cast

/-- A significand is close to the double that is scaled. -/
theorem start_covers (positive : 0 < significand) (bounded : significand < significandBound) :
    ∃ value : Rounded, Carries (start significand) value ∧ value.Covers significand := by
  have least : (1 : ℚ) ≤ significand := by exact_mod_cast positive
  have greatest : (significand : ℚ) < 2 ^ 64 := by exact_mod_cast bounded
  refine (natural_approximates positive bounded).within (range_low (by linarith)) (range_high ?_)
  have power : (2 : ℚ) ^ (64 : ℤ) ≤ 2 ^ (1022 : ℤ) :=
    zpow_le_zpow_right₀ (by norm_num) (by norm_num)
  have spelled : (2 : ℚ) ^ (64 : ℤ) = 2 ^ 64 := zpow_natCast 2 64
  rw [spelled] at power
  generalize (2 : ℚ) ^ (1022 : ℤ) = top at power ⊢
  linarith

/-- A power of ten is close to the double that stands for it. -/
theorem power_covers (inside : power ≤ stepLimit) :
    ∃ value : Rounded, Carries (powerOfTen power) value ∧ value.Covers (10 ^ power) := by
  rcases le_or_gt power 22 with small | large
  · obtain ⟨value, carries, same⟩ := power_exact small
    exact ⟨value, carries, same ▸ Rounded.covers_self value⟩
  · have least : (1 : ℚ) ≤ 10 ^ power := one_le_pow₀ (by norm_num)
    refine (power_approximates large inside).within (range_low (by linarith)) (range_high ?_)
    exact (pow_le_pow_right₀ (by norm_num) inside).trans greatest_power

/-- Scaling up does not overflow unless the value is next to the greatest double. -/
theorem scale_up_some (positive : 0 < significand) (bounded : significand < significandBound)
    (inside : power ≤ stepLimit)
    (room : (significand * 10 ^ power : ℚ) ≤ (2 ^ 53 - 7 / 2) * 2 ^ (971 : ℤ)) :
    (scale? significand power).isSome = true := by
  obtain ⟨first, start, near⟩ := start_covers positive bounded
  obtain ⟨second, factor, close⟩ := power_covers inside
  have unit : (0 : ℚ) < 2 ^ (971 : ℤ) := by positivity
  obtain ⟨firstLow, firstHigh⟩ := value_close start.double near (by exact_mod_cast positive)
  obtain ⟨secondLow, secondHigh⟩ := value_close factor.double close (one_le_pow₀ (by norm_num))
  have one : (1 : ℚ) ≤ significand := by exact_mod_cast positive
  have ten : (1 : ℚ) ≤ 10 ^ power := one_le_pow₀ (by norm_num)
  have halves : (1 / 2 : ℚ) ≤ first.toRat ∧ (1 / 2 : ℚ) ≤ second.toRat :=
    ⟨by linarith, by linarith⟩
  have low : 2 ^ (-1074 : ℤ) ≤ first.toRat * second.toRat := range_low (by nlinarith)
  have high : first.toRat * second.toRat < (2 ^ 53 - 1 / 2) * 2 ^ (971 : ℤ) := by
    have product : first.toRat * (2 ^ 53 - 1) * (second.toRat * (2 ^ 53 - 1)) ≤
        significand * 2 ^ 53 * (10 ^ power * 2 ^ 53) :=
      mul_le_mul firstLow secondLow (by linarith) (by positivity)
    generalize (2 : ℚ) ^ (971 : ℤ) = top at unit room ⊢
    linarith
  obtain ⟨value, carries, -⟩ := (start.mul factor).within low high
  rw [scale_up inside carries]
  rfl

end Numeral

namespace Rounded

variable {value : Rounded}

/-- The greatest doubles are written so that they can be read. -/
theorem greatest_table : ∀ less < 3,
    (Numeral.scale? (shortest .toEven ⟨2 ^ 53 - 1 - less, 971, false⟩).written.1
      (shortest .toEven ⟨2 ^ 53 - 1 - less, 971, false⟩).written.2).isSome = true := by
  decide +kernel

/-- A number that one of the other doubles covers leaves room for the error of scaling. -/
theorem room_below {number : ℚ} (double : value.IsDouble) (covers : value.Covers number)
    (other : ¬(value.exponent = 971 ∧ 2 ^ 53 - 4 < value.significand)) :
    number ≤ (2 ^ 53 - 7 / 2) * 2 ^ (971 : ℤ) := by
  refine (ends_of_covers covers).2.trans ?_
  have unit : (0 : ℚ) < 2 ^ (value.exponent - 2) := by positivity
  rcases lt_or_eq_of_le double.greatest with less | same
  · have bounded : (value.significand : ℚ) < 2 ^ 53 := by exact_mod_cast double.bounded
    have lower : (2 : ℚ) ^ (value.exponent - 2) ≤ 2 ^ (970 - 2 : ℤ) :=
      zpow_le_zpow_right₀ (by norm_num) (by omega)
    have power : (2 : ℚ) ^ (971 : ℤ) = 2 ^ (1 + 2) * 2 ^ (970 - 2 : ℤ) := quarter_power 970 1
    rw [power]
    generalize (2 : ℚ) ^ (970 - 2 : ℤ) = top at lower ⊢
    nlinarith
  · have bounded : value.significand ≤ 2 ^ 53 - 4 := by
      by_contra! more
      exact other ⟨same, more⟩
    have counted : (value.significand : ℚ) ≤ 2 ^ 53 - 4 := by
      have cast := (Nat.cast_le (α := ℚ)).mpr bounded
      norm_num at cast ⊢
      exact cast
    have power : (2 : ℚ) ^ (971 : ℤ) = 2 ^ (0 + 2) * 2 ^ (971 - 2 : ℤ) := quarter_power 971 0
    rw [same] at unit ⊢
    rw [power]
    generalize (2 : ℚ) ^ (971 - 2 : ℤ) = top at unit ⊢
    nlinarith

/-- A power of ten in the range of doubles is one of those that scaling uses. -/
theorem power_inside {up : ℕ} {number : ℚ} (double : value.IsDouble) (covers : value.Covers number)
    (least : 10 ^ up ≤ number) : up ≤ Numeral.stepLimit := by
  have table : 2 ^ 1024 < 10 ^ 309 := by decide +kernel
  have cast := (Nat.cast_lt (α := ℚ)).mpr table
  rw [Nat.cast_pow, Nat.cast_pow, Nat.cast_ofNat, Nat.cast_ofNat] at cast
  have high : number ≤ 2 ^ 1024 := by
    have bounded : (4 * value.significand + 2 : ℚ) ≤ 2 ^ 55 := by
      have counted : (value.significand + 1 : ℚ) ≤ 2 ^ 53 := by exact_mod_cast double.bounded
      linarith
    have lower : (2 : ℚ) ^ (value.exponent - 2) ≤ 2 ^ (969 : ℤ) :=
      zpow_le_zpow_right₀ (by norm_num) (by have := double.greatest; omega)
    have split : (2 : ℚ) ^ 1024 = 2 ^ 55 * 2 ^ (969 : ℤ) := by
      rw [← zpow_natCast, ← zpow_natCast, ← zpow_add₀ (by norm_num)]
      rfl
    rw [split]
    exact (ends_of_covers covers).2.trans (mul_le_mul bounded lower (by positivity) (by positivity))
  by_contra! more
  have power : (10 : ℚ) ^ 309 ≤ 10 ^ up := pow_le_pow_right₀ (by norm_num) more
  exact ((power.trans (least.trans high)).trans_lt cast).false

/-- What is written for a double can be read. -/
theorem written_readable (double : value.IsDouble) :
    (Numeral.scale? (value.shortest .toEven).written.1
      (value.shortest .toEven).written.2).isSome = true := by
  by_cases last : value.exponent = 971 ∧ 2 ^ 53 - 4 < value.significand
  · obtain ⟨significand, exponent, narrow⟩ := value
    obtain ⟨rfl, large⟩ : exponent = 971 ∧ 2 ^ 53 - 4 < significand := last
    have bounded : significand < 2 ^ 53 := double.bounded
    obtain rfl : narrow = false := by
      rw [← Bool.not_eq_true]
      intro holds
      obtain ⟨single, -⟩ : significand = 2 ^ 52 ∧ _ := double.narrow.mp holds
      omega
    have entry := greatest_table (2 ^ 53 - 1 - significand) (by omega)
    have same : 2 ^ 53 - 1 - (2 ^ 53 - 1 - significand) = significand := by omega
    rwa [same] at entry
  · obtain ⟨fits, -⟩ := Layout.written_fits double
    obtain ⟨-, -, -, -, covers⟩ := shortest_spec .toEven double
    rw [← Digits.written_to_rat] at covers
    generalize (value.shortest .toEven).written = written at fits covers ⊢
    obtain ⟨significand, power⟩ := written
    cases power with
    | negSucc down => rfl
    | ofNat up =>
      have spelled : (10 : ℚ) ^ (Int.ofNat up) = 10 ^ up := zpow_natCast 10 up
      rw [spelled] at covers
      have positive : 0 < significand := by
        refine Nat.pos_of_ne_zero fun none => (covered_positive double covers).ne ?_
        rw [none, Nat.cast_zero, zero_mul]
      have ten : (0 : ℚ) < 10 ^ up := by positivity
      have one : (1 : ℚ) ≤ significand := by exact_mod_cast positive
      have inside := power_inside double covers (le_mul_of_one_le_left ten.le one)
      exact Numeral.scale_up_some positive fits inside (room_below double covers last)

end Rounded

end ProgramSearch.Decimal
