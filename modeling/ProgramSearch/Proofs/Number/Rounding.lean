import Mathlib
import ProgramSearch.Proofs.Decimal.Shortest
import ProgramSearch.Proofs.Number.Identity

/-!
# Rounding to doubles

The logical model of doubles rounds a result in three steps. It cuts the exact value at the place of its
last bit and keeps two more bits, which say where between two whole numbers the value lies. It rounds to
the nearest whole number, and if this overflows, it shifts once more. Each step is read here as a
statement about the exact rational value. Together they show that a value in the interval of a double is
rounded to this double.
-/

namespace ProgramSearch.Double

open Float.Model Float.Model.UnpackedFloat Decimal

/-- The whole number is the nearest one to a rational number, and the even one in the middle of two. -/
structure Nearest (number : ℚ) (whole : ℕ) : Prop where
  notBelow : (whole - 1 / 2 : ℚ) < number ∨ whole % 2 = 0 ∧ (whole - 1 / 2 : ℚ) = number
  notAbove : number < whole + 1 / 2 ∨ whole % 2 = 0 ∧ number = whole + 1 / 2

/-- The nearest whole numbers are in the order of the numbers to which they are nearest. -/
theorem Nearest.mono {number other : ℚ} {first second : ℕ} (left : Nearest number first)
    (right : Nearest other second) (ordered : number ≤ other) : first ≤ second := by
  by_contra! less
  have next : (second + 1 : ℚ) ≤ first := by exact_mod_cast less
  have low : (first - 1 / 2 : ℚ) ≤ number := left.notBelow.elim le_of_lt fun tie => tie.2.le
  have high : other ≤ second + 1 / 2 := right.notAbove.elim le_of_lt fun tie => tie.2.le
  have even : first % 2 = 0 ∧ second % 2 = 0 := by
    constructor
    · exact left.notBelow.elim (fun strict => by linarith) And.left
    · exact right.notAbove.elim (fun strict => by linarith) And.left
  have adjacent : first = second + 1 := by
    have same : (first : ℚ) = second + 1 := by linarith
    exact_mod_cast same
  omega

/-- A whole number that is nearest is not below another one. -/
theorem Nearest.le {number : ℚ} {first second : ℕ} (left : Nearest number first)
    (right : Nearest number second) : first ≤ second :=
  left.mono right le_rfl

/-- The nearest whole number is not above a whole number that is not below the given one. -/
theorem Nearest.le_of_le {number : ℚ} {whole bound : ℕ} (nearest : Nearest number whole)
    (below : number ≤ bound) : whole ≤ bound := by
  by_contra! more
  have next : (bound + 1 : ℚ) ≤ whole := by exact_mod_cast more
  have low : (whole - 1 / 2 : ℚ) ≤ number := nearest.notBelow.elim le_of_lt fun tie => tie.2.le
  linarith

/-- The nearest whole number is not below a whole number that is not above the given one. -/
theorem Nearest.ge_of_ge {number : ℚ} {whole bound : ℕ} (nearest : Nearest number whole)
    (above : bound ≤ number) : bound ≤ whole := by
  by_contra! less
  have next : (whole + 1 : ℚ) ≤ bound := by exact_mod_cast less
  have high : number ≤ whole + 1 / 2 := nearest.notAbove.elim le_of_lt fun tie => tie.2.le
  linarith

/-- There is only one nearest whole number. -/
theorem Nearest.unique {number : ℚ} {first second : ℕ} (left : Nearest number first)
    (right : Nearest number second) : first = second :=
  le_antisymm (left.le right) (right.le left)

/-- The value of the bit behind the last place. -/
def half (bit : Bool) : ℚ := if bit then 1 / 2 else 0

/-- A number was cut to a whole number and the bit behind its last place. The other bit says whether
anything was cut off. -/
structure Represents (cut : ExtendedMantissa) (number : ℚ) : Prop where
  least : cut.mantissa + half cut.roundBit ≤ number
  greatest : number < cut.mantissa + half cut.roundBit + 1 / 2
  exact : cut.stickyBit = false ↔ number = cut.mantissa + half cut.roundBit

/-- A bit behind the last place is not more than one half. -/
theorem half_bounds (bit : Bool) : 0 ≤ half bit ∧ half bit ≤ 1 / 2 := by
  cases bit <;> norm_num [half]

/-- A number lies between the whole number to which it was cut and the next one. -/
theorem Represents.bounds {cut : ExtendedMantissa} {number : ℚ} (represents : Represents cut number) :
    (cut.mantissa : ℚ) ≤ number ∧ number < cut.mantissa + 1 := by
  have bit := half_bounds cut.roundBit
  exact ⟨by linarith [represents.least], by linarith [represents.greatest]⟩

/-- The rounded whole number is the nearest one. -/
theorem Represents.nearest {cut : ExtendedMantissa} {number : ℚ}
    (represents : Represents cut number) : Nearest number cut.roundedMantissa := by
  obtain ⟨least, greatest, exact_⟩ := represents
  match cut with
  | ⟨whole, false, sticky⟩ =>
    have same : ExtendedMantissa.roundedMantissa ⟨whole, false, sticky⟩ = whole := by
      cases sticky <;> rfl
    simp only [half, Bool.false_eq_true, if_false, add_zero] at least greatest
    rw [same]
    exact ⟨.inl (by linarith), .inl greatest⟩
  | ⟨whole, true, true⟩ =>
    have next : ((ExtendedMantissa.roundedMantissa ⟨whole, true, true⟩ : ℕ) : ℚ) = whole + 1 :=
      Nat.cast_succ whole
    simp only [half, if_true, Bool.true_eq_false, false_iff] at least greatest exact_
    have more : (whole + 1 / 2 : ℚ) < number := lt_of_le_of_ne least (Ne.symm exact_)
    exact ⟨.inl (by rw [next]; linarith), .inl (by rw [next]; linarith)⟩
  | ⟨whole, true, false⟩ =>
    obtain rfl : number = whole + 1 / 2 := exact_.mp rfl
    have result : ExtendedMantissa.roundedMantissa ⟨whole, true, false⟩ = whole + whole % 2 := rfl
    rcases Nat.mod_two_eq_zero_or_one whole with even | odd
    · rw [result, even]
      exact ⟨.inl (by push_cast; linarith), .inr ⟨even, by push_cast; ring⟩⟩
    · rw [result, odd]
      exact ⟨.inr ⟨by omega, by push_cast; ring⟩, .inl (by push_cast; linarith)⟩

/-- Shifting by one place halves the number. -/
theorem Represents.shift_one {cut : ExtendedMantissa} {number : ℚ}
    (represents : Represents cut number) : Represents cut.shiftRightOne (number / 2) := by
  obtain ⟨least, greatest, exact_⟩ := represents
  have split : (cut.mantissa : ℚ) = 2 * (cut.mantissa / 2 : ℕ) + (cut.mantissa % 2 : ℕ) := by
    exact_mod_cast (Nat.div_add_mod cut.mantissa 2).symm
  have last : half (cut.mantissa % 2 != 0) = (cut.mantissa % 2 : ℕ) / 2 := by
    rcases Nat.mod_two_eq_zero_or_one cut.mantissa with even | odd
    · rw [even]
      norm_num [half]
    · rw [odd]
      norm_num [half]
  have bit := half_bounds cut.roundBit
  refine ⟨?_, ?_, ?_⟩
  · change ((cut.mantissa / 2 : ℕ) : ℚ) + half (cut.mantissa % 2 != 0) ≤ number / 2
    linarith
  · change number / 2 < ((cut.mantissa / 2 : ℕ) : ℚ) + half (cut.mantissa % 2 != 0) + 1 / 2
    linarith
  · change (cut.roundBit || cut.stickyBit) = false ↔
      number / 2 = ((cut.mantissa / 2 : ℕ) : ℚ) + half (cut.mantissa % 2 != 0)
    rw [Bool.or_eq_false_iff, exact_]
    constructor
    · rintro ⟨zero, same⟩
      have none : half cut.roundBit = 0 := by
        rw [zero]
        rfl
      linarith
    · intro same
      have none : half cut.roundBit = 0 := by linarith
      exact ⟨by simpa [half] using none, by linarith⟩

/-- Shifting divides the number by a power of two. -/
theorem Represents.shift {cut : ExtendedMantissa} {number : ℚ} (represents : Represents cut number)
    (places : Nat) : Represents (cut >>> places) (number / 2 ^ places) := by
  induction places with
  | zero =>
    rw [pow_zero, div_one]
    exact represents
  | succ places inductionHypothesis =>
    rw [pow_succ, ← div_div]
    exact inductionHypothesis.shift_one

section Shifts

variable {mantissa : ℕ} {exponent place : ℤ} {accuracy : Accuracy} {number : ℚ}

/-- Shifting up to an exponent leaves the number, in units of its last place. -/
theorem shift_to_exponent
    (given : Represents (.ofMantissaAndAccuracy mantissa accuracy) (number / 2 ^ exponent))
    (upward : exponent ≤ place) :
    Represents (shiftToExponent mantissa exponent accuracy place).1 (number / 2 ^ place) ∧
      (shiftToExponent mantissa exponent accuracy place).2 = place := by
  have steps : ((place - exponent).toNat : ℤ) = place - exponent := Int.toNat_of_nonneg (by omega)
  constructor
  · have divided : number / 2 ^ place =
        number / 2 ^ exponent / 2 ^ (place - exponent).toNat := by
      rw [div_div, ← zpow_natCast, ← zpow_add₀ (by norm_num), steps, add_sub_cancel]
    rw [divided]
    exact given.shift _
  · change exponent + ((place - exponent).toNat : ℤ) = place
    omega

/-- The exponent of the last place that a double has for a significand and an exponent. -/
def lastPlace (mantissa : ℕ) (exponent : ℤ) : ℤ := max (mantissa.log2 + exponent - 52) (-1074)

theorem target_eq (mantissa : ℕ) (exponent : ℤ) :
    Format.binary64.targetExponent (totalExponent mantissa exponent) = lastPlace mantissa exponent := by
  change max ((mantissa.log2 : ℤ) + 1 + exponent - 53) (-1074) = _
  rw [lastPlace]
  omega

theorem cut_mantissa (mantissa : ℕ) (accuracy : Accuracy) :
    (ExtendedMantissa.ofMantissaAndAccuracy mantissa accuracy).mantissa = mantissa := by
  match accuracy with
  | .exact | .inexact .lt | .inexact .eq | .inexact .gt => rfl

/-- A number has fifty-three places at most before the last place of its double. -/
theorem lt_of_last_place (given : Represents (.ofMantissaAndAccuracy mantissa accuracy)
    (number / 2 ^ exponent)) : number < 2 ^ (53 + lastPlace mantissa exponent) := by
  have unit : (0 : ℚ) < 2 ^ exponent := by positivity
  have next : (mantissa + 1 : ℚ) ≤ 2 ^ (mantissa.log2 + 1 : ℕ) := by
    exact_mod_cast Nat.succ_le_of_lt Nat.lt_log2_self
  calc number
    _ < (mantissa + 1) * 2 ^ exponent := by
      have bound := given.bounds.2
      rw [cut_mantissa, div_lt_iff₀ unit] at bound
      exact bound
    _ ≤ 2 ^ (mantissa.log2 + 1 : ℕ) * 2 ^ exponent := mul_le_mul_of_nonneg_right next unit.le
    _ = 2 ^ (mantissa.log2 + 1 + exponent : ℤ) := by
      rw [← zpow_natCast, ← zpow_add₀ (by norm_num), Nat.cast_succ]
    _ ≤ 2 ^ (53 + lastPlace mantissa exponent) :=
      zpow_le_zpow_right₀ (by norm_num) (by rw [lastPlace]; omega)

/-- A number has all these places unless the last place is the least one. -/
theorem le_of_last_place (given : Represents (.ofMantissaAndAccuracy mantissa accuracy)
    (number / 2 ^ exponent)) (upward : exponent ≤ lastPlace mantissa exponent) :
    lastPlace mantissa exponent = -1074 ∨ 2 ^ (52 + lastPlace mantissa exponent) ≤ number := by
  rcases max_choice (mantissa.log2 + exponent - 52) (-1074) with normal | least
  · right
    have full : 52 ≤ mantissa.log2 := by
      rw [lastPlace, normal] at upward
      omega
    have positive : mantissa ≠ 0 := by
      rintro rfl
      exact absurd full (by decide)
    have unit : (0 : ℚ) < 2 ^ exponent := by positivity
    have power : (2 ^ mantissa.log2 : ℚ) ≤ mantissa := by exact_mod_cast Nat.log2_self_le positive
    calc (2 : ℚ) ^ (52 + lastPlace mantissa exponent)
      _ = 2 ^ mantissa.log2 * 2 ^ exponent := by
        rw [lastPlace, normal, ← zpow_natCast, ← zpow_add₀ (by norm_num)]
        congr 1
        omega
      _ ≤ mantissa * 2 ^ exponent := mul_le_mul_of_nonneg_right power unit.le
      _ ≤ number := by
        have bound := given.bounds.1
        rwa [cut_mantissa, le_div_iff₀ unit] at bound
  · exact .inl least

/-- A significand that overflows is shifted by one place, the others stay. -/
theorem shift_again {whole : ℕ} (bounded : whole ≤ 2 ^ 53) (least : -1074 ≤ place) :
    shiftToTargetExponent Format.binary64 whole place .exact =
      if whole = 2 ^ 53 then (⟨2 ^ 52, false, false⟩, place + 1)
      else (⟨whole, false, false⟩, place) := by
  rw [shiftToTargetExponent, target_eq]
  split
  case isTrue overflow =>
    have single : lastPlace whole place - place = 1 := by
      rw [overflow, lastPlace, Nat.log2_two_pow]
      omega
    rw [shiftToExponent, single, overflow]
    rfl
  case isFalse other =>
    have small : whole.log2 ≤ 52 := by
      rcases Nat.eq_zero_or_pos whole with rfl | positive
      · decide
      · exact Nat.le_of_lt_succ ((Nat.log2_lt positive.ne').mpr (lt_of_le_of_ne bounded other))
    have none : (lastPlace whole place - place).toNat = 0 := by
      rw [lastPlace]
      omega
    rw [shiftToExponent, none]
    exact Prod.ext rfl (add_zero place)

end Shifts

/-- The double of a rounded significand, which may have overflowed. -/
def settled (sign : Sign) (whole : ℕ) (place : ℤ) : UnpackedFloat :=
  if zero : whole = 0 then .zero sign
  else if whole = 2 ^ 53 then .finite sign (2 ^ 52) (place + 1) (by decide)
  else .finite sign whole place (Nat.pos_of_ne_zero zero)

/-- Rounding finds the nearest significand at the last place of the double. -/
theorem round_spec {mantissa : ℕ} {exponent : ℤ} {accuracy : Accuracy} {number : ℚ} (sign : Sign)
    (given : Represents (.ofMantissaAndAccuracy mantissa accuracy) (number / 2 ^ exponent))
    (upward : exponent ≤ lastPlace mantissa exponent) :
    ∃ whole place,
      roundWithAccuracy Format.binary64 sign mantissa exponent accuracy = settled sign whole place ∧
      Nearest (number / 2 ^ place) whole ∧ whole ≤ 2 ^ 53 ∧ -1074 ≤ place ∧ number < 2 ^ (53 + place) ∧
      (place = -1074 ∨ 2 ^ (52 + place) ≤ number) := by
  obtain ⟨represents, placed⟩ := shift_to_exponent given upward
  have nearest := represents.nearest
  have above := lt_of_last_place given
  have least : -1074 ≤ lastPlace mantissa exponent := le_max_right _ _
  generalize cut : (shiftToExponent mantissa exponent accuracy
    (lastPlace mantissa exponent)).1.roundedMantissa = whole at nearest
  have bounded : whole ≤ 2 ^ 53 := by
    refine nearest.le_of_le ?_
    rw [zpow_add₀ (by norm_num)] at above
    rw [div_le_iff₀ (by positivity)]
    exact_mod_cast above.le
  refine ⟨whole, lastPlace mantissa exponent, ?_, nearest, bounded, least, above,
    le_of_last_place given upward⟩
  rw [roundWithAccuracy]
  have first : shiftToTargetExponent Format.binary64 mantissa exponent accuracy =
      shiftToExponent mantissa exponent accuracy (lastPlace mantissa exponent) := by
    rw [shiftToTargetExponent, target_eq]
  simp only [first, placed, cut, shift_again bounded least, settled]
  split <;> rename_i overflow
  · subst overflow
    rfl
  · rfl

section Covering

variable {value : Rounded} {number : ℚ}

/-- The quarters in which the interval of a double is counted. -/
theorem quarter_power (exponent : ℤ) (places : ℕ) :
    (2 : ℚ) ^ (places + exponent) = 2 ^ (places + 2) * 2 ^ (exponent - 2) := by
  rw [← zpow_natCast, ← zpow_add₀ (by norm_num)]
  congr 1
  push_cast
  ring

/-- In units of the last place of a double, the significand is nearest to what its interval covers. -/
theorem nearest_of_covers (covers : value.Covers number) :
    Nearest (number / 2 ^ value.exponent) value.significand := by
  have unit : (0 : ℚ) < 2 ^ (value.exponent - 2) := by positivity
  have whole := quarter_power value.exponent 0
  rw [Nat.cast_zero, zero_add] at whole
  have reach := mul_le_mul_of_nonneg_right (Rounded.reach_le value) unit.le
  constructor
  · rw [lt_div_iff₀ (by positivity), eq_div_iff (by positivity), whole]
    rcases covers.notBelow with more | ⟨even, same⟩
    · rw [Rounded.lowerEnd] at more
      exact .inl (by linarith)
    · rw [Rounded.lowerEnd] at same
      rcases lt_or_eq_of_le reach with near | far
      · exact .inl (by linarith)
      · exact .inr ⟨even, by linarith⟩
  · rw [div_lt_iff₀ (by positivity), div_eq_iff (by positivity), whole]
    rcases covers.notAbove with less | ⟨even, same⟩
    · rw [Rounded.upperEnd] at less
      exact .inl (by linarith)
    · rw [Rounded.upperEnd] at same
      exact .inr ⟨even, by linarith⟩

/-- A number below the binade of the double that covers it lies just below a power of two. -/
theorem covered_below {place : ℤ} (double : value.IsDouble) (covers : value.Covers number)
    (least : -1074 ≤ place) (above : number < 2 ^ (53 + place)) (lower : place < value.exponent) :
    value.significand = 2 ^ 52 ∧ place = value.exponent - 1 ∧
      Nearest (number / 2 ^ place) (2 ^ 53) := by
  have unit : (0 : ℚ) < 2 ^ (value.exponent - 2) := by positivity
  have low := (Rounded.ends_of_covers covers).1
  have reach := Rounded.reach_le value
  have normal : 2 ^ 52 ≤ value.significand := double.normal.resolve_right (by omega)
  have below : number < 2 ^ (52 + 2) * 2 ^ (value.exponent - 2) := by
    refine above.trans_le ?_
    rw [← quarter_power]
    exact zpow_le_zpow_right₀ (by norm_num) (by push_cast; omega)
  norm_num at below
  -- With a larger significand the whole interval would lie above the power of two.
  have single : value.significand = 2 ^ 52 := by
    have less := lt_of_mul_lt_mul_right (low.trans_lt below) unit.le
    have bound : (value.significand : ℚ) < 4503599627370497 := by linarith
    have counted : value.significand < 4503599627370497 := by exact_mod_cast bound
    omega
  have narrow : value.reach = 1 := if_pos (double.narrow.mpr ⟨single, by omega⟩)
  rw [single, narrow] at low
  push_cast at low
  have next : place = value.exponent - 1 := by
    by_contra other
    have far : number < 2 ^ (51 + 2) * 2 ^ (value.exponent - 2) := by
      refine above.trans_le ?_
      rw [← quarter_power]
      exact zpow_le_zpow_right₀ (by norm_num) (by push_cast; omega)
    have less := lt_of_mul_lt_mul_right (low.trans_lt far) unit.le
    norm_num at less
  have halves : (2 : ℚ) ^ place = 2 * 2 ^ (value.exponent - 2) := by
    rw [next, ← zpow_one_add₀ (by norm_num)]
    congr 1
    ring
  refine ⟨single, next, ?_, ?_⟩
  · rw [lt_div_iff₀ (by positivity), eq_div_iff (by positivity), halves]
    push_cast
    rcases lt_or_eq_of_le low with more | same
    · exact .inl (by linarith)
    · exact .inr ⟨by decide, by linarith⟩
  · rw [div_lt_iff₀ (by positivity), halves]
    push_cast
    exact .inl (by linarith)

/-- A nearest significand gives the double that covers the number. -/
theorem settled_covered (sign : Sign) {whole : ℕ} {place : ℤ} (double : value.IsDouble)
    (covers : value.Covers number) (nearest : Nearest (number / 2 ^ place) whole)
    (least : -1074 ≤ place) (above : number < 2 ^ (53 + place))
    (full : place = -1074 ∨ 2 ^ (52 + place) ≤ number) :
    settled sign whole place =
      .finite sign value.significand value.exponent double.positive := by
  have bounded := double.bounded
  rcases lt_trichotomy place value.exponent with lower | rfl | higher
  · obtain ⟨single, next, power⟩ := covered_below double covers least above lower
    obtain rfl := nearest.unique power
    simp only [settled, single, next, sub_add_cancel]
    rfl
  · obtain rfl := nearest.unique (nearest_of_covers covers)
    rw [settled, dif_neg double.positive.ne', if_neg bounded.ne]
  · have unit : (0 : ℚ) < 2 ^ (value.exponent - 2) := by positivity
    have high := (Rounded.ends_of_covers covers).2
    have least := double.least
    have large : 2 ^ (53 + 2) * 2 ^ (value.exponent - 2) ≤ number := by
      refine le_trans ?_ (full.resolve_left (by omega))
      rw [← quarter_power]
      exact zpow_le_zpow_right₀ (by norm_num) (by push_cast; omega)
    have more := le_of_mul_le_mul_right (large.trans high) unit
    have counted : 2 ^ (53 + 2) ≤ 4 * value.significand + 2 := by exact_mod_cast more
    omega

/-- The positive double with a significand and an exponent. -/
def doubleOf (significand : ℕ) (exponent : ℤ) : Rounded :=
  ⟨significand, exponent, decide (significand = 2 ^ 52 ∧ -1074 < exponent)⟩

theorem double_of_double {significand : ℕ} {exponent : ℤ} (positive : 0 < significand)
    (bounded : significand < 2 ^ 53) (least : -1074 ≤ exponent) (greatest : exponent ≤ 971)
    (normal : 2 ^ 52 ≤ significand ∨ exponent = -1074) : (doubleOf significand exponent).IsDouble :=
  ⟨positive, bounded, least, greatest, normal, decide_eq_true_iff⟩

/-- A significand that does not overflow covers the number to which it is nearest. -/
theorem covers_of_nearest {whole : ℕ} {place : ℤ} (nearest : Nearest (number / 2 ^ place) whole)
    (full : place = -1074 ∨ 2 ^ (52 + place) ≤ number) : (doubleOf whole place).Covers number := by
  have unit : (0 : ℚ) < 2 ^ (place - 2) := by positivity
  have power := quarter_power place 0
  rw [Nat.cast_zero, zero_add] at power
  obtain ⟨low, high⟩ := nearest
  rw [lt_div_iff₀ (by positivity), eq_div_iff (by positivity), power] at low
  rw [div_lt_iff₀ (by positivity), div_eq_iff (by positivity), power] at high
  constructor
  · rw [Rounded.NotBelow, Rounded.lowerEnd, Rounded.reach, doubleOf]
    by_cases narrow : whole = 2 ^ 52 ∧ -1074 < place
    · have large := full.resolve_left (by omega)
      have lead := quarter_power place 52
      push_cast at lead
      rw [lead] at large
      simp only [narrow, and_self, decide_true, if_true]
      left
      push_cast
      norm_num at large ⊢
      linarith
    · simp only [decide_eq_false narrow, Bool.false_eq_true, if_false]
      push_cast
      rcases low with less | ⟨even, same⟩
      · exact .inl (by linarith)
      · exact .inr ⟨even, by linarith⟩
  · rw [Rounded.NotAbove, Rounded.upperEnd, doubleOf]
    dsimp only
    rcases high with less | ⟨even, same⟩
    · exact .inl (by linarith)
    · exact .inr ⟨even, by linarith⟩

/-- A significand that overflows covers the number to which it is nearest after one more shift. -/
theorem covers_of_overflow {place : ℤ} (least : -1074 ≤ place)
    (nearest : Nearest (number / 2 ^ place) (2 ^ 53)) (above : number < 2 ^ (53 + place)) :
    (doubleOf (2 ^ 52) (place + 1)).Covers number := by
  have narrow : decide (2 ^ 52 = 2 ^ 52 ∧ -1074 < place + 1) = true :=
    decide_eq_true ⟨rfl, by omega⟩
  have unit : (0 : ℚ) < 2 ^ (place - 1) := by positivity
  have power : (2 : ℚ) ^ place = 2 * 2 ^ (place - 1) := by
    rw [← zpow_one_add₀ (by norm_num)]
    congr 1
    ring
  have lead := quarter_power (place + 1) 52
  have places : (place + 1 - 2) = place - 1 := by ring
  rw [places] at lead
  have same : (53 + place : ℤ) = (52 : ℕ) + (place + 1) := by
    push_cast
    ring
  rw [same, lead] at above
  have low := nearest.notBelow
  rw [lt_div_iff₀ (by positivity), eq_div_iff (by positivity), power] at low
  constructor
  · rw [Rounded.NotBelow, Rounded.lowerEnd, Rounded.reach, doubleOf]
    dsimp only
    rw [places, if_pos narrow]
    push_cast at low ⊢
    rcases low with less | ⟨-, same⟩
    · exact .inl (by linarith)
    · exact .inr ⟨by decide, by linarith⟩
  · rw [Rounded.NotAbove, Rounded.upperEnd, doubleOf]
    dsimp only
    rw [places]
    norm_num at above ⊢
    exact .inl (by linarith)

/-- A significand has all its places unless the last place is the least one. -/
theorem full_of_nearest {whole : ℕ} {place : ℤ} (nearest : Nearest (number / 2 ^ place) whole)
    (full : place = -1074 ∨ 2 ^ (52 + place) ≤ number) : 2 ^ 52 ≤ whole ∨ place = -1074 := by
  have unit : (0 : ℚ) < 2 ^ place := by positivity
  refine full.symm.imp_left fun large => nearest.ge_of_ge ?_
  rw [zpow_add₀ (by norm_num)] at large
  rw [le_div_iff₀ unit]
  exact_mod_cast large

/-- A number in the range of doubles has no last place beyond it. -/
theorem place_of_high {place : ℤ} (full : place = -1074 ∨ 2 ^ (52 + place) ≤ number)
    (high : number < (2 ^ 53 - 1 / 2) * 2 ^ (971 : ℤ)) : place ≤ 971 := by
  by_contra! more
  have large := (full.resolve_left (by omega)).trans_lt high
  have power : (2 : ℚ) ^ (53 + 971 : ℤ) ≤ 2 ^ (52 + place) :=
    zpow_le_zpow_right₀ (by norm_num) (by omega)
  have top : (0 : ℚ) < 2 ^ (971 : ℤ) := by positivity
  rw [zpow_add₀ (by norm_num)] at power
  generalize (2 : ℚ) ^ (971 : ℤ) = unit at top power large
  norm_num at power large
  linarith

/-- A number in the range of doubles does not overflow at its greatest last place. -/
theorem no_overflow (nearest : Nearest (number / 2 ^ (971 : ℤ)) (2 ^ 53)) :
    (2 ^ 53 - 1 / 2) * 2 ^ (971 : ℤ) ≤ number := by
  have unit : (0 : ℚ) < 2 ^ (971 : ℤ) := by positivity
  have below : (((2 ^ 53 : ℕ) : ℚ) - 1 / 2) ≤ number / 2 ^ (971 : ℤ) :=
    nearest.notBelow.elim le_of_lt fun tie => tie.2.le
  rwa [le_div_iff₀ unit, Nat.cast_pow, Nat.cast_ofNat] at below

/-- In the range of doubles, a nearest significand gives a double that covers the number. -/
theorem settled_covers (sign : Sign) {whole : ℕ} {place : ℤ}
    (nearest : Nearest (number / 2 ^ place) whole) (bounded : whole ≤ 2 ^ 53)
    (least : -1074 ≤ place) (above : number < 2 ^ (53 + place))
    (full : place = -1074 ∨ 2 ^ (52 + place) ≤ number) (low : 2 ^ (-1074 : ℤ) ≤ number)
    (high : number < (2 ^ 53 - 1 / 2) * 2 ^ (971 : ℤ)) :
    ∃ (value : Rounded) (double : value.IsDouble), value.Covers number ∧
      settled sign whole place = .finite sign value.significand value.exponent double.positive := by
  have normal := full_of_nearest nearest full
  have greatest := place_of_high full high
  have positive : 0 < whole := by
    rcases normal with large | rfl
    · omega
    · refine nearest.ge_of_ge ?_
      rw [le_div_iff₀ (by positivity), Nat.cast_one, one_mul]
      exact low
  by_cases overflow : whole = 2 ^ 53
  · subst overflow
    have room : place ≠ 971 := by
      rintro rfl
      exact (high.trans_le (no_overflow nearest)).false
    exact ⟨doubleOf (2 ^ 52) (place + 1), double_of_double (Nat.pow_pos (by decide))
      (Nat.pow_lt_pow_right (by decide) (by decide)) (by omega) (by omega) (.inl le_rfl),
      covers_of_overflow least nearest above, rfl⟩
  · have strict : whole < 2 ^ 53 := lt_of_le_of_ne bounded overflow
    refine ⟨doubleOf whole place, double_of_double positive strict least greatest normal,
      covers_of_nearest nearest full, ?_⟩
    rw [settled, dif_neg positive.ne', if_neg overflow]
    rfl

end Covering

/-- The unpacked number comes from rounding a positive rational number. -/
def Rounds (number : ℚ) (result : UnpackedFloat) : Prop :=
  ∃ mantissa exponent accuracy,
    result = roundWithAccuracy Format.binary64 .positive mantissa exponent accuracy ∧
      Represents (.ofMantissaAndAccuracy mantissa accuracy) (number / 2 ^ exponent) ∧
      exponent ≤ lastPlace mantissa exponent

namespace Rounds

variable {number : ℚ} {result : UnpackedFloat} {value : Rounded}

/-- A number that a double covers is rounded to this double. -/
theorem covered (rounds : Rounds number result) (double : value.IsDouble)
    (covers : value.Covers number) :
    result = .finite .positive value.significand value.exponent double.positive := by
  obtain ⟨mantissa, exponent, accuracy, rfl, given, upward⟩ := rounds
  obtain ⟨whole, place, result, nearest, -, least, above, full⟩ := round_spec .positive given upward
  rw [result]
  exact settled_covered .positive double covers nearest least above full

/-- A number in the range of doubles is rounded to a double that covers it. -/
theorem within (rounds : Rounds number result) (low : 2 ^ (-1074 : ℤ) ≤ number)
    (high : number < (2 ^ 53 - 1 / 2) * 2 ^ (971 : ℤ)) :
    ∃ (value : Rounded) (double : value.IsDouble), value.Covers number ∧
      result = .finite .positive value.significand value.exponent double.positive := by
  obtain ⟨mantissa, exponent, accuracy, rfl, given, upward⟩ := rounds
  obtain ⟨whole, place, result, nearest, bounded, least, above, full⟩ :=
    round_spec .positive given upward
  rw [result]
  exact settled_covers .positive nearest bounded least above full low high

end Rounds

section Operations

/-- A number is represented by a whole number, the bit behind it and whether there is a rest. -/
theorem rest_represents (whole : ℕ) {bit sticky : Bool} {rest : ℚ} (low : 0 ≤ rest)
    (high : rest < 1 / 2) (exact_ : sticky = false ↔ rest = 0) :
    Represents ⟨whole, bit, sticky⟩ (whole + half bit + rest) where
  least := by linarith
  greatest := by linarith
  exact := by
    rw [exact_]
    constructor <;> intro same <;> linarith

/-- The exact value of a significand and an exponent represents itself. -/
theorem exact_represents (mantissa : ℕ) (exponent : ℤ) :
    Represents (.ofMantissaAndAccuracy mantissa .exact)
      (mantissa * 2 ^ exponent / 2 ^ exponent) := by
  have unit : (2 : ℚ) ^ exponent ≠ 0 := by positivity
  have whole : (mantissa * 2 ^ exponent / 2 ^ exponent : ℚ) = mantissa + half false + 0 := by
    rw [mul_div_cancel_right₀ _ unit, half, if_neg Bool.false_ne_true, add_zero, add_zero]
  rw [whole]
  exact rest_represents mantissa le_rfl (by norm_num) (by simp)

/-- A whole number and a fraction are represented by the whole number and how the fraction compares to
one half. -/
theorem fraction_represents (whole : ℕ) {numerator denominator : ℕ}
    (proper : numerator < denominator) :
    Represents (.ofMantissaAndAccuracy whole (accuracyOfFraction numerator denominator))
      (whole + numerator / denominator) := by
  have positive : (0 : ℚ) < denominator := by exact_mod_cast Nat.zero_lt_of_lt proper
  have below : (numerator / denominator : ℚ) < 1 := by
    rw [div_lt_one positive]
    exact_mod_cast proper
  -- Compared to one half, the fraction is what its double is compared to one.
  have doubled : (2 * numerator / denominator : ℚ) = 2 * (numerator / denominator) := mul_div_assoc ..
  rw [accuracyOfFraction]
  split
  case isTrue zero =>
    have none : (whole + numerator / denominator : ℚ) = whole + half false + 0 := by
      simp [zero, half]
    rw [none]
    exact rest_represents whole le_rfl (by norm_num) (by simp)
  case isFalse nonzero =>
    have above : (0 : ℚ) < numerator / denominator :=
      div_pos (by exact_mod_cast Nat.pos_of_ne_zero nonzero) positive
    cases order : compare (2 * numerator) denominator with
    | lt =>
      have less : (2 * numerator / denominator : ℚ) < 1 := by
        rw [div_lt_one positive]
        exact_mod_cast Nat.compare_eq_lt.mp order
      have rest : (whole + numerator / denominator : ℚ) =
          whole + half false + numerator / denominator := by
        simp [half]
      rw [rest]
      exact rest_represents whole above.le (by linarith) (by simp [above.ne'])
    | eq =>
      have same : (2 * numerator / denominator : ℚ) = 1 := by
        rw [div_eq_one_iff_eq positive.ne']
        exact_mod_cast Nat.compare_eq_eq.mp order
      have rest : (whole + numerator / denominator : ℚ) = whole + half true + 0 := by
        rw [half, if_pos rfl]
        linarith
      rw [rest]
      exact rest_represents whole le_rfl (by norm_num) (by simp)
    | gt =>
      have more : (1 : ℚ) < 2 * numerator / denominator := by
        rw [one_lt_div positive]
        exact_mod_cast Nat.compare_eq_gt.mp order
      have rest : (whole + numerator / denominator : ℚ) =
          whole + half true + (numerator / denominator - 1 / 2) := by
        rw [half, if_pos rfl]
        linarith
      rw [rest]
      refine rest_represents whole (by linarith) (by linarith) ⟨nofun, fun zero => ?_⟩
      linarith

/-- A significand with all its places need not move up, nor does one at the least exponent. -/
theorem upward_of_full {mantissa : ℕ} {exponent : ℤ}
    (full : 2 ^ 52 ≤ mantissa ∨ exponent ≤ -1074) : exponent ≤ lastPlace mantissa exponent := by
  rw [lastPlace]
  rcases full with large | least
  · have places : 52 ≤ mantissa.log2 := by
      have positive : mantissa ≠ 0 := by
        rintro rfl
        exact absurd large (by decide)
      exact (Nat.le_log2 positive).mpr large
    omega
  · omega

variable {a b : Rounded}

/-- The product of two doubles is rounded. -/
theorem mul_rounds (first : a.IsDouble) (second : b.IsDouble) :
    Rounds (a.toRat * b.toRat) (mul Format.binary64
      (.finite .positive a.significand a.exponent first.positive)
      (.finite .positive b.significand b.exponent second.positive)) := by
  refine ⟨a.significand * b.significand, a.exponent + b.exponent, .exact, rfl, ?_, upward_of_full ?_⟩
  · have product : a.toRat * b.toRat =
        (a.significand * b.significand : ℕ) * 2 ^ (a.exponent + b.exponent) := by
      rw [Rounded.toRat, Rounded.toRat, zpow_add₀ (by norm_num)]
      push_cast
      ring
    rw [product]
    exact exact_represents _ _
  · rcases first.normal with large | least
    · exact .inl (large.trans (Nat.le_mul_of_pos_right _ second.positive))
    · rcases second.normal with large | least
      · exact .inl (large.trans (Nat.le_mul_of_pos_left _ first.positive))
      · right
        omega

/-- The quotient of two doubles is rounded. -/
theorem div_rounds (first : a.IsDouble) (second : b.IsDouble) :
    Rounds (a.toRat / b.toRat) (div Format.binary64
      (.finite .positive a.significand a.exponent first.positive)
      (.finite .positive b.significand b.exponent second.positive)) := by
  obtain ⟨place, placed⟩ : ∃ place : ℤ, place = min (a.exponent - b.exponent)
      (max ((a.significand.log2 + 1 + a.exponent : ℤ) - (b.significand.log2 + 1 + b.exponent) - 53)
        (-1074)) := ⟨_, rfl⟩
  obtain ⟨shift, shifted⟩ : ∃ shift : ℕ, shift = (a.exponent - b.exponent - place).toNat := ⟨_, rfl⟩
  have steps : (shift : ℤ) = a.exponent - b.exponent - place := by omega
  refine ⟨a.significand * 2 ^ shift / b.significand, place,
    accuracyOfFraction (a.significand * 2 ^ shift % b.significand) b.significand, ?_, ?_,
    upward_of_full ?_⟩
  · rw [placed] at shifted
    rw [placed, shifted, ← Nat.shiftLeft_eq]
    rfl
  · have fraction := fraction_represents (a.significand * 2 ^ shift / b.significand)
      (Nat.mod_lt (a.significand * 2 ^ shift) second.positive)
    have positive : (b.significand : ℚ) ≠ 0 := by exact_mod_cast second.positive.ne'
    have split : ((a.significand * 2 ^ shift : ℕ) : ℚ) =
        b.significand * (a.significand * 2 ^ shift / b.significand : ℕ) +
          (a.significand * 2 ^ shift % b.significand : ℕ) := by
      exact_mod_cast (Nat.div_add_mod _ _).symm
    have quotient : a.toRat / b.toRat / 2 ^ place =
        (a.significand * 2 ^ shift : ℕ) / b.significand := by
      rw [Rounded.toRat, Rounded.toRat, Nat.cast_mul, Nat.cast_pow, ← zpow_natCast, steps,
        zpow_sub₀ (by norm_num), zpow_sub₀ (by norm_num)]
      push_cast
      field_simp
    rw [quotient, split, add_div, mul_div_cancel_left₀ _ positive]
    exact fraction
  · refine (le_or_gt place (-1074)).symm.imp_left fun normal => ?_
    have room : 53 + b.significand.log2 ≤ a.significand.log2 + shift := by omega
    rw [Nat.le_div_iff_mul_le second.positive]
    calc 2 ^ 52 * b.significand
      _ ≤ 2 ^ 52 * 2 ^ (b.significand.log2 + 1) := Nat.mul_le_mul_left _ Nat.lt_log2_self.le
      _ = 2 ^ (53 + b.significand.log2) := by
        rw [← Nat.pow_add]
        congr 1
        omega
      _ ≤ 2 ^ (a.significand.log2 + shift) := Nat.pow_le_pow_right (by decide) room
      _ ≤ a.significand * 2 ^ shift := by
        rw [Nat.pow_add]
        exact Nat.mul_le_mul_right _ (Nat.log2_self_le first.positive.ne')

/-- A significand is given all its places before it is rounded, if its exponent leaves room for
them. -/
theorem round_shifts (sign : Sign) {mantissa : ℕ} (positive : 0 < mantissa) (exponent : ℤ) :
    ∃ shifted lower,
      UnpackedFloat.round Format.binary64 sign mantissa exponent =
        roundWithAccuracy Format.binary64 sign shifted lower .exact ∧
      Represents (.ofMantissaAndAccuracy shifted .exact) (mantissa * 2 ^ exponent / 2 ^ lower) ∧
      lower ≤ lastPlace shifted lower := by
  obtain ⟨shift, counted⟩ : ∃ shift : ℕ, shift = (exponent - lastPlace mantissa exponent).toNat :=
    ⟨_, rfl⟩
  refine ⟨mantissa * 2 ^ shift, exponent - shift, ?_, ?_, upward_of_full ?_⟩
  · rw [UnpackedFloat.round, target_eq]
    simp only [decreaseExponent, counted, Nat.shiftLeft_eq]
  · have same : (mantissa * 2 ^ exponent : ℚ) =
        (mantissa * 2 ^ shift : ℕ) * 2 ^ (exponent - shift : ℤ) := by
      rw [zpow_sub₀ (by norm_num), zpow_natCast]
      push_cast
      field_simp
    rw [same]
    exact exact_represents _ _
  · have room : 52 ≤ mantissa.log2 + shift ∨ exponent - shift ≤ -1074 := by
      rw [lastPlace] at counted
      omega
    refine room.imp_left fun full => ?_
    calc 2 ^ 52
      _ ≤ 2 ^ (mantissa.log2 + shift) := Nat.pow_le_pow_right (by decide) full
      _ ≤ mantissa * 2 ^ shift := by
        rw [Nat.pow_add]
        exact Nat.mul_le_mul_right _ (Nat.log2_self_le positive.ne')

/-- A positive natural number is rounded. -/
theorem nat_rounds {value : ℕ} (positive : 0 < value) :
    Rounds value (ofNat Format.binary64 value) := by
  have normalized : ofNat Format.binary64 value =
      UnpackedFloat.round Format.binary64 .positive value 0 := by
    have order : compare (value : ℤ) 0 = .gt := Int.compare_eq_gt.mpr (by omega)
    rw [UnpackedFloat.ofNat, UnpackedFloat.ofInt, UnpackedFloat.normalize, order]
    rfl
  obtain ⟨shifted, lower, same, represents, upward⟩ := round_shifts .positive positive 0
  rw [zpow_zero, mul_one] at represents
  exact ⟨shifted, lower, .exact, normalized.trans same, represents, upward⟩

end Operations

end ProgramSearch.Double
