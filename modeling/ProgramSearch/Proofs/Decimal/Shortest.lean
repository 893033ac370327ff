import Mathlib
import ProgramSearch.Decimal.Shortest

/-!
# The shortest decimal rounds back

The search for the shortest decimal works on whole numbers. Here its steps are read as statements about
rational numbers: the estimate of the magnitude is exact, a candidate lies in the interval of the numbers
that round to the machine number, and among seventeen digits there is always a candidate. So what the
search finds is a decimal in that interval.
-/

namespace ProgramSearch.Decimal

/-- The rational number that a decimal stands for. -/
def Digits.toRat (digits : Digits) : ℚ := digits.coefficient * 10 ^ digits.exponent

namespace Rounded

/-- The rational number that a machine number stands for. -/
def toRat (value : Rounded) : ℚ := value.significand * 2 ^ value.exponent

/-- A positive double. The significand has its leading bit unless the exponent is the least one, and the
lower neighbour is near when the significand consists of that bit alone. -/
structure IsDouble (value : Rounded) : Prop where
  positive : 0 < value.significand
  bounded : value.significand < 2 ^ 53
  least : -1074 ≤ value.exponent
  greatest : value.exponent ≤ 971
  normal : 2 ^ 52 ≤ value.significand ∨ value.exponent = -1074
  narrow : value.narrowBelow = true ↔ value.significand = 2 ^ 52 ∧ -1074 < value.exponent

/-- How far the interval reaches down, in quarters of the distance to the upper neighbour. -/
def reach (value : Rounded) : Nat := if value.narrowBelow then 1 else 2

/-- The lower end of the interval. -/
def lowerEnd (value : Rounded) : ℚ :=
  (4 * value.significand - value.reach) * 2 ^ (value.exponent - 2)

/-- The upper end of the interval. -/
def upperEnd (value : Rounded) : ℚ := (4 * value.significand + 2) * 2 ^ (value.exponent - 2)

/-- The rational number is not below the interval, whose ends belong to it when the significand is
even. -/
def NotBelow (value : Rounded) (number : ℚ) : Prop :=
  value.lowerEnd < number ∨ value.significand % 2 = 0 ∧ value.lowerEnd = number

/-- The rational number is not above the interval. -/
def NotAbove (value : Rounded) (number : ℚ) : Prop :=
  number < value.upperEnd ∨ value.significand % 2 = 0 ∧ number = value.upperEnd

/-- The rational number is one of those that round to the machine number. -/
structure Covers (value : Rounded) (number : ℚ) : Prop where
  notBelow : value.NotBelow number
  notAbove : value.NotAbove number

section Intervals

variable {value : Rounded} {number : ℚ}

/-- The value in quarters of the distance to the upper neighbour. -/
theorem to_rat_quarters (value : Rounded) :
    value.toRat = 4 * value.significand * 2 ^ (value.exponent - 2) := by
  rw [toRat, zpow_sub₀ (by norm_num)]
  ring

/-- The value lies above the lower end of its interval. -/
theorem lower_end_lt (value : Rounded) : value.lowerEnd < value.toRat := by
  have reaches : 0 < value.reach := by
    unfold reach
    split <;> decide
  have quarter : (0 : ℚ) < 2 ^ (value.exponent - 2) := by positivity
  rw [to_rat_quarters, lowerEnd]
  have below : (0 : ℚ) < value.reach := Nat.cast_pos.mpr reaches
  nlinarith

/-- The value lies below the upper end of its interval. -/
theorem lt_upper_end (value : Rounded) : value.toRat < value.upperEnd := by
  have quarter : (0 : ℚ) < 2 ^ (value.exponent - 2) := by positivity
  rw [to_rat_quarters, upperEnd]
  nlinarith

theorem covers_self (value : Rounded) : value.Covers value.toRat :=
  ⟨.inl (lower_end_lt value), .inl (lt_upper_end value)⟩

/-- The interval reaches down half the distance to the upper neighbour at most. -/
theorem reach_le (value : Rounded) : (value.reach : ℚ) ≤ 2 := by
  unfold reach
  split <;> norm_num

/-- A number that a double covers lies between the ends of the interval. -/
theorem ends_of_covers (covers : value.Covers number) :
    (4 * value.significand - value.reach) * 2 ^ (value.exponent - 2) ≤ number ∧
      number ≤ (4 * value.significand + 2) * 2 ^ (value.exponent - 2) :=
  ⟨covers.notBelow.elim le_of_lt fun tie => tie.2.le,
    covers.notAbove.elim le_of_lt fun tie => tie.2.le⟩

theorem covered_positive (double : value.IsDouble) (covers : value.Covers number) : 0 < number := by
  have unit : (0 : ℚ) < 2 ^ (value.exponent - 2) := by positivity
  have reach := reach_le value
  have one : (1 : ℚ) ≤ value.significand := by exact_mod_cast double.positive
  exact (mul_pos (by linarith) unit).trans_le (ends_of_covers covers).1

end Intervals

section Magnitude

/-- A power with a whole exponent is a quotient of powers with natural exponents. -/
theorem power_split {base : ℚ} (nonzero : base ≠ 0) (exponent : ℤ) :
    base ^ exponent.toNat = base ^ exponent * base ^ (-exponent).toNat := by
  rw [← zpow_natCast, ← zpow_natCast, ← zpow_add₀ nonzero]
  congr 1
  omega

/-- The factor that makes a power of ten and a power of two whole. -/
def common (ten two : ℤ) : ℚ := 2 ^ (-two).toNat * 10 ^ (-ten).toNat

theorem common_positive (ten two : ℤ) : 0 < common ten two := by
  unfold common
  positivity

/-- A power of ten on the common scale. -/
theorem ten_scaled (factor : ℕ) (ten two : ℤ) :
    ((factor * (10 ^ ten.toNat * 2 ^ (-two).toNat) : ℕ) : ℚ) = factor * 10 ^ ten * common ten two := by
  push_cast
  rw [power_split (by norm_num) ten, common]
  ring

/-- A power of two on the common scale. -/
theorem two_scaled (factor : ℕ) (ten two : ℤ) :
    ((factor * (2 ^ two.toNat * 10 ^ (-ten).toNat) : ℕ) : ℚ) = factor * 2 ^ two * common ten two := by
  push_cast
  rw [power_split (by norm_num) two, common]
  ring

/-- The estimated logarithm to the base ten of a power of two. -/
def estimate (two : ℤ) : ℤ := (two * 30103).fdiv 100000

/-- Whether a power of two lies between the estimated power of ten and the second next one. -/
def isClose (two : ℤ) : Bool :=
  10 ^ (estimate two).toNat * 2 ^ (-two).toNat ≤ 2 ^ two.toNat * 10 ^ (-estimate two).toNat &&
    2 ^ (two + 1).toNat * 10 ^ (-(estimate two + 2)).toNat ≤
      10 ^ (estimate two + 2).toNat * 2 ^ (-(two + 1)).toNat

/-- The estimate is close for all powers of two in the range of doubles. -/
theorem estimate_table : ((List.range 2098).all fun index => isClose (index - 1074)) = true := by
  decide +kernel

/-- A power of two in the range of doubles lies between the estimated power of ten and the second next
one. -/
theorem estimate_close (two : ℤ) (least : -1074 ≤ two) (greatest : two ≤ 1023) :
    (10 : ℚ) ^ estimate two ≤ 2 ^ two ∧ (2 : ℚ) ^ (two + 1) ≤ 10 ^ (estimate two + 2) := by
  have entry := List.all_eq_true.mp estimate_table (two + 1074).toNat (List.mem_range.mpr (by omega))
  rw [Int.toNat_of_nonneg (by omega), add_sub_cancel_right, isClose, Bool.and_eq_true,
    decide_eq_true_iff, decide_eq_true_iff] at entry
  obtain ⟨low, high⟩ := entry
  have lowScaled : (1 * (10 ^ (estimate two).toNat * 2 ^ (-two).toNat) : ℕ) ≤
      1 * (2 ^ two.toNat * 10 ^ (-estimate two).toNat) := by omega
  have highScaled : (1 * (2 ^ (two + 1).toNat * 10 ^ (-(estimate two + 2)).toNat) : ℕ) ≤
      1 * (10 ^ (estimate two + 2).toNat * 2 ^ (-(two + 1)).toNat) := by omega
  rw [← Nat.cast_le (α := ℚ), ten_scaled, two_scaled, mul_le_mul_iff_left₀ (common_positive _ _)]
    at lowScaled
  rw [← Nat.cast_le (α := ℚ), ten_scaled, two_scaled, mul_le_mul_iff_left₀ (common_positive _ _)]
    at highScaled
  simpa using And.intro lowScaled highScaled

variable {value : Rounded}

/-- The magnitude is the exponent of the power of ten at or below the value. -/
theorem magnitude_spec (double : value.IsDouble) :
    (10 : ℚ) ^ value.magnitude ≤ value.toRat ∧ value.toRat < 10 ^ (value.magnitude + 1) := by
  have positive := Nat.pos_iff_ne_zero.mp double.positive
  have small : value.significand.log2 < 53 := (Nat.log2_lt positive).mpr double.bounded
  obtain ⟨low, high⟩ := estimate_close (value.significand.log2 + value.exponent)
    (by have := double.least; omega) (by have := double.greatest; omega)
  have unit : (0 : ℚ) < 2 ^ value.exponent := by positivity
  have above : (2 : ℚ) ^ (value.significand.log2 + value.exponent : ℤ) ≤ value.toRat := by
    rw [zpow_add₀ (by norm_num), toRat, mul_le_mul_iff_left₀ unit, zpow_natCast]
    exact_mod_cast Nat.log2_self_le positive
  have below : value.toRat < (2 : ℚ) ^ (value.significand.log2 + value.exponent + 1 : ℤ) := by
    rw [add_right_comm, zpow_add₀ (by norm_num), toRat, mul_lt_mul_iff_left₀ unit]
    exact_mod_cast Nat.lt_log2_self
  have reached : 10 ^ (estimate (value.significand.log2 + value.exponent) + 1).toNat *
        2 ^ (-value.exponent).toNat ≤ value.significand * 2 ^ value.exponent.toNat *
        10 ^ (-(estimate (value.significand.log2 + value.exponent) + 1)).toNat ↔
      (10 : ℚ) ^ (estimate (value.significand.log2 + value.exponent) + 1) ≤ value.toRat := by
    have ten := ten_scaled 1 (estimate (value.significand.log2 + value.exponent) + 1) value.exponent
    have two := two_scaled value.significand
      (estimate (value.significand.log2 + value.exponent) + 1) value.exponent
    rw [one_mul, Nat.cast_one, one_mul] at ten
    rw [← mul_assoc] at two
    rw [← Nat.cast_le (α := ℚ), ten, two, mul_le_mul_iff_left₀ (common_positive _ _), toRat]
  by_cases next : (10 : ℚ) ^ (estimate (value.significand.log2 + value.exponent) + 1) ≤ value.toRat
  · have found : value.magnitude = estimate (value.significand.log2 + value.exponent) + 1 :=
      if_pos (reached.mpr next)
    rw [found]
    refine ⟨next, below.trans_le (high.trans_eq ?_)⟩
    ring_nf
  · have found : value.magnitude = estimate (value.significand.log2 + value.exponent) :=
      if_neg fun holds => next (reached.mp holds)
    rw [found]
    exact ⟨low.trans above, not_le.mp next⟩

end Magnitude

section Candidates

variable {tie : Tie} {value : Rounded} {count : Nat} {digits : Digits}

/-- The decimals with the given number of digits are the multiples of a power of ten. -/
def gridExponent (value : Rounded) (count : Nat) : ℤ := value.magnitude + 1 - count

/-- A quarter of the distance between neighbours, as a whole number. -/
def quarter (value : Rounded) (count : Nat) : Nat :=
  2 ^ (value.exponent - 2).toNat * 10 ^ (-value.gridExponent count).toNat

/-- The distance between points of the grid, as a whole number. -/
def spacing (value : Rounded) (count : Nat) : Nat :=
  2 ^ (2 - value.exponent).toNat * 10 ^ (value.gridExponent count).toNat

/-- The multiple of the power of ten at or below the value. -/
def floorOf (value : Rounded) (count : Nat) : Nat :=
  4 * value.significand * value.quarter count / value.spacing count

/-- Whether a multiple of the power of ten is not below the interval. -/
def reachesUp (value : Rounded) (count multiple : Nat) : Bool :=
  let least := (4 * value.significand - if value.narrowBelow then 1 else 2) * value.quarter count
  decide (least < multiple * value.spacing count) ||
    (decide (value.significand % 2 = 0) && least == multiple * value.spacing count)

/-- Whether a multiple of the power of ten is not above the interval. -/
def reachesDown (value : Rounded) (count multiple : Nat) : Bool :=
  let greatest := (4 * value.significand + 2) * value.quarter count
  decide (multiple * value.spacing count < greatest) ||
    (decide (value.significand % 2 = 0) && multiple * value.spacing count == greatest)

/-- The candidate is one of the neighbours of the value among the multiples, if one fits. -/
theorem candidate_shape (tie : Tie) (value : Rounded) (count : Nat) :
    ∃ preferBelow : Bool, value.candidate? tie count =
      match value.reachesUp count (value.floorOf count),
        value.reachesDown count (value.floorOf count + 1) with
      | true, true => some ⟨if preferBelow then value.floorOf count else value.floorOf count + 1,
          value.gridExponent count⟩
      | true, false => some ⟨value.floorOf count, value.gridExponent count⟩
      | false, true => some ⟨value.floorOf count + 1, value.gridExponent count⟩
      | false, false => none :=
  ⟨_, rfl⟩

variable (value : Rounded) (count : Nat)

/-- The factor that makes the numbers of the search whole. -/
def scale : ℚ := common (value.gridExponent count) (value.exponent - 2)

theorem scale_positive : 0 < value.scale count := common_positive _ _

/-- A multiple of a quarter is that multiple on the common scale. -/
theorem quarter_scaled (factor : ℕ) :
    ((factor * value.quarter count : ℕ) : ℚ) =
      factor * 2 ^ (value.exponent - 2) * value.scale count :=
  two_scaled factor (value.gridExponent count) (value.exponent - 2)

/-- A multiple of the spacing is that multiple on the common scale. -/
theorem spacing_scaled (factor : ℕ) :
    ((factor * value.spacing count : ℕ) : ℚ) =
      factor * 10 ^ value.gridExponent count * value.scale count := by
  have scaled := ten_scaled factor (value.gridExponent count) (value.exponent - 2)
  rw [neg_sub] at scaled
  rw [spacing, Nat.mul_comm (2 ^ _), scaled, scale]

/-- The value is a multiple of a quarter. -/
theorem value_scaled :
    ((4 * value.significand * value.quarter count : ℕ) : ℚ) = value.toRat * value.scale count := by
  rw [quarter_scaled, to_rat_quarters]
  push_cast
  ring

variable {value count}

/-- Whole numbers decide whether a multiple is not below the interval. -/
theorem reaches_up_iff (positive : 0 < value.significand) (multiple : Nat) :
    value.reachesUp count multiple = true ↔
      value.NotBelow (multiple * 10 ^ value.gridExponent count) := by
  have reaches : value.reach ≤ 4 * value.significand := by
    unfold reach
    split <;> omega
  have least : (((4 * value.significand - value.reach) * value.quarter count : ℕ) : ℚ) =
      value.lowerEnd * value.scale count := by
    rw [quarter_scaled, Nat.cast_sub reaches, lowerEnd, Nat.cast_mul]
    rfl
  have spaced := value.spacing_scaled count multiple
  have scaled := value.scale_positive count
  have less : (4 * value.significand - value.reach) * value.quarter count <
      multiple * value.spacing count ↔ value.lowerEnd < multiple * 10 ^ value.gridExponent count := by
    rw [← Nat.cast_lt (α := ℚ), least, spaced, mul_lt_mul_iff_left₀ scaled]
  have same : (4 * value.significand - value.reach) * value.quarter count =
      multiple * value.spacing count ↔ value.lowerEnd = multiple * 10 ^ value.gridExponent count := by
    rw [← Nat.cast_inj (R := ℚ), least, spaced, mul_left_inj' scaled.ne']
  change (decide ((4 * value.significand - value.reach) * value.quarter count <
    multiple * value.spacing count) || (decide (value.significand % 2 = 0) &&
    (4 * value.significand - value.reach) * value.quarter count ==
      multiple * value.spacing count)) = true ↔ _
  rw [Bool.or_eq_true, Bool.and_eq_true, decide_eq_true_iff, decide_eq_true_iff, beq_iff_eq, less, same,
    NotBelow]

/-- Whole numbers decide whether a multiple is not above the interval. -/
theorem reaches_down_iff (multiple : Nat) :
    value.reachesDown count multiple = true ↔
      value.NotAbove (multiple * 10 ^ value.gridExponent count) := by
  have greatest : (((4 * value.significand + 2) * value.quarter count : ℕ) : ℚ) =
      value.upperEnd * value.scale count := by
    rw [quarter_scaled, upperEnd, Nat.cast_add, Nat.cast_mul]
    rfl
  have spaced := value.spacing_scaled count multiple
  have scaled := value.scale_positive count
  have less : multiple * value.spacing count < (4 * value.significand + 2) * value.quarter count ↔
      multiple * 10 ^ value.gridExponent count < value.upperEnd := by
    rw [← Nat.cast_lt (α := ℚ), greatest, spaced, mul_lt_mul_iff_left₀ scaled]
  have same : multiple * value.spacing count = (4 * value.significand + 2) * value.quarter count ↔
      multiple * 10 ^ value.gridExponent count = value.upperEnd := by
    rw [← Nat.cast_inj (R := ℚ), greatest, spaced, mul_left_inj' scaled.ne']
  rw [reachesDown, Bool.or_eq_true, Bool.and_eq_true, decide_eq_true_iff, decide_eq_true_iff,
    beq_iff_eq, less, same, NotAbove]

/-- The value lies between the two multiples that the search looks at. -/
theorem floor_spec (value : Rounded) (count : Nat) :
    value.floorOf count * 10 ^ value.gridExponent count ≤ value.toRat ∧
      value.toRat < (value.floorOf count + 1 : ℕ) * 10 ^ value.gridExponent count := by
  have scaled := value.scale_positive count
  have positive : 0 < value.spacing count := by
    unfold spacing
    positivity
  constructor
  · rw [← mul_le_mul_iff_left₀ scaled, ← value_scaled, ← spacing_scaled, Nat.cast_le]
    exact Nat.div_mul_le_self _ _
  · rw [← mul_lt_mul_iff_left₀ scaled, ← value_scaled, ← spacing_scaled, Nat.cast_lt]
    exact (Nat.lt_mul_div_succ _ positive).trans_eq (Nat.mul_comm _ _)

/-- A candidate lies in the interval and is next to the value. -/
theorem candidate_covered {tie : Tie} {digits : Digits} (positive : 0 < value.significand)
    (found : value.candidate? tie count = some digits) :
    value.Covers digits.toRat ∧ digits.exponent = value.gridExponent count ∧
      (digits.coefficient = value.floorOf count ∨ digits.coefficient = value.floorOf count + 1) := by
  obtain ⟨below, above⟩ := floor_spec value count
  -- Rounded down, the value stays above the lower end if that is in reach, and below the upper one.
  have coversBelow (fits : value.reachesUp count (value.floorOf count) = true) :
      value.Covers (value.floorOf count * 10 ^ value.gridExponent count) :=
    ⟨(reaches_up_iff positive _).mp fits, .inl (below.trans_lt (lt_upper_end value))⟩
  have coversAbove (fits : value.reachesDown count (value.floorOf count + 1) = true) :
      value.Covers ((value.floorOf count + 1 : ℕ) * 10 ^ value.gridExponent count) :=
    ⟨.inl ((lower_end_lt value).trans above), (reaches_down_iff _).mp fits⟩
  obtain ⟨prefer, shape⟩ := candidate_shape tie value count
  rw [shape] at found
  cases up : value.reachesUp count (value.floorOf count) with
  | false =>
    cases down : value.reachesDown count (value.floorOf count + 1) with
    | false =>
      rw [up, down] at found
      exact nomatch found
    | true =>
      rw [up, down] at found
      cases found
      exact ⟨coversAbove down, rfl, .inr rfl⟩
  | true =>
    cases down : value.reachesDown count (value.floorOf count + 1) with
    | false =>
      rw [up, down] at found
      cases found
      exact ⟨coversBelow up, rfl, .inl rfl⟩
    | true =>
      rw [up, down] at found
      cases prefer with
      | false =>
        cases found
        exact ⟨coversAbove down, rfl, .inr rfl⟩
      | true =>
        cases found
        exact ⟨coversBelow up, rfl, .inl rfl⟩

/-- Without a candidate, the points of the grid are at least as far apart as the ends of the interval. -/
theorem spacing_of_missing {tie : Tie} (positive : 0 < value.significand)
    (missing : value.candidate? tie count = none) :
    value.upperEnd - value.lowerEnd ≤ 10 ^ value.gridExponent count := by
  obtain ⟨prefer, shape⟩ := candidate_shape tie value count
  rw [shape] at missing
  have neither : value.reachesUp count (value.floorOf count) = false ∧
      value.reachesDown count (value.floorOf count + 1) = false := by
    cases up : value.reachesUp count (value.floorOf count) with
    | false =>
      cases down : value.reachesDown count (value.floorOf count + 1) with
      | false => exact ⟨rfl, rfl⟩
      | true =>
        rw [up, down] at missing
        exact nomatch missing
    | true =>
      cases down : value.reachesDown count (value.floorOf count + 1) <;>
        rw [up, down] at missing <;> exact nomatch missing
  have low : ¬value.NotBelow (value.floorOf count * 10 ^ value.gridExponent count) := by
    rw [← reaches_up_iff positive, neither.1]
    exact Bool.false_ne_true
  have high : ¬value.NotAbove ((value.floorOf count + 1 : ℕ) * 10 ^ value.gridExponent count) := by
    rw [← reaches_down_iff, neither.2]
    exact Bool.false_ne_true
  have lower := not_lt.mp (not_or.mp low).1
  have upper := not_lt.mp (not_or.mp high).1
  push_cast at upper
  linarith

/-- The multiple at or below the value has the given number of digits. -/
theorem floor_digits (double : value.IsDouble) (some_ : 0 < count) :
    0 < value.floorOf count ∧ value.floorOf count < 10 ^ count := by
  obtain ⟨below, above⟩ := floor_spec value count
  obtain ⟨low, high⟩ := magnitude_spec double
  have grid : (0 : ℚ) < 10 ^ value.gridExponent count := by positivity
  have lead : (10 : ℚ) ^ value.magnitude = 10 ^ (count - 1) * 10 ^ value.gridExponent count := by
    rw [← zpow_natCast, ← zpow_add₀ (by norm_num), gridExponent]
    congr 1
    omega
  have past : (10 : ℚ) ^ (value.magnitude + 1) = 10 ^ count * 10 ^ value.gridExponent count := by
    rw [← zpow_natCast, ← zpow_add₀ (by norm_num), gridExponent]
    congr 1
    omega
  constructor
  · have more := low.trans_lt above
    rw [lead, mul_lt_mul_iff_left₀ grid] at more
    have leading : 10 ^ (count - 1) < value.floorOf count + 1 := by exact_mod_cast more
    have one : 1 ≤ 10 ^ (count - 1) := Nat.one_le_pow _ _ (by decide)
    omega
  · have less := below.trans_lt high
    rw [past, mul_lt_mul_iff_left₀ grid] at less
    exact_mod_cast less

/-- There is always a candidate with seventeen digits. -/
theorem seventeen_suffice (tie : Tie) (double : value.IsDouble) :
    value.candidate? tie 17 ≠ none := by
  intro missing
  have wide := spacing_of_missing double.positive missing
  have low := (magnitude_spec double).1
  have grid : (10 : ℚ) ^ value.gridExponent 17 = 10 ^ value.magnitude / 10 ^ 16 := by
    rw [gridExponent, ← zpow_natCast, ← zpow_sub₀ (by norm_num)]
    congr 1
    push_cast
    ring
  have quarter : (0 : ℚ) < 2 ^ (value.exponent - 2) := by positivity
  have ends : (value.reach + 2 : ℚ) * 10 ^ 16 ≤ 4 * value.significand := by
    have scaled : (value.reach + 2 : ℚ) * 10 ^ 16 * 2 ^ (value.exponent - 2) ≤
        4 * value.significand * 2 ^ (value.exponent - 2) := by
      rw [← to_rat_quarters]
      rw [grid, le_div_iff₀ (by norm_num), upperEnd, lowerEnd] at wide
      linarith
    exact le_of_mul_le_mul_right scaled quarter
  have counted : (value.reach + 2) * 10 ^ 16 ≤ 4 * value.significand := by exact_mod_cast ends
  have bounded := double.bounded
  unfold reach at counted
  split at counted
  case isTrue narrow =>
    have single := (double.narrow.mp narrow).1
    omega
  case isFalse => omega

end Candidates

section Search

variable {value : Rounded} (tie : Tie)

/-- The search ends with a candidate, without the zeros at its end. -/
theorem search_found (double : value.IsDouble) (fuel count : Nat) (some_ : 0 < fuel)
    (room : fuel + count = 18) :
    ∃ length digits, count ≤ length ∧ length ≤ 17 ∧ value.candidate? tie length = some digits ∧
      value.search tie fuel count = digits.trim length := by
  induction fuel generalizing count with
  | zero => exact absurd some_ (Nat.lt_irrefl 0)
  | succ fuel inductionHypothesis =>
    rw [search]
    cases found : value.candidate? tie count with
    | some digits => exact ⟨count, digits, le_rfl, by omega, found, rfl⟩
    | none =>
      have more : 0 < fuel := by
        by_contra empty
        have last : count = 17 := by omega
        exact seventeen_suffice tie double (last ▸ found)
      obtain ⟨length, digits, later, inside, candidate, ended⟩ :=
        inductionHypothesis (count + 1) more (by omega)
      exact ⟨length, digits, by omega, inside, candidate, ended⟩

end Search

end Rounded

namespace Digits

/-- Dropping zeros at the end does not change the value. -/
theorem trim_to_rat (fuel : Nat) (digits : Digits) : (digits.trim fuel).toRat = digits.toRat := by
  induction fuel generalizing digits with
  | zero => rfl
  | succ fuel inductionHypothesis =>
    rw [trim]
    split
    case isTrue zero =>
      rw [inductionHypothesis, toRat, toRat, zpow_add₀ (by norm_num),
        Nat.cast_div (Nat.dvd_of_mod_eq_zero zero) (by norm_num)]
      push_cast
      ring
    case isFalse => rfl

/-- Dropping zeros at the end leaves a positive coefficient positive and makes it no larger. -/
theorem trim_coefficient (fuel : Nat) (digits : Digits) (positive : 0 < digits.coefficient) :
    0 < (digits.trim fuel).coefficient ∧ (digits.trim fuel).coefficient ≤ digits.coefficient := by
  induction fuel generalizing digits with
  | zero => exact ⟨positive, le_rfl⟩
  | succ fuel inductionHypothesis =>
    rw [trim]
    split
    case isTrue zero =>
      have rest := inductionHypothesis ⟨digits.coefficient / 10, digits.exponent + 1⟩ (by
        change 0 < digits.coefficient / 10
        omega)
      exact ⟨rest.1, rest.2.trans (Nat.div_le_self _ _)⟩
    case isFalse => exact ⟨positive, le_rfl⟩

/-- Dropping zeros at the end raises the exponent by at most their number. -/
theorem trim_exponent (fuel : Nat) (digits : Digits) :
    digits.exponent ≤ (digits.trim fuel).exponent ∧
      (digits.trim fuel).exponent ≤ digits.exponent + fuel := by
  induction fuel generalizing digits with
  | zero => exact ⟨le_rfl, (Int.add_zero _).ge⟩
  | succ fuel inductionHypothesis =>
    rw [trim]
    split
    case isTrue zero =>
      obtain ⟨low, high⟩ := inductionHypothesis ⟨digits.coefficient / 10, digits.exponent + 1⟩
      dsimp only at low high
      exact ⟨by omega, by push_cast; omega⟩
    case isFalse => exact ⟨le_rfl, by push_cast; omega⟩

end Digits

namespace Rounded

variable {value : Rounded}

/-- The magnitude of a double is that of a small power of ten. -/
theorem magnitude_bounds (double : value.IsDouble) :
    -330 ≤ value.magnitude ∧ value.magnitude ≤ 310 := by
  have positive := Nat.pos_iff_ne_zero.mp double.positive
  have small : value.significand.log2 < 53 := (Nat.log2_lt positive).mpr double.bounded
  have least := double.least
  have greatest := double.greatest
  have quotient : ((value.significand.log2 + value.exponent) * 30103).fdiv 100000 =
      (value.significand.log2 + value.exponent) * 30103 / 100000 :=
    Int.fdiv_eq_ediv_of_nonneg _ (by decide)
  simp only [magnitude, quotient]
  split <;> omega

/-- The shortest decimal of a double has at most seventeen digits and rounds to the double. -/
theorem shortest_spec (tie : Tie) (double : value.IsDouble) :
    0 < (value.shortest tie).coefficient ∧ (value.shortest tie).coefficient ≤ 10 ^ 17 ∧
      -400 ≤ (value.shortest tie).exponent ∧ (value.shortest tie).exponent ≤ 400 ∧
      value.Covers (value.shortest tie).toRat := by
  obtain ⟨length, digits, some_, inside, candidate, ended⟩ :=
    search_found tie double 17 1 (by decide) rfl
  obtain ⟨covered, placed, next⟩ := candidate_covered double.positive candidate
  obtain ⟨floorPositive, floorBounded⟩ := floor_digits double (Nat.lt_of_lt_of_le Nat.one_pos some_)
  obtain ⟨low, high⟩ := magnitude_bounds double
  have large : 10 ^ length ≤ 10 ^ 17 := Nat.pow_le_pow_right (by decide) inside
  have positive : 0 < digits.coefficient := by rcases next with same | same <;> omega
  obtain ⟨trimmedPositive, trimmedBounded⟩ := Digits.trim_coefficient length digits positive
  obtain ⟨trimmedLow, trimmedHigh⟩ := Digits.trim_exponent length digits
  rw [gridExponent] at placed
  rw [shortest, ended]
  refine ⟨trimmedPositive, ?_, by omega, by omega, ?_⟩
  · rcases next with same | same <;> omega
  · rw [Digits.trim_to_rat]
    exact covered

end Rounded

end ProgramSearch.Decimal
