import Mathlib.Data.Rat.Floor
import Mathlib.Tactic.FieldSimp
import Mathlib.Tactic.Linarith
import ProgramSearch.Number.Binary

/-!
# Binary fractions as rational numbers

A binary fraction stands for a rational number. Scaling multiplies that number by a power of two,
rounding down is rounding down the number, and a fraction is whole when its number is.
-/

namespace ProgramSearch

namespace Binary

/-- The number that a binary fraction stands for. -/
def toRat (value : Binary) : ℚ := value.significand * 2 ^ value.exponent

/-- Scaling multiplies by a power of two. -/
theorem scale_to_rat (value : Binary) (power : Int) :
    (value.scale power).toRat = value.toRat * 2 ^ power := by
  rw [toRat, toRat, scale, zpow_add₀ two_ne_zero, mul_assoc]

/-- A negative exponent divides by a power of two. -/
theorem to_rat_neg (significand : Int) (down : Nat) :
    toRat ⟨significand, .negSucc down⟩ = significand / (2 ^ (down + 1) : Nat) := by
  rw [toRat, zpow_negSucc, div_eq_mul_inv]
  push_cast
  rfl

/-- A natural exponent leaves a whole number. -/
theorem to_rat_natural (significand : Int) (up : Nat) :
    toRat ⟨significand, .ofNat up⟩ = (significand * 2 ^ up : Int) := by
  rw [toRat]
  push_cast
  simp

/-- Rounding down is rounding down the number. -/
theorem floor_to_rat (value : Binary) : value.floor = ⌊value.toRat⌋ := by
  obtain ⟨significand, up | down⟩ := value
  · rw [to_rat_natural, Int.floor_intCast]
    rfl
  · rw [to_rat_neg, Rat.floor_intCast_div_natCast]
    exact Int.shiftRight_eq_div_pow significand (down + 1)

/-- A binary fraction is whole when its number is. -/
theorem whole_iff (value : Binary) : value.isWhole = true ↔ ∃ whole : Int, value.toRat = whole := by
  obtain ⟨significand, up | down⟩ := value
  · exact iff_of_true rfl ⟨_, to_rat_natural significand up⟩
  · have power : ((2 ^ (down + 1) : Nat) : ℚ) ≠ 0 := by positivity
    have scaled : ∀ whole : Int, toRat ⟨significand, .negSucc down⟩ = whole ↔
        whole * 2 ^ (down + 1) = significand := by
      intro whole
      rw [to_rat_neg, div_eq_iff power, eq_comm]
      norm_cast
    simp only [isWhole, beq_iff_eq, scaled, floor_to_rat]
    constructor
    · exact fun same => ⟨_, same⟩
    · rintro ⟨whole, same⟩
      rwa [(scaled whole).mpr same, Int.floor_intCast]

end Binary

end ProgramSearch
