import Mathlib.Data.Rat.Floor
import Mathlib.Tactic.FieldSimp
import Mathlib.Tactic.Linarith
import ProgramSearch.Memory.Paged
import ProgramSearch.Proofs.Number.Binary

/-!
# Addresses as rational numbers

A finite address stands for a rational number. It is valid when it is not negative or when it is a
whole multiple of the page size, and it names the cell that it rounds down to. The page and the
place of the cell in it are the quotient and the remainder of the number of the cell, so that no two
cells share a place and none has two.

A machine finds the same page and place in another way: it rounds down the quotient of the address
itself, and the remainder that has the sign of the address. A remainder below zero is folded to a
place past the end of the page and refused there.
-/

namespace ProgramSearch

namespace Address

/-- A number is a valid address when it is not negative or a whole multiple of the page size. -/
def Valid (number : ℚ) : Prop := 0 ≤ number ∨ ∃ page : Int, number = pageSize * page

/-- Where a cell lies. -/
def ofCell (cell : Int) : Address := ⟨cell / pageSize, (cell % pageSize).toNat⟩

/-- Different cells lie in different places. -/
theorem of_cell_injective {first second : Int} (same : ofCell first = ofCell second) :
    first = second := by
  obtain ⟨page, place⟩ := Address.mk.inj same
  simp only [pageSize] at page place
  omega

/-- A number is a whole multiple of the page size exactly when it is whole after scaling. -/
theorem multiple_iff (exact : Binary) :
    (exact.scale (-12)).isWhole = true ↔ ∃ page : Int, exact.toRat = pageSize * page := by
  have size : (2 : ℚ) ^ (-12 : Int) = (pageSize : ℚ)⁻¹ := by norm_num [pageSize]
  have positive : (pageSize : ℚ) ≠ 0 := by norm_num [pageSize]
  rw [Binary.whole_iff, Binary.scale_to_rat, size]
  refine exists_congr fun page => ?_
  rw [← div_eq_mul_inv, div_eq_iff positive, mul_comm]

/-- The address of a finite number is the place of its cell. -/
theorem of_exact_valid {exact : Binary} (valid : Valid exact.toRat) :
    ofExact? exact = some (ofCell ⌊exact.toRat⌋) := by
  have accepted : (decide (0 ≤ exact.floor) || (exact.scale (-12)).isWhole) = true := by
    rw [Bool.or_eq_true, decide_eq_true_eq, Binary.floor_to_rat, Int.floor_nonneg, multiple_iff]
    exact valid
  rw [ofExact?, if_pos accepted, Binary.floor_to_rat]
  rfl

/-- A number that is no valid address has no place. -/
theorem of_exact_invalid {exact : Binary} (invalid : ¬ Valid exact.toRat) :
    ofExact? exact = none := by
  have refused : ¬ (decide (0 ≤ exact.floor) || (exact.scale (-12)).isWhole) = true := by
    rw [Bool.or_eq_true, decide_eq_true_eq, Binary.floor_to_rat, Int.floor_nonneg, multiple_iff]
    exact invalid
  rw [ofExact?, if_neg refused]

/-- The remainder of a division by the page size, with the sign of the number. -/
def remainder (number : ℚ) : ℚ :=
  number - pageSize * (if 0 ≤ number then ⌊number / pageSize⌋ else ⌈number / pageSize⌉ : Int)

/-- The place in a page: the remainder rounded down, and folded past the end of the page when it is
below zero. There it is refused. -/
def folded? (number : ℚ) : Option Nat :=
  let index := ⌊remainder number⌋
  let place := if index < 0 then pageSize - 1 - index else index
  if place < pageSize then some place.toNat else none

/-- The remainder of a number that is not negative is the place of its cell. -/
theorem folded_natural {number : ℚ} (natural : 0 ≤ number) :
    folded? number = some (⌊number⌋ % pageSize).toNat := by
  have index : ⌊remainder number⌋ = ⌊number⌋ % pageSize := by
    rw [remainder, if_pos natural, Int.floor_div_natCast, Int.emod_def, ← Int.floor_sub_intCast]
    push_cast
    rfl
  have positive : (0 : Int) < pageSize := by decide
  have least := Int.emod_nonneg ⌊number⌋ (Int.ne_of_gt positive)
  have bounded := Int.emod_lt_of_pos ⌊number⌋ positive
  simp only [folded?, index, if_neg (Int.not_lt.mpr least), if_pos bounded]

/-- A whole multiple of the page size leaves nothing. -/
theorem folded_multiple (page : Int) : folded? (pageSize * page) = some 0 := by
  have positive : (pageSize : ℚ) ≠ 0 := by norm_num [pageSize]
  have nothing : remainder (pageSize * page) = 0 := by
    simp [remainder, mul_div_cancel_left₀ _ positive]
  simp only [folded?, nothing, Int.floor_zero]
  rfl

/-- Any other number below zero is folded past the end of the page. -/
theorem folded_refused {number : ℚ} (invalid : ¬ Valid number) : folded? number = none := by
  obtain ⟨natural, multiple⟩ := not_or.mp invalid
  have positive : (0 : ℚ) < pageSize := by norm_num [pageSize]
  have bounded : number ≤ pageSize * (⌈number / pageSize⌉ : Int) := by
    rw [← div_le_iff₀' positive]
    exact Int.le_ceil _
  have uneven : number ≠ pageSize * (⌈number / pageSize⌉ : Int) := fun same => multiple ⟨_, same⟩
  have below : ⌊remainder number⌋ < 0 := by
    rw [Int.floor_lt, remainder, if_neg natural]
    push_cast
    exact sub_neg.mpr (lt_of_le_of_ne bounded uneven)
  simp only [folded?, if_pos below]
  rw [if_neg (by omega)]

/-- Rounding the quotient and the remainder finds the same page and place. -/
theorem of_exact_folded (exact : Binary) :
    ofExact? exact = (folded? exact.toRat).map
      fun place => ⟨⌊exact.toRat / pageSize⌋, place⟩ := by
  by_cases valid : Valid exact.toRat
  · rw [of_exact_valid valid, Int.floor_div_natCast]
    rcases valid with natural | ⟨page, multiple⟩
    · rw [folded_natural natural]
      rfl
    · rw [multiple, folded_multiple, ← Int.cast_natCast, ← Int.cast_mul, Int.floor_intCast, ofCell,
        Int.mul_emod_right]
      rfl
  · rw [of_exact_invalid valid, folded_refused valid]
    rfl

end Address

end ProgramSearch
