import ProgramSearch.Proofs.Number.Laws

/-!
# Numbers that are alike

Two numbers are alike when they are numerically equal or both are "not a number". Values that differ
in the sign of a zero are alike, and so is every value to itself. A machine cannot tell numbers that
are alike apart, neither by a condition nor by an address.
-/

namespace ProgramSearch

variable {α : Type} [Number α]

/-- Numerically equal, or both "not a number". -/
def Alike (x y : α) : Prop :=
  Number.equal x y = true ∨ (Number.isNaN x = true ∧ Number.isNaN y = true)

instance (x y : α) : Decidable (Alike x y) := inferInstanceAs (Decidable (_ ∨ _))

namespace Alike

/-- Every number is alike to itself: only "not a number" differs from itself. -/
theorem refl (x : α) : Alike x x := by
  by_cases same : Number.equal x x = true
  · exact .inl same
  · exact .inr ⟨by simp [Number.isNaN, same], by simp [Number.isNaN, same]⟩

variable {x y : α}

/-- What is alike to a finite number is numerically equal to it. -/
theorem equal (comparison : Number.ComparisonLaws α) (alike : Alike x y)
    (finite : Number.isFinite x = true) : Number.equal x y = true := by
  rcases alike with same | ⟨undefined, _⟩
  · exact same
  · have reflexive := comparison.equal_refl x finite
    simp [Number.isNaN, reflexive] at undefined

/-- Numbers that are alike decide a condition alike. -/
theorem positive (comparison : Number.ComparisonLaws α) (likeness : Number.LikenessLaws α)
    (alike : Alike x y) : Number.positive x = Number.positive y := by
  rcases alike with same | ⟨left, right⟩
  · exact comparison.positive_of_equal x y same
  · rw [likeness.positive_of_nan x left, likeness.positive_of_nan y right]

/-- Numbers that are alike have the same exact value, if any. -/
theorem exact (likeness : Number.LikenessLaws α) (alike : Alike x y) :
    Number.exact x = Number.exact y := by
  rcases alike with same | ⟨left, right⟩
  · exact likeness.exact_of_equal x y same
  · rw [likeness.exact_of_nan x left, likeness.exact_of_nan y right]

end Alike

/-- Arrays of the same size whose cells are alike. A cell that is not there counts as zero. -/
structure ArraysAlike (left right : Array α) : Prop where
  sized : left.size = right.size
  cells : ∀ index, Alike (left.getD index Number.zero) (right.getD index Number.zero)

namespace ArraysAlike

/-- Every array is alike to itself. -/
theorem refl (cells : Array α) : ArraysAlike cells cells :=
  ⟨rfl, fun _ => .refl _⟩

variable {left right : Array α}

/-- Arrays are alike when they have the same size and their cells are alike wherever both have
one. -/
theorem of_cells (sized : left.size = right.size)
    (cells : ∀ (index : Nat) (x y : α), left[index]? = some x → right[index]? = some y →
      Alike x y) :
    ArraysAlike left right := by
  refine ⟨sized, fun index => ?_⟩
  rw [Array.getD_eq_getD_getElem?, Array.getD_eq_getD_getElem?]
  by_cases inside : index < left.size
  · have foundLeft := Array.getElem?_eq_getElem inside
    have foundRight := Array.getElem?_eq_getElem (sized ▸ inside : index < right.size)
    rw [foundLeft, foundRight]
    exact cells index _ _ foundLeft foundRight
  · have beyond := Nat.le_of_not_lt inside
    rw [Array.getElem?_eq_none beyond, Array.getElem?_eq_none (sized ▸ beyond)]
    exact .refl _

/-- Cells at the same place of arrays that are alike are alike. -/
theorem cell (alike : ArraysAlike left right) {index : Nat} {x y : α}
    (first : left[index]? = some x) (second : right[index]? = some y) : Alike x y := by
  have same := alike.cells index
  rwa [Array.getD_eq_getD_getElem?, Array.getD_eq_getD_getElem?, first, second] at same

/-- Changing a cell to numbers that are alike keeps arrays alike. -/
theorem set (alike : ArraysAlike left right) (index : Nat) {x y : α} (values : Alike x y) :
    ArraysAlike (left.setIfInBounds index x) (right.setIfInBounds index y) := by
  refine of_cells (by simp [alike.sized]) ?_
  intro place first second foundFirst foundSecond
  rw [Array.getElem?_setIfInBounds] at foundFirst foundSecond
  by_cases changed : index = place
  · rw [if_pos changed] at foundFirst foundSecond
    split at foundFirst
    · split at foundSecond
      · cases foundFirst
        cases foundSecond
        exact values
      · cases foundSecond
    · cases foundFirst
  · rw [if_neg changed] at foundFirst foundSecond
    exact alike.cell foundFirst foundSecond

/-- Replacing the leading cells of a buffer by arrays that are alike gives arrays that are alike. -/
theorem overlay (alike : ArraysAlike left right) (buffer : Array α) :
    ArraysAlike (left.extract 0 buffer.size ++ buffer.extract left.size buffer.size)
      (right.extract 0 buffer.size ++ buffer.extract right.size buffer.size) := by
  apply of_cells
  · simp [alike.sized]
  · intro index x y first second
    rw [Array.getElem?_append] at first second
    simp only [Array.size_extract, Nat.sub_zero, ← alike.sized] at first second
    by_cases inside : index < min buffer.size left.size
    · have within : index < min buffer.size left.size - 0 := by omega
      have withinRight : index < min buffer.size right.size - 0 := alike.sized ▸ within
      rw [if_pos inside, Array.getElem?_extract] at first second
      rw [if_pos within, Nat.zero_add] at first
      rw [if_pos withinRight, Nat.zero_add] at second
      exact alike.cell first second
    · rw [if_neg inside] at first second
      rw [first] at second
      cases second
      exact .refl x

end ArraysAlike

end ProgramSearch
