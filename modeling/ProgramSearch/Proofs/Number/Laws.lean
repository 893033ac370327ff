import ProgramSearch.Program.Operator

/-!
# Laws of machine numbers

What can be said of programs up to numeric equality rests on two groups of facts. Comparing numbers
behaves as the comparison of values does, except that "not a number" equals nothing and that the two
zeros are equal. Calculating has its neutral and absorbing operands on finite numbers, and no
operator can turn the sign of a zero into more than the sign of a zero as long as its result is
finite.

Machines also use numbers as addresses and as conditions. Numbers that are equal point to the same
place, and "not a number" points nowhere and is no reason to go on.

Nothing is said of results that are not finite, and nothing of rounding.
-/

namespace ProgramSearch.Number

variable (α : Type) [Number α]

/-- Numeric equality is an equivalence of finite numbers that keeps finiteness and the sign. -/
structure ComparisonLaws : Prop where
  equal_refl : ∀ x : α, isFinite x = true → equal x x = true
  equal_symm : ∀ x y : α, equal x y = true → equal y x = true
  equal_trans : ∀ x y z : α, equal x y = true → equal y z = true → equal x z = true
  finite_of_equal : ∀ x y : α, equal x y = true → isFinite x = true → isFinite y = true
  positive_of_equal : ∀ x y : α, equal x y = true → positive x = positive y

/-- Neutral and absorbing operands of finite numbers, up to numeric equality, and operators that
give numerically equal results for numerically equal operands when the result is finite. -/
structure ArithmeticLaws : Prop where
  add_zero : ∀ x : α, isFinite x = true → equal (add x zero) x = true
  zero_add : ∀ x : α, isFinite x = true → equal (add zero x) x = true
  sub_zero : ∀ x : α, isFinite x = true → equal (sub x zero) x = true
  mul_one : ∀ x : α, isFinite x = true → equal (mul x one) x = true
  one_mul : ∀ x : α, isFinite x = true → equal (mul one x) x = true
  mul_zero : ∀ x : α, isFinite x = true → equal (mul x zero) zero = true
  zero_mul : ∀ x : α, isFinite x = true → equal (mul zero x) zero = true
  div_one : ∀ x : α, isFinite x = true → equal (div x one) x = true
  pow_zero : ∀ x : α, isFinite x = true → equal (pow x zero) one = true
  one_pow : ∀ x : α, isFinite x = true → equal (pow one x) one = true
  apply_equal : ∀ (op : Operator) (x y x' y' : α), isFinite (op.apply x y) = true →
    equal x x' = true → equal y y' = true → equal (op.apply x y) (op.apply x' y') = true

/-- Numbers that are numerically equal have the same exact value, and "not a number" has none and is
not positive. -/
structure LikenessLaws : Prop where
  exact_of_equal : ∀ x y : α, equal x y = true → exact x = exact y
  exact_of_nan : ∀ x : α, isNaN x = true → exact x = none
  positive_of_nan : ∀ x : α, isNaN x = true → positive x = false

end ProgramSearch.Number
