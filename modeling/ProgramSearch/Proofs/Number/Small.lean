import ProgramSearch.Proofs.Number.Laws

/-!
# A small system of numbers

Whole numbers of magnitude eight at most, with both zeros, overflow to infinities, and "not a
number". Operations work on values and know nothing of the sign of a zero. All of them compute, so
programs over these numbers can be run inside proofs, and the laws of comparison and of arithmetic
hold. The system shows that the laws can be met together; double precision meets them with rounding.
-/

namespace ProgramSearch

inductive Small where
  /-- The number that lies eight below the given one. -/
  | number (shifted : Fin 17)
  | negativeZero
  | infinite (negative : Bool)
  | undefined
deriving DecidableEq, Repr

namespace Small

/-- The value of a finite number. -/
def value? : Small → Option Int
  | number shifted => some ((shifted.val : Int) - 8)
  | negativeZero => some 0
  | infinite _ | undefined => none

/-- The place of a number among the others. The infinities enclose all values. -/
def place? : Small → Option Int
  | infinite true => some (-9)
  | infinite false => some 9
  | finite => finite.value?

/-- A value as a number. Values that are too large overflow. -/
def ofInt (value : Int) : Small :=
  if inside : -8 ≤ value ∧ value ≤ 8 then number ⟨(value + 8).toNat, by omega⟩
  else infinite (value < 0)

/-- An operation on values. Numbers without a value have no result. -/
def calculate (operation : Int → Int → Small) (x y : Small) : Small :=
  match x.value?, y.value? with
  | some a, some b => operation a b
  | _, _ => undefined

/-- A quotient rounded toward zero. -/
def quotient (a b : Int) : Small :=
  if b = 0 then if a = 0 then undefined else infinite (a < 0) else ofInt (a.tdiv b)

def power (a b : Int) : Small :=
  if b < 0 then quotient 1 (a ^ b.natAbs) else ofInt (a ^ b.natAbs)

/-- The quotient of two binary logarithms, each rounded down. -/
def logarithm (a b : Int) : Small :=
  if 0 < a ∧ 0 < b then quotient a.natAbs.log2 b.natAbs.log2 else undefined

instance : Number Small where
  zero := ofInt 0
  one := ofInt 1
  nan := undefined
  infinity := infinite false
  negativeInfinity := infinite true
  add := calculate fun a b => ofInt (a + b)
  sub := calculate fun a b => ofInt (a - b)
  mul := calculate fun a b => ofInt (a * b)
  div := calculate quotient
  rem := calculate fun a b => if b = 0 then undefined else ofInt (a.tmod b)
  pow := calculate power
  log := calculate logarithm
  equal x y :=
    match x.place?, y.place? with
    | some p, some q => p == q
    | _, _ => false
  below x y :=
    match x.place?, y.place? with
    | some p, some q => p < q
    | _, _ => false
  ofNat n := ofInt n
  exact x := x.value?.map fun value => ⟨value, 0⟩
  rank
    | infinite true => 0
    | number shifted => if shifted.val < 8 then shifted + 1 else shifted + 2
    | negativeZero => 9
    | infinite false => 19
    | undefined => 20

/-- Numbers are equal exactly when they have the same place. -/
theorem equal_iff (x y : Small) :
    Number.equal x y = true ↔ ∃ place, x.place? = some place ∧ y.place? = some place := by
  simp only [Number.equal]
  rcases x.place? with _ | p
  · simp
  · rcases y.place? with _ | q
    · simp
    · simp only [beq_iff_eq, Option.some.injEq]
      constructor
      · rintro rfl
        exact ⟨p, rfl, rfl⟩
      · rintro ⟨place, rfl, rfl⟩
        rfl

/-- The values are the places between the infinities. -/
theorem value_iff (x : Small) (value : Int) :
    x.value? = some value ↔ x.place? = some value ∧ -9 < value ∧ value < 9 := by
  cases x with
  | number shifted =>
    simp only [value?, place?, Option.some.injEq]
    omega
  | negativeZero =>
    simp only [value?, place?, Option.some.injEq]
    omega
  | infinite negative =>
    cases negative <;> simp [value?, place?] <;> omega
  | undefined => simp [value?, place?]

/-- Finite numbers are those with a value. -/
theorem finite_iff (x : Small) :
    Number.isFinite x = true ↔ ∃ value, x.value? = some value := by
  simp only [Number.isFinite, Number.below, Number.negativeInfinity, Number.infinity, value_iff]
  rcases x.place? with _ | p
  · simp [place?]
  · simp [place?]

/-- Small numbers obey the laws of comparison. -/
theorem comparison_laws : Number.ComparisonLaws Small where
  equal_refl x finite := by
    obtain ⟨value, found⟩ := (finite_iff x).mp finite
    have place := ((value_iff x value).mp found).1
    exact (equal_iff x x).mpr ⟨value, place, place⟩
  equal_symm x y same := by
    obtain ⟨place, first, second⟩ := (equal_iff x y).mp same
    exact (equal_iff y x).mpr ⟨place, second, first⟩
  equal_trans x y z first second := by
    obtain ⟨place, left, middle⟩ := (equal_iff x y).mp first
    obtain ⟨other, again, right⟩ := (equal_iff y z).mp second
    obtain rfl := Option.some.inj (middle.symm.trans again)
    exact (equal_iff x z).mpr ⟨place, left, right⟩
  finite_of_equal x y same finite := by
    obtain ⟨place, left, right⟩ := (equal_iff x y).mp same
    obtain ⟨value, found⟩ := (finite_iff x).mp finite
    obtain ⟨again, bounded⟩ := (value_iff x value).mp found
    obtain rfl := Option.some.inj (left.symm.trans again)
    exact (finite_iff y).mpr ⟨place, (value_iff y place).mpr ⟨right, bounded⟩⟩
  positive_of_equal x y same := by
    obtain ⟨place, left, right⟩ := (equal_iff x y).mp same
    simp only [Number.positive, Number.below, left, right]

/-- A number is "not a number" exactly when it has no place. -/
theorem nan_iff (x : Small) : Number.isNaN x = true ↔ x.place? = none := by
  simp only [Number.isNaN, Number.equal]
  cases x.place? <;> simp

/-- Small numbers that are alike are used alike. -/
theorem likeness_laws : Number.LikenessLaws Small where
  exact_of_equal x y same := by
    obtain ⟨place, left, right⟩ := (equal_iff x y).mp same
    have values : x.value? = y.value? := by
      ext value
      rw [value_iff, value_iff, left, right]
    simp only [Number.exact, values]
  exact_of_nan x undefined := by
    cases x with
    | undefined => rfl
    | number | negativeZero => simp [nan_iff, place?, value?] at undefined
    | infinite => rfl
  positive_of_nan x undefined := by
    have nowhere := (nan_iff x).mp undefined
    simp only [Number.positive, Number.below, nowhere]
    rfl

/-- A value that fits is the value of its number. -/
theorem value_of_int (value : Int) (inside : -9 < value ∧ value < 9) :
    (ofInt value).value? = some value := by
  have fits : -8 ≤ value ∧ value ≤ 8 := by omega
  simp only [ofInt, fits, and_self, dif_pos, value?]
  congr 1
  omega

/-- Numbers with the same value are equal. -/
theorem equal_of_value {x y : Small} {value : Int} (first : x.value? = some value)
    (second : y.value? = some value) : Number.equal x y = true :=
  (equal_iff x y).mpr ⟨value, ((value_iff x value).mp first).1, ((value_iff y value).mp second).1⟩

/-- An operation on a number and a constant that gives back the value of the number leaves a number
equal to it. -/
theorem neutral {x result : Small} (finite : Number.isFinite x = true)
    (computed : ∀ value, x.value? = some value → result = ofInt value) :
    Number.equal result x = true := by
  obtain ⟨value, found⟩ := (finite_iff x).mp finite
  have bounded := ((value_iff x value).mp found).2
  rw [computed value found]
  exact equal_of_value (value_of_int value bounded) found

/-- An operation on values gives equal results for equal operands, if its result is finite. -/
theorem calculate_equal (operation : Int → Int → Small) (x y x' y' : Small)
    (finite : Number.isFinite (calculate operation x y) = true)
    (left : Number.equal x x' = true) (right : Number.equal y y' = true) :
    Number.equal (calculate operation x y) (calculate operation x' y') = true := by
  obtain ⟨p, placeX, placeX'⟩ := (equal_iff x x').mp left
  obtain ⟨q, placeY, placeY'⟩ := (equal_iff y y').mp right
  have sameLeft : x.value? = x'.value? := by
    ext value
    rw [value_iff, value_iff, placeX, placeX']
  have sameRight : y.value? = y'.value? := by
    ext value
    rw [value_iff, value_iff, placeY, placeY']
  have same : calculate operation x y = calculate operation x' y' := by
    simp only [calculate, sameLeft, sameRight]
  exact same ▸ comparison_laws.equal_refl _ finite

/-- What an operation with a constant on the right leaves. -/
theorem calculate_right {x : Small} {constant : Int} (operation : Int → Int → Small)
    (inside : -9 < constant ∧ constant < 9) {value : Int} (found : x.value? = some value) :
    calculate operation x (ofInt constant) = operation value constant := by
  simp only [calculate, found, value_of_int constant inside]

/-- What an operation with a constant on the left leaves. -/
theorem calculate_left {x : Small} {constant : Int} (operation : Int → Int → Small)
    (inside : -9 < constant ∧ constant < 9) {value : Int} (found : x.value? = some value) :
    calculate operation (ofInt constant) x = operation constant value := by
  simp only [calculate, found, value_of_int constant inside]

/-- Small numbers obey the laws of arithmetic. -/
theorem arithmetic_laws : Number.ArithmeticLaws Small where
  add_zero x finite := neutral finite fun value found =>
    (calculate_right _ (by decide) found).trans (by rw [Int.add_zero])
  zero_add x finite := neutral finite fun value found =>
    (calculate_left _ (by decide) found).trans (by rw [Int.zero_add])
  sub_zero x finite := neutral finite fun value found =>
    (calculate_right _ (by decide) found).trans (by rw [Int.sub_zero])
  mul_one x finite := neutral finite fun value found =>
    (calculate_right _ (by decide) found).trans (by rw [Int.mul_one])
  one_mul x finite := neutral finite fun value found =>
    (calculate_left _ (by decide) found).trans (by rw [Int.one_mul])
  div_one x finite := neutral finite fun value found =>
    (calculate_right _ (by decide) found).trans (by simp [quotient])
  mul_zero x finite := by
    obtain ⟨value, found⟩ := (finite_iff x).mp finite
    have result : Number.mul x Number.zero = ofInt 0 :=
      (calculate_right _ (by decide) found).trans (by rw [Int.mul_zero])
    exact result ▸ (by decide)
  zero_mul x finite := by
    obtain ⟨value, found⟩ := (finite_iff x).mp finite
    have result : Number.mul Number.zero x = ofInt 0 :=
      (calculate_left _ (by decide) found).trans (by rw [Int.zero_mul])
    exact result ▸ (by decide)
  pow_zero x finite := by
    obtain ⟨value, found⟩ := (finite_iff x).mp finite
    have result : Number.pow x Number.zero = ofInt 1 :=
      (calculate_right _ (by decide) found).trans (by simp [power])
    exact result ▸ (by decide)
  one_pow x finite := by
    obtain ⟨value, found⟩ := (finite_iff x).mp finite
    have result : Number.pow Number.one x = ofInt 1 := by
      refine (calculate_left _ (by decide) found).trans ?_
      rw [power, Int.one_pow]
      simp [quotient]
    exact result ▸ (by decide)
  apply_equal op x y x' y' finite left right := by
    cases op <;> exact calculate_equal _ x y x' y' finite left right

end Small

end ProgramSearch
