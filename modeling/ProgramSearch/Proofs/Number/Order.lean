import ProgramSearch.Proofs.Number.Double

/-!
# The order of machine numbers

Comparing numbers compares their places on a line. "Not a number" has no place, equal numbers share
one, the infinity has the last one, and the total order of ranks only decides where the places are
the same. For doubles, the place is the sign applied to the exponent and fraction field read as one
number.
-/

namespace ProgramSearch

namespace Number

/-- Numbers other than "not a number" are in a strict order, up to equality. All of them lie below the
infinity, and the total order of ranks refines the numeric one. -/
structure OrderLaws (α : Type) [Number α] : Prop where
  defined_of_below : ∀ x y : α, below x y = true → isNaN x = false ∧ isNaN y = false
  below_asymm : ∀ x y : α, below x y = true → below y x = false
  /-- Whatever lies between two places is apart from one of them. -/
  below_split : ∀ x y z : α, below x z = true → isNaN y = false →
    below x y = true ∨ below y z = true
  below_of_infinite : ∀ x y : α, equal y infinity = true → isNaN x = false →
    equal x infinity = false → below x y = true
  rank_of_below : ∀ x y : α, below x y = true → rank x < rank y

variable {α : Type} [Number α]

/-- Numbers that are compared by their places on a line obey the laws of order. -/
theorem OrderLaws.of_places (place? : α → Option Int)
    (equal_iff : ∀ x y : α, equal x y = true ↔ ∃ p, place? x = some p ∧ place? y = some p)
    (below_iff : ∀ x y : α,
      below x y = true ↔ ∃ p q, place? x = some p ∧ place? y = some q ∧ p < q)
    (last : ∃ top, place? (infinity : α) = some top ∧
      ∀ x p, place? x = some p → p ≤ top)
    (refined : ∀ x y : α, below x y = true → rank x < rank y) : OrderLaws α := by
  have defined_iff : ∀ x : α, isNaN x = false ↔ ∃ p, place? x = some p := by
    intro x
    simp only [isNaN, Bool.not_eq_false', equal_iff, and_self]
  obtain ⟨top, highest, bounds⟩ := last
  constructor
  case defined_of_below =>
    intro x y lower
    obtain ⟨p, q, left, right, _⟩ := (below_iff x y).mp lower
    exact ⟨(defined_iff x).mpr ⟨p, left⟩, (defined_iff y).mpr ⟨q, right⟩⟩
  case below_asymm =>
    intro x y lower
    obtain ⟨p, q, left, right, less⟩ := (below_iff x y).mp lower
    rw [Bool.eq_false_iff]
    intro higher
    obtain ⟨q', p', right', left', more⟩ := (below_iff y x).mp higher
    obtain rfl := Option.some.inj (left.symm.trans left')
    obtain rfl := Option.some.inj (right.symm.trans right')
    omega
  case below_split =>
    intro x y z lower defined
    obtain ⟨p, r, left, right, less⟩ := (below_iff x z).mp lower
    obtain ⟨q, middle⟩ := (defined_iff y).mp defined
    by_cases apart : p < q
    · exact .inl ((below_iff x y).mpr ⟨p, q, left, middle, apart⟩)
    · exact .inr ((below_iff y z).mpr ⟨q, r, middle, right, by omega⟩)
  case below_of_infinite =>
    intro x y infinite defined finite
    obtain ⟨p, left⟩ := (defined_iff x).mp defined
    obtain ⟨q, right, same⟩ := (equal_iff y infinity).mp infinite
    obtain rfl := Option.some.inj (same.symm.trans highest)
    have apart : p ≠ q := by
      rintro rfl
      rw [(equal_iff x infinity).mpr ⟨p, left, highest⟩] at finite
      cases finite
    have bound := bounds x p left
    exact (below_iff x y).mpr ⟨p, q, left, right, by omega⟩
  case rank_of_below => exact refined

namespace OrderLaws

variable (order : OrderLaws α) {x y z : α}

include order

/-- No number lies below itself. -/
theorem below_irrefl (x : α) : below x x = false := by
  rw [Bool.eq_false_iff]
  intro lower
  rw [order.below_asymm x x lower] at lower
  cases lower

theorem below_trans (first : below x y = true) (second : below y z = true) :
    below x z = true := by
  rcases order.below_split x z y first (order.defined_of_below y z second).2 with lower | higher
  · exact lower
  · rw [order.below_asymm y z second] at higher
    cases higher

end OrderLaws

end Number

namespace Double

open Float.Model

/-- The place of a magnitude among all magnitudes: its exponent and fraction field as one number. -/
def height (x : Float) : Nat := (exponentBits x).toNat * 2 ^ 52 + (fractionField x).toNat

/-- The height of the infinities. -/
def top : Nat := 2047 * 2 ^ 52

/-- The mantissa and exponent that a magnitude other than zero is unpacked to. -/
structure Unpacks (height mantissa : Nat) (exponent : Int) : Prop where
  positive : 0 < height
  inside : height < top
  exponent_eq : exponent = max (height / 2 ^ 52 : Nat) 1 - 1075
  mantissa_small : height < 2 ^ 52 → mantissa = height
  mantissa_large : 2 ^ 52 ≤ height → mantissa = 2 ^ 52 + height % 2 ^ 52

/-- What a double is unpacked to follows from its sign and its height. -/
inductive Shape (sign : UnpackedFloat.Sign) (height : Nat) : UnpackedFloat → Prop where
  | undefined : Shape sign height .notANumber
  | zero : height = 0 → Shape sign height (.zero sign)
  | infinity : height = top → Shape sign height (.infinity sign)
  | finite {mantissa : Nat} {exponent : Int} {positive : 0 < mantissa} :
      Unpacks height mantissa exponent → Shape sign height (.finite sign mantissa exponent positive)

/-- Every double has its shape. -/
theorem shape (x : Float) : Shape (sign x) (height x) x.toModel.unpack := by
  have fields := (exponentBits x).isLt
  have fraction := (fractionField x).isLt
  rw [unpack_eq]
  by_cases special : exponentBits x = -1#11
  · rw [if_pos special]
    by_cases blank : fractionField x = 0#52
    · rw [if_pos blank]
      exact .infinity (by rw [height, special, blank]; rfl)
    · rw [if_neg blank]
      exact .undefined
  · rw [if_neg special]
    have ordinary : (exponentBits x).toNat ≠ 2047 :=
      fun same => special (BitVec.eq_of_toNat_eq same)
    by_cases least : exponentBits x = 0#11
    · rw [if_pos least]
      have field : (exponentBits x).toNat = 0 := by rw [least]; rfl
      by_cases blank : fractionField x = 0#52
      · rw [dif_pos blank]
        exact .zero (by rw [height, least, blank]; rfl)
      · rw [dif_neg blank]
        have some : (fractionField x).toNat ≠ 0 := fun same => blank (BitVec.eq_of_toNat_eq same)
        refine .finite ⟨?_, ?_, ?_, fun _ => ?_, fun _ => ?_⟩ <;>
          simp only [height, top, field] at * <;> omega
    · rw [if_neg least]
      have larger : (exponentBits x).toNat ≠ 0 := fun same => least (BitVec.eq_of_toNat_eq same)
      have leading := implied_significand x
      rw [fractionBits] at leading
      refine .finite ⟨?_, ?_, ?_, fun _ => ?_, fun _ => ?_⟩ <;>
        simp only [height, top, leading] at * <;> omega

/-- Mantissas and exponents of magnitudes compare as the heights do. -/
theorem Unpacks.compare_eq {h k m n : Nat} {e f : Int} (left : Unpacks h m e)
    (right : Unpacks k n f) : (compare e f).then (compare m n) = compare (h : Int) k := by
  have exponents := left.exponent_eq
  have others := right.exponent_eq
  have small := left.mantissa_small
  have large := left.mantissa_large
  have smallOther := right.mantissa_small
  have largeOther := right.mantissa_large
  rcases Nat.lt_trichotomy h k with less | rfl | more
  · rw [Int.compare_eq_lt.mpr (Int.ofNat_lt.mpr less), Ordering.then_eq_lt, Int.compare_eq_lt,
      Int.compare_eq_eq, Nat.compare_eq_lt]
    omega
  · rw [Int.compare_eq_eq.mpr rfl, Ordering.then_eq_eq, Int.compare_eq_eq, Nat.compare_eq_eq]
    omega
  · rw [Int.compare_eq_gt.mpr (Int.ofNat_lt.mpr more), Ordering.then_eq_gt, Int.compare_eq_gt,
      Int.compare_eq_eq, Nat.compare_eq_gt]
    omega

/-- The place of a double on the line, if it has one. -/
def place? (x : Float) : Option Int :=
  if Number.isNaN x then none else some ((sign x).apply (height x))

/-- A number is "not a number" exactly when it is unpacked so. -/
theorem nan_iff (x : Float) : Number.isNaN x = true ↔ x.toModel.unpack = .notANumber := by
  constructor
  · exact unpack_of_nan
  · intro undefined
    have apart : Number.equal x x = false := by
      rw [Bool.eq_false_iff, ne_eq, equal_iff, compare_equal_iff, undefined]
      rintro (⟨_, _, zero, _⟩ | ⟨_, defined⟩)
      · cases zero
      · exact defined rfl
    rw [Number.isNaN, apart]
    rfl

@[simp]
theorem apply_positive (value : Int) : UnpackedFloat.Sign.positive.apply value = value := rfl

@[simp]
theorem apply_negative (value : Int) : UnpackedFloat.Sign.negative.apply value = -value := rfl

/-- A sign does not change how far a magnitude is from zero. -/
theorem apply_between (s : UnpackedFloat.Sign) (h : Nat) :
    -(h : Int) ≤ s.apply h ∧ s.apply h ≤ h := by
  cases s <;> simp only [apply_positive, apply_negative] <;> omega

/-- The number that is farther from zero decides by its sign: here the second one. -/
theorem compare_nearer {s t : UnpackedFloat.Sign} {h k : Nat} (nearer : h < k) :
    compare (s.apply h) (t.apply k) = match t with
      | .positive => .lt
      | .negative => .gt := by
  have between := apply_between s h
  cases t with
  | positive =>
    rw [apply_positive]
    exact Int.compare_eq_lt.mpr (by omega)
  | negative =>
    rw [apply_negative]
    exact Int.compare_eq_gt.mpr (by omega)

/-- The number that is farther from zero decides by its sign: here the first one. -/
theorem compare_farther {s t : UnpackedFloat.Sign} {h k : Nat} (farther : k < h) :
    compare (s.apply h) (t.apply k) = match s with
      | .positive => .gt
      | .negative => .lt := by
  have between := apply_between t k
  cases s with
  | positive =>
    rw [apply_positive]
    exact Int.compare_eq_gt.mpr (by omega)
  | negative =>
    rw [apply_negative]
    exact Int.compare_eq_lt.mpr (by omega)

/-- Turning both places over turns their comparison over. -/
theorem compare_turned (a b : Int) : compare (-a) (-b) = (compare a b).swap := by
  rcases Int.lt_trichotomy a b with less | rfl | more
  · rw [Int.compare_eq_lt.mpr less, Int.compare_eq_gt.mpr (by omega)]
    rfl
  · rw [Int.compare_eq_eq.mpr rfl, Int.compare_eq_eq.mpr rfl]
    rfl
  · rw [Int.compare_eq_gt.mpr more, Int.compare_eq_lt.mpr (by omega)]
    rfl

/-- Unpacked numbers compare as the places of their shapes do. -/
theorem Shape.compare_eq {s t : UnpackedFloat.Sign} {h k : Nat} {a b : UnpackedFloat}
    (first : Shape s h a) (second : Shape t k b) (definedFirst : a ≠ .notANumber)
    (definedSecond : b ≠ .notANumber) :
    a.compare b = some (compare (s.apply h) (t.apply k)) := by
  have level (same : s.apply h = t.apply k) : some .eq = some (compare (s.apply h) (t.apply k)) :=
    congrArg some (Int.compare_eq_eq.mpr same).symm
  have nearer (less : h < k) := congrArg some (compare_nearer (s := s) (t := t) less).symm
  have farther (more : k < h) := congrArg some (compare_farther (s := s) (t := t) more).symm
  cases first with
  | undefined => exact absurd rfl definedFirst
  | zero bottom =>
    subst bottom
    cases second with
    | undefined => exact absurd rfl definedSecond
    | zero bottom =>
      subst bottom
      cases s <;> cases t <;> exact level rfl
    | infinity highest => cases t <;> exact nearer (highest ▸ by decide)
    | finite magnitude => cases t <;> exact nearer magnitude.positive
  | infinity highest =>
    cases second with
    | undefined => exact absurd rfl definedSecond
    | zero bottom => cases s <;> exact farther (highest ▸ bottom ▸ by decide)
    | infinity alsoHighest =>
      subst highest alsoHighest
      cases s <;> cases t <;> exact congrArg some (by decide)
    | finite magnitude => cases s <;> exact farther (highest ▸ magnitude.inside)
  | finite magnitude =>
    cases second with
    | undefined => exact absurd rfl definedSecond
    | zero bottom => cases s <;> exact farther (bottom ▸ magnitude.positive)
    | infinity highest => cases t <;> exact nearer (highest ▸ magnitude.inside)
    | finite other =>
      have positive := magnitude.positive
      have alsoPositive := other.positive
      -- Of two finite numbers below zero the places are turned over, and so is their comparison.
      cases s <;> cases t
      case positive.positive => exact congrArg some (magnitude.compare_eq other)
      case negative.negative =>
        have turned := compare_turned h k
        rw [← magnitude.compare_eq other] at turned
        exact congrArg some turned.symm
      case negative.positive =>
        have less : -(h : Int) < k := by omega
        exact congrArg some (Int.compare_eq_lt.mpr less).symm
      case positive.negative =>
        have more : -(k : Int) < h := by omega
        exact congrArg some (Int.compare_eq_gt.mpr more).symm

/-- A number with a place is not "not a number". -/
theorem place_iff {x : Float} {p : Int} :
    place? x = some p ↔ x.toModel.unpack ≠ .notANumber ∧ (sign x).apply (height x) = p := by
  simp only [place?, Option.ite_none_left_eq_some, Option.some.injEq, nan_iff]

/-- Doubles compare as their places do. -/
theorem compare_places {x y : Float} {p q : Int} (left : place? x = some p)
    (right : place? y = some q) :
    x.toModel.unpack.compare y.toModel.unpack = some (compare p q) := by
  obtain ⟨definedX, rfl⟩ := place_iff.mp left
  obtain ⟨definedY, rfl⟩ := place_iff.mp right
  exact (shape x).compare_eq (shape y) definedX definedY

/-- Only doubles with a place compare. -/
theorem places_of_compare {x y : Float} {o : Ordering}
    (compared : x.toModel.unpack.compare y.toModel.unpack = some o) :
    ∃ p q, place? x = some p ∧ place? y = some q ∧ compare p q = o := by
  have left : x.toModel.unpack ≠ .notANumber := by
    intro undefined
    rw [undefined] at compared
    cases compared
  have right : y.toModel.unpack ≠ .notANumber := by
    intro undefined
    rw [undefined] at compared
    generalize x.toModel.unpack = unpacked at left compared
    cases unpacked with
    | notANumber => exact left rfl
    | zero s => cases compared
    | infinity s => cases s <;> cases compared
    | finite s => cases s <;> cases compared
  have placedX := place_iff.mpr ⟨left, rfl⟩
  have placedY := place_iff.mpr ⟨right, rfl⟩
  rw [compare_places placedX placedY] at compared
  exact ⟨_, _, placedX, placedY, Option.some.inj compared⟩

/-- No place is beyond those of the infinities. -/
theorem place_bounds {x : Float} {p : Int} (found : place? x = some p) :
    -(top : Int) ≤ p ∧ p ≤ top := by
  obtain ⟨defined, rfl⟩ := place_iff.mp found
  have inside : height x ≤ top := by
    have formed := shape x
    generalize x.toModel.unpack = unpacked at defined formed
    cases formed with
    | undefined => exact absurd rfl defined
    | zero bottom => exact bottom ▸ Nat.zero_le _
    | infinity highest => exact Nat.le_of_eq highest
    | finite magnitude => exact Nat.le_of_lt magnitude.inside
  have between := apply_between (sign x) (height x)
  omega

/-- A double is negative exactly when the bits have the sign in front. -/
theorem negative_iff (x : Float) : isNegative x = true ↔ 2 ^ 63 ≤ x.toBits.toNat := by
  have bounded := x.toBits.toNat_lt
  simp only [isNegative, beq_iff_eq, ← UInt64.toNat_inj, UInt64.toNat_shiftRight]
  change x.toBits.toNat >>> 63 = 1 ↔ _
  rw [Nat.shiftRight_eq_div_pow]
  omega

/-- The ranks of negative doubles count the bits down, those of the others count them up. -/
theorem rank_cases (x : Float) :
    (isNegative x = true ∧ 2 ^ 63 ≤ x.toBits.toNat ∧ rank x = 2 ^ 64 - 1 - x.toBits.toNat) ∨
      (isNegative x = false ∧ x.toBits.toNat < 2 ^ 63 ∧ rank x = x.toBits.toNat + 2 ^ 63) := by
  have signed := negative_iff x
  rw [rank]
  cases negative : isNegative x with
  | true =>
    left
    rw [if_pos rfl, UInt64.toNat_not]
    exact ⟨rfl, signed.mp negative, rfl⟩
  | false =>
    right
    have less : x.toBits.toNat < 2 ^ 63 :=
      Nat.lt_of_not_le fun high => by simp [signed.mpr high] at negative
    rw [if_neg Bool.false_ne_true, UInt64.toNat_or]
    refine ⟨rfl, less, ?_⟩
    change x.toBits.toNat ||| 2 ^ 63 = _
    rw [Nat.or_two_pow_eq_add_of_lt less]

/-- The rank of a double is that of its place. Only the two zeros share a place. -/
theorem rank_of_place {x : Float} {p : Int} (found : place? x = some p) :
    (rank x = p + 2 ^ 63 - 1 ∧ p ≤ 0) ∨ (rank x = p + 2 ^ 63 ∧ 0 ≤ p) := by
  obtain ⟨_, rfl⟩ := place_iff.mp found
  have bounded := x.toBits.toNat_lt
  have low : height x = x.toBits.toNat % 2 ^ 63 := by
    have split := fields_eq x
    simp only [fields, fractionBits, Prod.mk.injEq] at split
    simp only [height, ← split.1, ← split.2]
    omega
  rw [sign_apply]
  rcases rank_cases x with ⟨negative, high, ranked⟩ | ⟨positive, less, ranked⟩
  · rw [if_pos negative]
    left
    omega
  · rw [if_neg (by simp [positive])]
    right
    omega

/-- Doubles are in order exactly when their places are. -/
theorem below_iff (x y : Float) :
    Number.below x y = true ↔ ∃ p q, place? x = some p ∧ place? y = some q ∧ p < q := by
  rw [below_eq, beq_iff_eq]
  constructor
  · intro compared
    obtain ⟨p, q, left, right, less⟩ := places_of_compare compared
    exact ⟨p, q, left, right, Int.compare_eq_lt.mp less⟩
  · rintro ⟨p, q, left, right, less⟩
    rw [compare_places left right, Int.compare_eq_lt.mpr less]

/-- Doubles are equal exactly when they share a place. -/
theorem equal_places_iff (x y : Float) :
    Number.equal x y = true ↔ ∃ p, place? x = some p ∧ place? y = some p := by
  rw [equal_iff]
  constructor
  · intro compared
    obtain ⟨p, q, left, right, same⟩ := places_of_compare compared
    obtain rfl := Int.compare_eq_eq.mp same
    exact ⟨p, left, right⟩
  · rintro ⟨p, left, right⟩
    rw [compare_places left right, Int.compare_eq_eq.mpr rfl]

/-- Doubles obey the laws of order. -/
theorem order_laws : Number.OrderLaws Float := by
  refine .of_places place? equal_places_iff below_iff
    ⟨top, by decide +kernel, fun _ _ found => (place_bounds found).2⟩ ?_
  intro x y lower
  obtain ⟨p, q, left, right, less⟩ := (below_iff x y).mp lower
  have first := rank_of_place left
  have second := rank_of_place right
  change rank x < rank y
  omega

end Double

end ProgramSearch
