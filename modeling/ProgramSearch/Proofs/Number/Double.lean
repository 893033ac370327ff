import ProgramSearch.Number.Double
import ProgramSearch.Proofs.Number.Laws

/-!
# Comparing double precision numbers

The comparison of doubles unpacks both numbers and looks at their signs, exponents and significands.
Apart from the two zeros only a number itself is equal to it, so everything that comparisons say of
a number they say of an equal one. This gives the laws of comparison; the laws of arithmetic rest on
operations of the machine and are not derived here.

The exact value of a double is read off its bits, which are split here as the unpacking splits them.
It is therefore a function of the unpacked number, and equal doubles have the same exact value.
-/

namespace ProgramSearch.Double

open Float.Model

/-- Exponents and significands that compare equal one after the other are equal. -/
theorem finite_of_compare {s : UnpackedFloat.Sign} {m n : Nat} {e f : Int} {p : 0 < m} {q : 0 < n}
    (same : (compare e f).then (compare m n) = .eq) :
    UnpackedFloat.finite s m e p = .finite s n f q := by
  rw [Ordering.then_eq_eq] at same
  obtain ⟨exponents, significands⟩ := same
  cases Std.LawfulEqCmp.eq_of_compare exponents
  cases Std.LawfulEqCmp.eq_of_compare significands
  rfl

/-- Unpacked numbers compare as equal exactly when both are zeros or they are the same number. -/
theorem compare_equal_iff (a b : UnpackedFloat) :
    a.compare b = some .eq ↔ (∃ s t, a = .zero s ∧ b = .zero t) ∨ (a = b ∧ a ≠ .notANumber) := by
  constructor
  · intro same
    have defined : a ≠ .notANumber := by
      rintro rfl
      cases b <;> cases same
    cases a with
    | notANumber => exact absurd rfl defined
    | zero s =>
      cases b with
      | zero t => exact .inl ⟨s, t, rfl, rfl⟩
      | notANumber => cases same
      | infinity t => cases t <;> cases same
      | finite t => cases t <;> cases same
    | infinity s =>
      cases b with
      | infinity t => cases s <;> cases t <;> first | exact .inr ⟨rfl, defined⟩ | cases same
      | _ => cases s <;> cases same
    -- Finite numbers compare by exponent and significand, the other way round below zero.
    | finite s =>
      cases b with
      | finite t =>
        cases s <;> cases t
        case positive.positive => exact .inr ⟨finite_of_compare (Option.some.inj same), defined⟩
        case negative.negative =>
          have swapped := Ordering.swap_eq_eq.mp (Option.some.inj same)
          exact .inr ⟨finite_of_compare swapped, defined⟩
        all_goals cases same
      | infinity t => cases s <;> cases t <;> cases same
      | _ => cases s <;> cases same
  · rintro (⟨s, t, rfl, rfl⟩ | ⟨rfl, defined⟩)
    · rfl
    · cases a with
      | notANumber => exact absurd rfl defined
      | zero s => rfl
      | infinity s => cases s <;> rfl
      | finite s m e =>
        have exponents : compare e e = .eq := Std.ReflCmp.compare_self
        have significands : compare m m = .eq := Std.ReflCmp.compare_self
        cases s with
        | positive =>
          change some ((compare e e).then (compare m m)) = _
          rw [exponents, significands]
          rfl
        | negative =>
          change some ((compare e e).then (compare m m)).swap = _
          rw [exponents, significands]
          rfl

/-- Equality is what the comparison of the unpacked numbers says. -/
theorem equal_iff (x y : Float) :
    Number.equal x y = true ↔ x.toModel.unpack.compare y.toModel.unpack = some .eq := by
  change (x.toModel.unpack.compare y.toModel.unpack == some .eq) = true ↔ _
  rw [beq_iff_eq]

/-- The strict order is what the comparison of the unpacked numbers says. -/
theorem below_eq (x y : Float) :
    Number.below x y = (x.toModel.unpack.compare y.toModel.unpack == some .lt) := by
  change decide (decide ((x.toModel.unpack.compare y.toModel.unpack == some .lt) = true) = true) = _
  rw [Bool.eq_iff_iff, decide_eq_true_iff, decide_eq_true_iff]

/-- An equal number is the same one when unpacked, unless both are zeros. -/
theorem unpack_cases {x y : Float} (same : Number.equal x y = true) :
    (∃ s t, x.toModel.unpack = .zero s ∧ y.toModel.unpack = .zero t) ∨
      x.toModel.unpack = y.toModel.unpack := by
  rcases (compare_equal_iff _ _).mp ((equal_iff x y).mp same) with zeros | ⟨unpacked, _⟩
  · exact .inl zeros
  · exact .inr unpacked

/-- A finite number has a value. -/
theorem finite_defined {x : Float} (finite : Number.isFinite x = true) :
    x.toModel.unpack ≠ .notANumber := by
  intro undefined
  simp only [Number.isFinite, Bool.and_eq_true, below_eq, beq_iff_eq] at finite
  rw [undefined] at finite
  exact nomatch finite.1

/-- Doubles obey the laws of comparison. -/
theorem comparison_laws : Number.ComparisonLaws Float where
  equal_refl x finite := by
    rw [equal_iff, compare_equal_iff]
    exact .inr ⟨rfl, finite_defined finite⟩
  equal_symm x y same := by
    rw [equal_iff, compare_equal_iff] at same ⊢
    rcases same with ⟨s, t, first, second⟩ | ⟨unpacked, defined⟩
    · exact .inl ⟨t, s, second, first⟩
    · exact .inr ⟨unpacked.symm, unpacked ▸ defined⟩
  equal_trans x y z first second := by
    rw [equal_iff, compare_equal_iff] at first second ⊢
    rcases first with ⟨s, t, left, middle⟩ | ⟨unpacked, defined⟩
    · rcases second with ⟨_, u, _, right⟩ | ⟨unpacked, _⟩
      · exact .inl ⟨s, u, left, right⟩
      · exact .inl ⟨s, t, left, unpacked ▸ middle⟩
    · exact unpacked ▸ second
  finite_of_equal x y same finite := by
    simp only [Number.isFinite, Bool.and_eq_true, below_eq] at finite ⊢
    rcases unpack_cases same with ⟨s, t, _, zero⟩ | unpacked
    · rw [zero]
      exact ⟨rfl, rfl⟩
    · exact unpacked ▸ finite
  positive_of_equal x y same := by
    simp only [Number.positive, below_eq]
    rcases unpack_cases same with ⟨s, t, first, second⟩ | unpacked
    · rw [first, second]
      rfl
    · rw [unpacked]

section Bits

variable (x : Float)

/-- The exponent field, as the logical model of doubles takes it from the bits. -/
def exponentBits : BitVec 11 := @UnpackedFloat.unpackExponent Format.binary64 x.toBits.toBitVec

/-- The fraction field, as the logical model of doubles takes it from the bits. -/
def fractionField : BitVec 52 := @UnpackedFloat.unpackMantissa Format.binary64 x.toBits.toBitVec

/-- The sign, as the logical model of doubles takes it from the bits. -/
def sign : UnpackedFloat.Sign :=
  .ofBitVec (@UnpackedFloat.unpackSign Format.binary64 x.toBits.toBitVec)

/-- Both ways to split the bits lead to the same fields. -/
theorem fields_eq : fields x = ((exponentBits x).toNat, (fractionField x).toNat) := by
  simp [exponentBits, fractionField, UnpackedFloat.unpackExponent, UnpackedFloat.unpackMantissa,
    fields, fractionBits, BitVec.extractLsb, Nat.shiftRight_eq_div_pow]

/-- The sign turns a significand over exactly when the number is negative. -/
theorem sign_apply (significand : Nat) :
    (sign x).apply significand =
      if isNegative x then -(significand : Int) else (significand : Int) := by
  have bit : (@UnpackedFloat.unpackSign Format.binary64 x.toBits.toBitVec).toNat =
      (x.toBits >>> 63).toNat := by
    have bounded := x.toBits.toNat_lt
    change x.toBits.toNat >>> 63 % 2 ^ 1 = x.toBits.toNat >>> 63
    rw [Nat.shiftRight_eq_div_pow]
    omega
  have single := BitVec.isLt (@UnpackedFloat.unpackSign Format.binary64 x.toBits.toBitVec)
  rw [bit] at single
  have cases : (x.toBits >>> 63).toNat = 0 ∨ (x.toBits >>> 63).toNat = 1 := by omega
  simp only [sign, UnpackedFloat.Sign.ofBitVec, ← BitVec.toNat_inj, isNegative, beq_iff_eq,
    ← UInt64.toNat_inj, bit]
  rcases cases with positive | negative
  · rw [positive]
    rfl
  · rw [negative]
    rfl

/-- The significand of a number whose leading one is implied. -/
theorem implied_significand :
    (1#1 ++ fractionField x).toNat = 2 ^ fractionBits + (fractionField x).toNat := by
  change 2 ^ 52 ||| (fractionField x).toNat = _
  rw [Nat.or_comm, Nat.or_two_pow_eq_add_of_lt (fractionField x).isLt, Nat.add_comm]
  rfl

/-- A double is unpacked by its fields. -/
theorem unpack_eq :
    x.toModel.unpack =
      if exponentBits x = -1#11 then
        if fractionField x = 0#52 then .infinity (sign x) else .notANumber
      else if exponentBits x = 0#11 then
        if zero : fractionField x = 0#52 then .zero (sign x)
        else .finite (sign x) (fractionField x).toNat ((exponentBits x).toNat - 1075 + 1)
          (by simpa [BitVec.toNat_pos, BitVec.pos_iff_ne_zero] using zero)
      else .finite (sign x) (1#1 ++ fractionField x).toNat ((exponentBits x).toNat - 1075)
        (implied_significand x ▸ Nat.le_trans (by decide) (Nat.le_add_right _ _)) :=
  rfl

end Bits

/-- The exact value of an unpacked number, if it is finite. -/
def unpackedExact : UnpackedFloat → Option Binary
  | .infinity _ | .notANumber => none
  | .zero _ => some ⟨0, leastExponent⟩
  | .finite sign mantissa exponent _ => some ⟨sign.apply mantissa, exponent⟩

/-- The exact value that is read off the bits is that of the unpacked number. -/
theorem exact_eq (x : Float) : exact x = unpackedExact x.toModel.unpack := by
  rw [unpack_eq, exact, magnitude, fields_eq]
  by_cases special : exponentBits x = -1#11
  · rw [if_pos special, special]
    by_cases zero : fractionField x = 0#52
    · rw [if_pos zero]
      rfl
    · rw [if_neg zero]
      rfl
  · rw [if_neg special]
    have ordinary : (exponentBits x).toNat ≠ 2047 :=
      fun same => special (BitVec.eq_of_toNat_eq same)
    by_cases least : exponentBits x = 0#11
    · rw [if_pos least, least]
      by_cases zero : fractionField x = 0#52
      · rw [dif_pos zero, zero]
        change _ = some (Binary.mk 0 leastExponent)
        simp
      · rw [dif_neg zero]
        change _ = some (Binary.mk ((sign x).apply (fractionField x).toNat) leastExponent)
        rw [sign_apply]
        rfl
    · have larger : (exponentBits x).toNat ≠ 0 := fun same => least (BitVec.eq_of_toNat_eq same)
      rw [if_neg least]
      change _ = some (Binary.mk ((sign x).apply (1#1 ++ fractionField x).toNat) _)
      rw [sign_apply, implied_significand]
      generalize (exponentBits x).toNat = field at ordinary larger ⊢
      cases field with
      | zero => exact absurd rfl larger
      | succ field =>
        simp only [ordinary, if_false, Option.map_some, leastExponent]
        congr 2
        omega

/-- What is "not a number" is so when unpacked. -/
theorem unpack_of_nan {x : Float} (undefined : Number.isNaN x = true) :
    x.toModel.unpack = .notANumber := by
  cases unpacked : x.toModel.unpack with
  | notANumber => rfl
  | zero | infinity | finite =>
    have same : Number.equal x x = true := by
      rw [equal_iff, compare_equal_iff, unpacked]
      exact .inr ⟨rfl, nofun⟩
    simp [Number.isNaN, same] at undefined

/-- Doubles that are alike are used alike. -/
theorem likeness_laws : Number.LikenessLaws Float where
  exact_of_equal x y same := by
    change exact x = exact y
    rw [exact_eq, exact_eq]
    rcases unpack_cases same with ⟨s, t, first, second⟩ | unpacked
    · rw [first, second]
      rfl
    · rw [unpacked]
  exact_of_nan x undefined := by
    change exact x = none
    rw [exact_eq, unpack_of_nan undefined]
    rfl
  positive_of_nan x undefined := by
    simp only [Number.positive, below_eq, unpack_of_nan undefined]
    cases (Number.zero : Float).toModel.unpack <;> rfl

end ProgramSearch.Double
