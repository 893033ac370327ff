import ProgramSearch.Proofs.Number.Order
import ProgramSearch.Training.Score

/-!
# Scores are numbers

The score of a candidate is a sum of trial scores that lie strictly between the infinities, or an
infinity. Such a sum may overflow, but adding a finite number to an infinity leaves the infinity, so
it is never "not a number". Rounding matters little here: whatever a sum is packed to, it does not
become "not a number" if it was none before.
-/

namespace ProgramSearch

namespace Number

/-- A sum is "not a number" only if its first operand is or its second one is not finite. -/
structure SumLaws (α : Type) [Number α] : Prop where
  zero_defined : isNaN (zero : α) = false
  infinity_defined : isNaN (infinity : α) = false
  lowest_defined : isNaN (negativeInfinity : α) = false
  finite_of_defined : ∀ x : α, isNaN x = false → equal x infinity = false →
    equal x negativeInfinity = false → isFinite x = true
  add_defined : ∀ x y : α, isNaN x = false → isFinite y = true → isNaN (add x y) = false

variable {α : Type} [Number α]

/-- Finite numbers add up to a number. -/
theorem SumLaws.fold_defined (sums : SumLaws α) {window : List α}
    (finite : ∀ x ∈ window, isFinite x = true) {sum : α} (defined : isNaN sum = false) :
    isNaN (window.foldl add sum) = false := by
  induction window generalizing sum with
  | nil => exact defined
  | cons x rest inductionHypothesis =>
    apply inductionHypothesis fun y member => finite y (List.mem_cons_of_mem x member)
    exact sums.add_defined sum x defined (finite x List.mem_cons_self)

end Number

section Scores

variable {α : Type} [Number α]

/-- What lies in the window of a trial list is one of its scores, made comparable. -/
theorem of_mem_trial_window {scores : List α} {remove : UInt64} {x : α}
    (member : x ∈ trialWindow scores remove) : ∃ score ∈ scores, wellOrdered score = x :=
  List.mem_map.mp (List.mem_mergeSort.mp (List.mem_of_mem_drop (List.mem_of_mem_take member)))

/-- A trial score that was made comparable is a number. -/
theorem well_ordered_defined (sums : Number.SumLaws α) (score : α) :
    Number.isNaN (wellOrdered score) = false := by
  cases undefined : Number.isNaN score with
  | true => rw [wellOrdered, undefined, if_pos rfl, sums.lowest_defined]
  | false => rw [wellOrdered, undefined, if_neg Bool.false_ne_true, undefined]

/-- Without an exact hit, what lies in the window is finite or the worst. -/
theorem window_finite (sums : Number.SumLaws α) {scores : List α} {remove : UInt64} {x : α}
    (missed : ∀ score ∈ scores, Number.equal score Number.infinity = false)
    (member : x ∈ trialWindow scores remove)
    (bounded : Number.equal x Number.negativeInfinity = false) : Number.isFinite x = true := by
  obtain ⟨score, scored, rfl⟩ := of_mem_trial_window member
  have defined := well_ordered_defined sums score
  cases undefined : Number.isNaN score with
  | true =>
    -- The worst score is equal to the negative infinity.
    have lowest := sums.lowest_defined
    rw [wellOrdered, undefined, if_pos rfl] at bounded
    rw [Number.isNaN, bounded] at lowest
    cases lowest
  | false =>
    rw [wellOrdered, undefined, if_neg Bool.false_ne_true] at bounded ⊢
    exact sums.finite_of_defined score undefined (missed score scored) bounded

/-- How the trial scores of a candidate become its score: an exact hit outweighs all else; when nothing
is kept, or one of the worst scores is, the candidate is among the worst; otherwise the kept scores are
finite and add up. -/
inductive TrialSum (scores : List α) (remove : UInt64) : α → Prop where
  | exact : (∃ score ∈ scores, Number.equal score Number.infinity = true) →
      TrialSum scores remove Number.infinity
  | worst : (∀ score ∈ scores, Number.equal score Number.infinity = false) →
      scores.length ≤ (2 * remove).toNat ∨
        (∃ kept ∈ trialWindow scores remove, Number.equal kept Number.negativeInfinity = true) →
      TrialSum scores remove Number.negativeInfinity
  | sum : (∀ score ∈ scores, Number.equal score Number.infinity = false) →
      (2 * remove).toNat < scores.length →
      (∀ kept ∈ trialWindow scores remove, Number.isFinite kept = true) →
      TrialSum scores remove ((trialWindow scores remove).foldl Number.add Number.zero)

/-- Trial scores become a score in one of these ways. -/
theorem trimmed_sum_cases (sums : Number.SumLaws α) (scores : List α) (remove : UInt64) :
    TrialSum scores remove (trimmedSum scores remove) := by
  rw [trimmedSum]
  split
  · rename_i hits
    exact .exact (List.any_eq_true.mp hits)
  rename_i missed
  have missed : ∀ score ∈ scores, Number.equal score Number.infinity = false :=
    fun score scored => Bool.eq_false_iff.mpr fun hit =>
      missed (List.any_eq_true.mpr ⟨score, scored, hit⟩)
  split
  · rename_i few
    exact .worst missed (.inl few)
  rename_i enough
  dsimp only
  split
  · rename_i worst
    exact .worst missed (.inr (List.any_eq_true.mp worst))
  rename_i bounded
  refine .sum missed (Nat.lt_of_not_le enough) fun kept member => ?_
  exact window_finite sums missed member (Bool.eq_false_iff.mpr fun worst =>
    bounded (List.any_eq_true.mpr ⟨kept, member, worst⟩))

/-- The score of a candidate is never "not a number". -/
theorem trimmed_sum_defined (sums : Number.SumLaws α) (scores : List α) (remove : UInt64) :
    Number.isNaN (trimmedSum scores remove) = false := by
  have summed := trimmed_sum_cases sums scores remove
  generalize trimmedSum scores remove = total at summed
  cases summed with
  | exact => exact sums.infinity_defined
  | worst => exact sums.lowest_defined
  | sum _ _ finite => exact sums.fold_defined finite sums.zero_defined

end Scores

namespace Double

open Float.Model

/-- Bits with an ordinary exponent field are those of a number. -/
theorem unpack_defined {bits : BitVec Format.binary64.numBits}
    (ordinary : UnpackedFloat.unpackExponent bits ≠ -1#11) :
    UnpackedFloat.unpack .binary64 bits ≠ .notANumber := by
  unfold UnpackedFloat.unpack
  dsimp only
  rw [if_neg ordinary]
  by_cases least : UnpackedFloat.unpackExponent bits = 0#11
  · rw [if_pos least]
    by_cases blank : UnpackedFloat.unpackMantissa bits = 0#52
    · rw [dif_pos blank]
      intro same
      cases same
    · rw [dif_neg blank]
      intro same
      cases same
  · rw [if_neg least]
    intro same
    cases same

/-- Components with an ordinary exponent field are those of a number. -/
theorem components_defined (sign : UnpackedFloat.Sign) {exponent : BitVec 11} (mantissa : BitVec 52)
    (ordinary : exponent ≠ -1#11) :
    UnpackedFloat.unpack .binary64
      (UnpackedFloat.packComponents .binary64 sign exponent mantissa) ≠ .notANumber :=
  unpack_defined fun special =>
    ordinary (UnpackedFloat.unpackExponent_packComponents.symm.trans special)

/-- A packed infinity is an infinity. -/
theorem infinity_packed (sign : UnpackedFloat.Sign) :
    UnpackedFloat.unpack .binary64 (UnpackedFloat.packedInfinity .binary64 sign) =
      .infinity sign := by
  cases sign <;> rfl

/-- A finite number is packed to an infinity if its exponent field would be too large, and to its
components otherwise. -/
theorem pack_finite (sign : UnpackedFloat.Sign) (mantissa : Nat) (exponent : Int)
    (positive : 0 < mantissa) :
    UnpackedFloat.pack .binary64 (.finite sign mantissa exponent positive) =
      if 2 ^ 11 ≤ (exponent + 1023 + 52).toNat + 1 then UnpackedFloat.packedInfinity .binary64 sign
      else if mantissa.log2 + 1 = 53 then
        @UnpackedFloat.packComponents .binary64 sign
          (BitVec.ofNat 11 (exponent + 1023 + 52).toNat) (BitVec.ofNat 52 mantissa)
      else @UnpackedFloat.packComponents .binary64 sign 0#11 (BitVec.ofNat 52 mantissa) :=
  rfl

/-- Packing does not turn a number into "not a number". -/
theorem pack_defined {unpacked : UnpackedFloat} (defined : unpacked ≠ .notANumber) :
    (Float.Model.pack unpacked).unpack ≠ .notANumber := by
  change UnpackedFloat.unpack .binary64 (UnpackedFloat.pack .binary64 unpacked) ≠ _
  cases unpacked with
  | notANumber => exact absurd rfl defined
  | infinity sign =>
    change UnpackedFloat.unpack .binary64 (UnpackedFloat.packedInfinity .binary64 sign) ≠ _
    rw [infinity_packed]
    intro same
    cases same
  | zero sign => exact @components_defined sign 0#11 0#52 (by decide)
  | finite sign mantissa exponent positive =>
    rw [pack_finite]
    split
    · rw [infinity_packed]
      intro same
      cases same
    rename_i inside
    split
    · apply components_defined
      intro special
      have field := congrArg BitVec.toNat special
      change BitVec.toNat (BitVec.ofNat 11 _) = 2047 at field
      rw [BitVec.toNat_ofNat] at field
      omega
    · exact components_defined sign _ (by decide)

/-- Rounding leads to numbers. -/
theorem round_defined (sign : UnpackedFloat.Sign) (mantissa : Nat) (exponent : Int) :
    UnpackedFloat.round .binary64 sign mantissa exponent ≠ .notANumber := by
  have rounded (final : Nat) (place : Int) :
      (if blank : final = 0 then .zero sign
        else .finite sign final place (Nat.pos_of_ne_zero blank)) ≠ UnpackedFloat.notANumber := by
    by_cases blank : final = 0
    · rw [dif_pos blank]
      intro same
      cases same
    · rw [dif_neg blank]
      intro same
      cases same
  exact rounded _ _

/-- The sum of finite numbers is a number. -/
theorem normalize_defined (mantissa exponent : Int) (zeroSign : UnpackedFloat.Sign) :
    UnpackedFloat.normalize .binary64 mantissa exponent zeroSign ≠ .notANumber := by
  unfold UnpackedFloat.normalize
  split
  · exact round_defined _ _ _
  · intro same
    cases same
  · exact round_defined _ _ _

/-- A sum is a number if its first operand is one and the second one is finite. -/
theorem add_unpacked_defined {a b : UnpackedFloat} (defined : a ≠ .notANumber)
    (other : b ≠ .notANumber) (bounded : ∀ sign, b ≠ .infinity sign) :
    UnpackedFloat.add .binary64 a b ≠ .notANumber := by
  cases a with
  | notANumber => exact absurd rfl defined
  | infinity s =>
    cases b with
    | notANumber => exact absurd rfl other
    | infinity t => exact absurd rfl (bounded t)
    | zero t => nofun
    | finite t => nofun
  | zero s =>
    cases b with
    | notANumber => exact absurd rfl other
    | infinity t => exact absurd rfl (bounded t)
    | zero t => cases s <;> cases t <;> nofun
    | finite t => nofun
  | finite s m e =>
    cases b with
    | notANumber => exact absurd rfl other
    | infinity t => exact absurd rfl (bounded t)
    | zero t => nofun
    | finite t n f => exact normalize_defined _ _ _

/-- A number is a number exactly when it is unpacked to one. -/
theorem defined_iff (x : Float) : Number.isNaN x = false ↔ x.toModel.unpack ≠ .notANumber := by
  rw [Bool.eq_false_iff, ne_eq, nan_iff]

/-- Doubles add up to numbers. -/
theorem sum_laws : Number.SumLaws Float where
  zero_defined := rfl
  infinity_defined := rfl
  lowest_defined := rfl
  finite_of_defined x defined notInfinite notLowest := by
    rw [defined_iff] at defined
    rw [Bool.eq_false_iff, ne_eq, equal_iff] at notInfinite notLowest
    simp only [Number.isFinite, Bool.and_eq_true, below_eq, beq_iff_eq]
    cases unpacked : x.toModel.unpack with
    | notANumber => exact absurd unpacked defined
    | zero sign => exact ⟨rfl, rfl⟩
    | finite sign mantissa exponent positive => cases sign <;> exact ⟨rfl, rfl⟩
    | infinity sign =>
      rw [unpacked] at notInfinite notLowest
      cases sign
      · exact absurd rfl notLowest
      · exact absurd rfl notInfinite
  add_defined x y defined finite := by
    rw [defined_iff] at defined ⊢
    change (Float.Model.pack (UnpackedFloat.add .binary64 x.toModel.unpack y.toModel.unpack)).unpack
      ≠ .notANumber
    apply pack_defined (add_unpacked_defined defined (finite_defined finite) _)
    intro sign infinite
    simp only [Number.isFinite, Bool.and_eq_true, below_eq, beq_iff_eq] at finite
    rw [infinite] at finite
    cases sign
    · cases finite.1
    · cases finite.2

end Double

end ProgramSearch
