import Mathlib
import ProgramSearch.Proofs.Number.Double

/-!
# Telling doubles apart

The logical model of doubles has a single "not a number", so a double is determined by its unpacked
form. Apart from the finite doubles there are three, and they are known by name.
-/

namespace ProgramSearch.Double

open Float.Model

/-- Doubles that unpack alike are the same. -/
theorem eq_of_unpack {x y : Float} (same : x.toModel.unpack = y.toModel.unpack) : x = y := by
  have bits := (UnpackedFloat.unpack_inj_of_valid x.toModel.valid y.toModel.valid).mp same
  exact Float.toBits_inj.mp (UInt64.toBitVec_inj.mp bits)

/-- A double lies strictly between the infinities when it has a significand and an exponent. -/
theorem finite_iff (x : Float) : Number.isFinite x = true ↔ (magnitude x).isSome = true := by
  have read : (magnitude x).isSome = (unpackedExact x.toModel.unpack).isSome := by
    rw [← exact_eq, exact, Option.isSome_map]
  rw [read, Number.isFinite, Bool.and_eq_true, below_eq, below_eq]
  cases x.toModel.unpack with
  | notANumber =>
    exact ⟨fun finite => (Bool.false_ne_true finite.1).elim,
      fun some_ => (Bool.false_ne_true some_).elim⟩
  | zero sign => exact ⟨fun _ => rfl, fun _ => ⟨rfl, rfl⟩⟩
  | finite sign significand exponent positive =>
    cases sign <;> exact ⟨fun _ => rfl, fun _ => ⟨rfl, rfl⟩⟩
  | infinity sign =>
    cases sign
    · exact ⟨fun finite => (Bool.false_ne_true finite.1).elim,
        fun some_ => (Bool.false_ne_true some_).elim⟩
    · exact ⟨fun finite => (Bool.false_ne_true finite.2).elim,
        fun some_ => (Bool.false_ne_true some_).elim⟩

/-- A double has no exact value when it is not finite. -/
theorem exact_none_iff (x : Float) : Number.exact x = none ↔ Number.isFinite x = false := by
  rw [← Bool.not_eq_true, finite_iff, Option.isSome_iff_ne_none, not_not]
  exact Option.map_eq_none_iff

/-- A double that is not finite is "not a number" or one of the infinities. -/
theorem not_finite_cases {x : Float} (infinite : Number.isFinite x = false) :
    x = Number.nan ∨ x = Number.infinity ∨ x = Number.negativeInfinity := by
  rw [Number.isFinite, below_eq, below_eq] at infinite
  cases unpacked : x.toModel.unpack with
  | notANumber => exact .inl (eq_of_unpack unpacked)
  | zero sign =>
    rw [unpacked] at infinite
    exact (Bool.false_ne_true infinite.symm).elim
  | finite sign significand exponent positive =>
    rw [unpacked] at infinite
    cases sign <;> exact (Bool.false_ne_true infinite.symm).elim
  | infinity sign =>
    cases sign
    · exact .inr (.inr (eq_of_unpack unpacked))
    · exact .inr (.inl (eq_of_unpack unpacked))

end ProgramSearch.Double
