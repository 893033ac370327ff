import ProgramSearch.Proofs.Decimal.Scaling
import ProgramSearch.Proofs.Document.Program

/-!
# Constants that were written

A constant is written with the fewest digits that tell it from its neighbours. The reader takes these digits
and scales them in double precision, where it rounds up to three times. So every constant is read as some
number, but a number with many digits can come back as a neighbour. Constants that are not finite, both
zeros, and decimals that are short enough for a single rounding come back as they were.
-/

namespace ProgramSearch

namespace Document

open Double Decimal

variable {value : Float} {rounded : Rounded}

/-- What a constant is read as. -/
def reread (value : Float) : Float := (constant? (constant value)).getD value

/-- The decimal that is written for the double has at most fifty-three bits, and it is scaled by a power
of ten that is a double. -/
def IsShort (value : Float) : Prop :=
  ∃ rounded, Layout.rounded? value = some rounded ∧ 0 < rounded.significand ∧
    (rounded.shortest .toEven).written.1 < 2 ^ 53 ∧
    (rounded.shortest .toEven).written.2.natAbs ≤ 22

theorem magnitude_of_rounded (found : Layout.rounded? value = some rounded) :
    magnitude value = some (rounded.significand, rounded.exponent) := by
  obtain ⟨parts, read, rfl⟩ := Option.map_eq_some_iff.mp found
  exact read

/-- A finite constant denotes what its text denotes. -/
theorem finite_constant (found : Layout.rounded? value = some rounded) :
    constant? (constant value) =
      (Numeral.ofText? (Layout.stored.write value)).bind Numeral.toFloat? := by
  have finite : (magnitude value).isSome = true :=
    Option.isSome_of_eq_some (magnitude_of_rounded found)
  rw [constant, if_pos finite]
  rfl

/-- The zeros survive. -/
theorem zero_read (zero : value = 0.0 ∨ value = -0.0) :
    constant? (constant value) = some value := by
  rcases zero with rfl | rfl
  · exact constant_read fun _ => by decide +kernel
  · exact constant_read fun _ => by decide +kernel

/-- A short decimal is read as the double for which it was written. -/
theorem decimal_read (short : IsShort value) : constant? (constant value) = some value := by
  obtain ⟨rounded, found, positive, fits, small⟩ := short
  have double := Layout.rounded_double found positive.ne'
  obtain ⟨-, -, -, -, covers⟩ := Rounded.shortest_spec .toEven double
  rw [← Digits.written_to_rat] at covers
  have some_ : 0 < (rounded.shortest .toEven).written.1 := by
    refine Nat.pos_of_ne_zero fun none => (Rounded.covered_positive double covers).ne ?_
    rw [none, Nat.cast_zero, zero_mul]
  obtain ⟨read, scaled, carries⟩ := Numeral.scale_exact some_ fits small double covers
  rw [finite_constant found, Layout.stored_denoted found positive.ne', scaled, Option.map_some]
  have unpacked := unpack_of_magnitude (magnitude_of_rounded found) positive
  congr 1
  cases negative : isNegative value with
  | false =>
    rw [negative] at unpacked
    exact eq_of_unpack (carries.unpacked.trans unpacked.symm)
  | true =>
    rw [negative] at unpacked
    exact eq_of_unpack (carries.neg.trans unpacked.symm)

/-- Every finite constant is read as some number. -/
theorem finite_reads (found : Layout.rounded? value = some rounded) :
    (constant? (constant value)).isSome = true := by
  rcases Nat.eq_zero_or_pos rounded.significand with none | positive
  · have zero := magnitude_of_rounded found
    rw [none] at zero
    rw [zero_read (zero_of_magnitude zero)]
    rfl
  · rw [finite_constant found, Layout.stored_denoted found positive.ne', Option.isSome_map]
    exact Rounded.written_readable (Layout.rounded_double found positive.ne')

/-- Every constant is read as some number. -/
theorem constant_reads (value : Float) : constant? (constant value) = some (reread value) := by
  have readable : (constant? (constant value)).isSome = true := by
    cases finite : Number.isFinite value with
    | false =>
      rw [constant_read fun holds => absurd holds (finite ▸ Bool.false_ne_true)]
      rfl
    | true =>
      have given := (finite_iff value).mp finite
      rw [← Option.isSome_map] at given
      obtain ⟨rounded, found⟩ := Option.isSome_iff_exists.mp given
      exact finite_reads found
  obtain ⟨read, found⟩ := Option.isSome_iff_exists.mp readable
  rw [reread, found]
  rfl

/-- A constant that is not finite is read back, and so are the zeros and short decimals. -/
theorem reread_eq (kept : Number.isFinite value = false ∨ Number.equal value Number.zero = true ∨
    IsShort value) : reread value = value := by
  have same : constant? (constant value) = some value := by
    rcases kept with infinite | zero | short
    · exact constant_read fun holds => absurd holds (infinite ▸ Bool.false_ne_true)
    · refine zero_read ?_
      rcases unpack_cases zero with ⟨sign, other, unpacked, -⟩ | unpacked
      · cases sign with
        | positive => exact .inl (eq_of_unpack unpacked)
        | negative => exact .inr (eq_of_unpack unpacked)
      · exact .inl (eq_of_unpack unpacked)
    · exact decimal_read short
  rw [reread, same]
  rfl

/-- A valid program is always read back from its text. Slots and nodes are those that were written. The
constants are too unless they are finite numbers with many digits, and the program that is read is the
one that was written exactly when all its constants are. -/
theorem program_reread {nodes : Program Float} (accepted : Program.validate nodes = .ok ()) :
    readProgram (writeProgram nodes) = .ok (nodes.mapConstants reread) ∧
      (readProgram (writeProgram nodes) = .ok nodes ↔
        ∀ slot value, Program.node? nodes slot = some (.constant value) → reread value = value) ∧
      ∀ value, Number.isFinite value = false ∨ Number.equal value Number.zero = true ∨ IsShort value →
        reread value = value := by
  have valid := (Program.validate_ok_iff nodes).mp accepted
  have read := program_read (fun _ value _ => constant_reads value) valid
  refine ⟨read, ?_, fun _ => reread_eq⟩
  rw [read, ← Program.map_constants_eq_iff]
  exact ⟨fun same => Except.ok.inj same, congrArg Except.ok⟩

/-- A program with a quarter among its constants is read back. -/
theorem quarter_reread :
    Program.validate #[some (.argument 0), none, some (.constant (0.25 : Float))] = .ok () ∧
      readProgram (writeProgram #[some (.argument 0), none, some (.constant 0.25)]) =
        .ok #[some (.argument 0), none, some (.constant 0.25)] := by
  have short : IsShort 0.25 := ⟨⟨2 ^ 52, -54, true⟩, by decide +kernel⟩
  have accepted :
      Program.validate #[some (.argument 0), none, some (.constant (0.25 : Float))] = .ok () := rfl
  obtain ⟨-, back, kept⟩ := program_reread accepted
  refine ⟨accepted, back.mpr fun slot value held => ?_⟩
  match slot, held with
  | 2, held =>
    obtain rfl : 0.25 = value := Node.constant.inj (Option.some.inj held)
    exact kept 0.25 (.inr (.inr short))

/-- The quotient of eighty-three and nine has sixteen digits and is read back as its lower
neighbour. -/
theorem quotient_read_as_neighbour :
    Program.validate #[some (.constant (83.0 / 9.0 : Float))] = .ok () ∧
      (83.0 / 9.0 : Float).toBits = 0x402271c71c71c71c ∧
      readProgram (writeProgram #[some (.constant (83.0 / 9.0))]) =
        .ok #[some (.constant (Float.ofBits 0x402271c71c71c71b))] ∧
      readProgram (writeProgram #[some (.constant (83.0 / 9.0))]) ≠
        .ok #[some (.constant (83.0 / 9.0))] := by
  have accepted : Program.validate #[some (.constant (83.0 / 9.0 : Float))] = .ok () := rfl
  have read := program_read (fun _ value _ => constant_reads value)
    ((Program.validate_ok_iff _).mp accepted)
  have changed : Program.mapConstants reread #[some (.constant (83.0 / 9.0))] =
      #[some (.constant (reread (83.0 / 9.0)))] := by
    rw [Program.mapConstants, List.map_toArray]
    rfl
  have neighbour : reread (83.0 / 9.0) = Float.ofBits 0x402271c71c71c71b := by decide +kernel
  have other : Float.ofBits 0x402271c71c71c71b ≠ 83.0 / 9.0 := by decide +kernel
  rw [changed, neighbour] at read
  refine ⟨accepted, by decide +kernel, read, fun same => other ?_⟩
  rw [read] at same
  have slots : #[some (Node.constant (Float.ofBits 0x402271c71c71c71b))] =
      #[some (Node.constant (83.0 / 9.0))] := Except.ok.inj same
  simpa using slots

end Document

end ProgramSearch
