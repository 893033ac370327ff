import ProgramSearch.Program.Compilation

/-!
# Speculative programs with a fallback

A tiered program tries its speculative form first and runs the baseline when a
guard of the speculative form fails. Neither form makes reports.
-/

namespace ProgramSearch

structure Tiered (α : Type) where
  speculative : Option (Compiled α)
  baseline : Compiled α

namespace Tiered

variable {α : Type}

/-- Compile both forms for the same number of outputs, the baseline first. -/
def compile (speculative : Option (Program α)) (baseline : Program α) (outputs : Nat) :
    Except Fault (Tiered α) := do
  let baseline ← Program.compile baseline outputs {}
  let speculative ← speculative.mapM (Program.compile · outputs {})
  pure ⟨speculative, baseline⟩

/-- Run the speculative form, and the baseline if that bails out or if there is no
speculative form. -/
def run [Number α] (program : Tiered α) (inputs buffer : Array α) : Except Halt (Array α) :=
  match program.speculative with
  | none => (program.baseline.run inputs buffer).result
  | some speculative =>
    match (speculative.run inputs buffer).result with
    | .error (.signal .bailout) => (program.baseline.run inputs buffer).result
    | result => result

/-- Run on the buffer of a caller. -/
def call [Number α] (program : Tiered α) (inputs buffer : Array α) :
    Except Halt Unit × Array α :=
  match program.speculative with
  | none => program.baseline.call inputs buffer
  | some speculative =>
    match speculative.call inputs buffer with
    | (.error (.signal .bailout), buffer) => program.baseline.call inputs buffer
    | answer => answer

end Tiered

end ProgramSearch
