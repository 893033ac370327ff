import ProgramSearch.Training.Control
import ProgramSearch.Training.Scalar

/-!
# Tasks

Tasks that programs are trained on, over doubles. An error is graded by one scale: an
error below the tolerance is exact, a larger one counts against the program, and a very
large one may make the grading break off.
-/

namespace ProgramSearch

/-- How errors become scores. -/
structure Grading where
  /-- The score of an error below the tolerance. -/
  exact : Float := 1.0 / 0.0
  tolerance : Float := 1e-9
  /-- The score of an output that is not finite. -/
  nonFinite : Float := -1.0 / 0.0
  /-- The error above which grading breaks off. -/
  panicOver : Option Float := none

namespace Grading

def grade (grading : Grading) (error : Float) : Option Float :=
  if grading.panicOver.any (error > ·) then none
  else if error < grading.tolerance then some grading.exact
  else some (-error)

end Grading

/-- Replace the leading values of a buffer. -/
def fillFrom (row buffer : Array Float) : Array Float :=
  row.extract 0 buffer.size ++ buffer.extract row.size buffer.size

namespace DataSource

/-- Each trial takes one of the given rows, each equally likely. -/
def ofRows (arguments : Nat) (rows : Array (Array Float)) : DataSource Float where
  arguments := arguments
  fill buffer := do
    let index ← Draw.belowWide rows.size
    pure (fillFrom (rows.getD index #[]) buffer)

/-- Each input is drawn from a range. -/
def ofRange (arguments : Nat) (low high : Float) : DataSource Float where
  arguments := arguments
  fill buffer := buffer.mapM fun _ => Draw.uniform low high

end DataSource

namespace Reward

/-- Rewards outputs that are close to those of a target program. -/
def ofTarget (grading : Grading) (target : Compiled Float) : Reward Float := fun inputs output =>
  if !Number.isFinite output then some grading.nonFinite
  else
    match (target.run inputs #[0.0]).result with
    | .ok outputs => grading.grade (outputs.getD 0 0.0 - output).abs
    | .error (.signal _) => grading.grade (0.0 - output).abs
    | .error .missingInput => none

/-- Rewards outputs that are close to the sum of the first two inputs. -/
def addition : Reward Float := fun inputs output =>
  if !Number.isFinite output then some (-1.0 / 0.0)
  else ({} : Grading).grade (inputs.getD 0 0.0 + inputs.getD 1 0.0 - output).abs

end Reward

/-- Inputs with the outputs that are wanted for them, by position. -/
structure Case where
  inputs : Array Float
  wanted : List (Nat × Float)

namespace Trial

/-- Add up the errors of the wanted outputs. The first output that is not finite decides. -/
def gradeOutputs (grading : Grading) (outputs : Array Float) :
    List (Nat × Float) → Float → Trial Float
  | [], error =>
    match grading.grade error with
    | some graded => .score graded
    | none => .giveUp
  | (index, value) :: rest, error =>
    match outputs[index]? with
    | none => .giveUp
    | some output =>
      if !Number.isFinite output then .score grading.nonFinite
      else gradeOutputs grading outputs rest (error + (value - output).abs)

/-- Each trial takes one of the given cases, each equally likely. -/
def ofCases (grading : Grading) (outputs : Nat) (cases : Array Case) : Trial Float :=
  .draw (Draw.belowWide cases.size) fun index =>
    let chosen := cases.getD index ⟨#[], []⟩
    .act chosen.inputs (Array.replicate outputs 0.0) fun produced =>
      gradeOutputs grading produced chosen.wanted 0.0

/-- Gives a number from one to eight in the first variable and expects the sum of all numbers
up to it in the second. A hit scores zero and is never exact. -/
def accumulation : Trial Float :=
  .draw (Draw.belowShifted 8) fun index =>
    let n := Float.ofNat (index + 1)
    .act #[n, 0.0] #[0.0, 0.0, 0.0, 0.0] fun outputs =>
      let output := outputs.getD 1 0.0
      .score (if Number.isFinite output then -(n * (n + 1.0) / 2.0 - output).abs else -1.0 / 0.0)

end Trial

end ProgramSearch
