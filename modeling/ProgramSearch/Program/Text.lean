import ProgramSearch.Decimal.Layout
import ProgramSearch.Program.Compilation
import ProgramSearch.Program.Tiered

/-!
# Programs as text

One line describes a node; the slots it reads are marked by a percent sign. A
compiled program is described by the numbers of its steps and temporaries and by
where its outputs come from.
-/

namespace ProgramSearch

def Node.display : Node Float → String
  | .constant value => Decimal.Layout.plain.write value
  | .argument parameter => s!"arg{parameter}"
  | .binary op lhs rhs => s!"%{lhs} " ++ op.symbol ++ s!" %{rhs}"
  | .move target => s!"%{target}"
  | .conditional x y cond => s!"%{cond} > 0 ? %{x} : %{y}"
  | .guarded branch cond taken => s!"guard(%{cond} > 0 == {taken}) %{branch}"

/-- One line for each slot, with a mark for an empty one. -/
def Program.lines (nodes : Program Float) : List String :=
  nodes.toList.zipIdx.map fun (slot, index) =>
    s!"  %{index} = " ++ (slot.map Node.display).getD "<dead>"

def Value.describe : Value Float → String
  | .constant value => "Constant(" ++ Decimal.Layout.detailed.write value ++ ")"
  | .input index => s!"Input({index})"
  | .temporary index => s!"Temp({index})"

/-- A record of named entries between braces. -/
def describeFields (name : String) (fields : List (String × String)) : String :=
  name ++ " \x7b " ++ String.intercalate ", " (fields.map fun (key, text) => key ++ ": " ++ text) ++
    " \x7d"

def Compiled.describe (program : Compiled Float) : String :=
  let count := toString program.steps.length
  let outputs := String.intercalate ", " (program.outputs.map Value.describe)
  describeFields "CompiledProgram"
    [("steps", count), ("temps", count), ("outputs", "[" ++ outputs ++ "]")]

def Tiered.describe (program : Tiered Float) : String :=
  let speculative :=
    match program.speculative with
    | some compiled => "Some(" ++ compiled.describe ++ ")"
    | none => "None"
  describeFields "Tiered" [("speculative", speculative), ("baseline", program.baseline.describe)]

end ProgramSearch
