import ProgramSearch.Decimal.Layout
import ProgramSearch.Document.Record
import ProgramSearch.Json.Reader
import ProgramSearch.Json.Writer
import ProgramSearch.Program

/-!
# Stored programs

A program is stored as a list with a null for every empty slot. A constant is a
number, or one of three strings when it is not finite. A program that is read back
is validated, after the document as a whole was understood.
-/

namespace ProgramSearch.Document

def operatorName : Operator → String
  | .add => "Add"
  | .sub => "Sub"
  | .mul => "Mul"
  | .div => "Div"
  | .mod => "Mod"
  | .pow => "Pow"
  | .log => "Log"

/-- The operator of a name, which may also be the only key of a record that maps it
to null or to an empty record. -/
def operator? : Json → Option Operator
  | .string (some name) | .object [(some name, .null)] | .object [(some name, .object [])] =>
    Operator.all.find? (operatorName · == name)
  | _ => none

/-- A constant. Only a finite one is a number. -/
def constant (value : Float) : Json :=
  let text := Decimal.Layout.stored.write value
  if (Double.magnitude value).isSome then .number text else .text text

/-- A constant from a number or from one of the three names of a number that is not
finite. -/
def constant? : Json → Option Float
  | .string (some "NaN") => some (0.0 / 0.0)
  | .string (some "inf") => some (1.0 / 0.0)
  | .string (some "-inf") => some (-1.0 / 0.0)
  | document => document.toFloat?

def ofNode : Node Float → Json
  | .constant value => record "Constant" [("value", constant value)]
  | .argument parameter => record "Argument" [("parameter", short parameter)]
  | .binary op lhs rhs =>
    record "Binary" [("op", .text (operatorName op)), ("lhs", short lhs), ("rhs", short rhs)]
  | .move target => record "Move" [("target", short target)]
  | .conditional x y cond =>
    record "Conditional" [("x", short x), ("y", short y), ("cond", short cond)]
  | .guarded branch cond taken =>
    record "Bailout" [("branch", short branch), ("cond", short cond), ("taken", .bool taken)]

/-- The node of one kind from its fields. -/
def nodeOfKind? (kind : String) (fields : Fields) : Option (Node Float) :=
  match kind with
  | "Constant" => do
    let [value] ← fields.values? ["value"] | none
    pure (.constant (← constant? value))
  | "Argument" => do
    let [parameter] ← fields.values? ["parameter"] | none
    pure (.argument (← short? parameter))
  | "Binary" => do
    let [op, lhs, rhs] ← fields.values? ["op", "lhs", "rhs"] | none
    pure (.binary (← operator? op) (← short? lhs) (← short? rhs))
  | "Move" => do
    let [target] ← fields.values? ["target"] | none
    pure (.move (← short? target))
  | "Conditional" => do
    let [x, y, cond] ← fields.values? ["x", "y", "cond"] | none
    pure (.conditional (← short? x) (← short? y) (← short? cond))
  | "Bailout" => do
    let [branch, cond, taken] ← fields.values? ["branch", "cond", "taken"] | none
    pure (.guarded (← short? branch) (← short? cond) (← bool? taken))
  | _ => none

def node? (document : Json) : Option (Node Float) := do
  let (kind, fields) ← kind? document
  nodeOfKind? kind fields

/-- A slot; null is an empty one. -/
def slot? : Json → Option (Option (Node Float))
  | .null => some none
  | document => (node? document).map some

def ofProgram (nodes : Program Float) : Json :=
  .array (nodes.toList.map fun slot => (slot.map ofNode).getD .null)

def program? : Json → Option (Program Float)
  | .array items => (items.mapM slot?).map List.toArray
  | _ => none

/-- The stored form of a program, on one line. -/
def writeProgram (nodes : Program Float) : String := (ofProgram nodes).compact

/-- Read a stored program and refuse one that is not valid. -/
def readProgram (text : String) : Except Fault (Program Float) :=
  match (Json.ofText? text).bind program? with
  | none => .error .serialization
  | some nodes => (Program.validate nodes).map fun _ => nodes

end ProgramSearch.Document
