import ProgramSearch.Program
import ProgramSearch.Program.Expression

/-!
# Compiled programs

Compiling turns a valid program into steps that fill temporaries, followed by the
values of the outputs. A node that is read once becomes part of its reader's
expression, so that it is only evaluated where its reader needs it. A node that is
read more than once, that another node renames, or that is an output gets a
temporary and is evaluated exactly once.

The expression of a node that has no temporary is handed to its only reader and
leaves the table of operands. Asking for it again would be a defect of this
module and is reported as one.
-/

namespace ProgramSearch

/-- An executable program. The step at a position fills the temporary at that
position. -/
structure Compiled (α : Type) where
  steps : List (Expression α)
  outputs : List (Value α)
  /-- The number of inputs the program can read. -/
  arity : Nat

namespace Compiled

variable {α : Type} [Number α]

/-- Fill the temporaries from left to right. -/
def fill (inputs : Array α) : List (Expression α) → Array α → Traced (Array α)
  | [], temporaries => pure temporaries
  | step :: rest, temporaries => do
    let value ← step.evaluate ⟨inputs, temporaries⟩
    fill inputs rest (temporaries.push value)

/-- Read values in a frame. -/
def readAll (frame : Frame α) : List (Value α) → Except Halt (List α)
  | [] => .ok []
  | leaf :: rest =>
    match leaf.read frame with
    | .error halt => .error halt
    | .ok value => (readAll frame rest).map (value :: ·)

/-- Run the program. The outputs replace the leading values of the buffer, as far
as it reaches; the rest of a longer buffer stays. Nothing is replaced unless every
step succeeds. -/
def run (program : Compiled α) (inputs buffer : Array α) : Traced (Array α) := do
  let temporaries ← fill inputs program.steps #[]
  let fresh ← Traced.ofResult
    (readAll ⟨inputs, temporaries⟩ (program.outputs.take buffer.size))
  pure (fresh.toArray ++ buffer.extract fresh.length buffer.size)

/-- Store values in consecutive cells, as far as the buffer reaches. What has been
stored stays when a value cannot be read. -/
def store (frame : Frame α) : List (Value α) → Nat → Array α → Except Halt Unit × Array α
  | [], _, buffer => (.ok (), buffer)
  | leaf :: rest, index, buffer =>
    if index < buffer.size then
      match leaf.read frame with
      | .error halt => (.error halt, buffer)
      | .ok value => store frame rest (index + 1) (buffer.setIfInBounds index value)
    else (.ok (), buffer)

/-- Run the program on the buffer of a caller: execute the steps and then store the
outputs. -/
def call (program : Compiled α) (inputs buffer : Array α) : Except Halt Unit × Array α :=
  match (fill inputs program.steps #[]).result with
  | .error halt => (.error halt, buffer)
  | .ok temporaries => store ⟨inputs, temporaries⟩ program.outputs 0 buffer

end Compiled

/-- The compiled form of a node as its readers see it. -/
inductive Operand (α : Type) where
  | value (leaf : Value α)
  /-- An expression that its only reader takes over. -/
  | inline (expression : Expression α)

namespace Program

variable {α : Type}

/-- How many operands, over all nodes, read each slot. -/
def readerCounts (nodes : Program α) : Array Nat :=
  nodes.foldl
    (fun counts slot =>
      match slot with
      | some node => node.reads.foldl (fun counts read => counts.modify read.toNat (· + 1)) counts
      | none => counts)
    (Array.replicate nodes.size 0)

/-- Which slots some node renames. -/
def renamedSlots (nodes : Program α) : Array Bool :=
  nodes.foldl
    (fun marks slot =>
      match slot with
      | some (.move target) => marks.setIfInBounds target.toNat true
      | _ => marks)
    (Array.replicate nodes.size false)

/-- Which slots hold a node that needs a temporary. -/
def temporarySlots (nodes : Program α) (outputsStart : Nat) : Array Bool :=
  let counts := readerCounts nodes
  let renamed := renamedSlots nodes
  nodes.mapIdx fun index slot =>
    slot.any fun node =>
      !node.isDirect &&
        (outputsStart ≤ index || 1 < counts.getD index 0 || renamed.getD index false)

/-- What instrumentation and checks a program is compiled with. -/
structure Mode where
  /-- Whether checked operators refuse operands outside their domain. -/
  checked : Bool := false
  /-- The block that conditionals report as, if they report. -/
  profile : Option Nat := none

/-- Compilation in progress. -/
structure Lowering (α : Type) where
  operands : Array (Option (Operand α))
  steps : Array (Expression α)
  arity : Nat

namespace Lowering

/-- Take an operand. A value may be taken again; an expression leaves the table. -/
def take (operands : Array (Option (Operand α))) (slot : UInt16) :
    Except Fault (Expression α × Array (Option (Operand α))) :=
  match operands[slot.toNat]?.join with
  | some (.value leaf) => .ok (.value leaf, operands)
  | some (.inline expression) => .ok (expression, operands.setIfInBounds slot.toNat none)
  | none => .error (.internal s!"operand {slot} consumed twice")

/-- The expression of a computed node, with the operands that remain. -/
def lower (mode : Mode) (index : Nat) (operands : Array (Option (Operand α))) :
    Node α → Except Fault (Expression α × Array (Option (Operand α)))
  | .binary op lhs rhs => do
    let (x, operands) ← take operands lhs
    let (y, operands) ← take operands rhs
    pure (.binary index (mode.checked && op.isChecked) op x y, operands)
  | .conditional x y cond => do
    let (x, operands) ← take operands x
    let (y, operands) ← take operands y
    let (z, operands) ← take operands cond
    pure (.conditional index mode.profile x y z, operands)
  | .guarded branch cond taken => do
    let (z, operands) ← take operands cond
    let (branch, operands) ← take operands branch
    pure (.guarded index taken branch z, operands)
  | .constant _ | .argument _ | .move _ =>
    .error (.internal s!"direct node {index} lowered as an expression")

/-- Compile the node of the next slot. -/
def step (mode : Mode) (temporaries : Array Bool) :
    Lowering α → Option (Node α) → Except Fault (Lowering α)
  | ⟨operands, steps, arity⟩, none => .ok ⟨operands.push none, steps, arity⟩
  | ⟨operands, steps, arity⟩, some (.constant value) =>
    .ok ⟨operands.push (some (.value (.constant value))), steps, arity⟩
  | ⟨operands, steps, arity⟩, some (.argument parameter) =>
    .ok ⟨operands.push (some (.value (.input parameter.toNat))), steps,
      max arity (parameter.toNat + 1)⟩
  | ⟨operands, steps, arity⟩, some (.move target) =>
    match operands[target.toNat]?.join with
    | some (.value leaf) => .ok ⟨operands.push (some (.value leaf)), steps, arity⟩
    | _ => .error (.internal s!"alias {operands.size} of a non-materialized node")
  | ⟨operands, steps, arity⟩, some node => do
    let index := operands.size
    let (expression, operands) ← lower mode index operands node
    if temporaries.getD index false then
      pure ⟨operands.push (some (.value (.temporary steps.size))), steps.push expression, arity⟩
    else pure ⟨operands.push (some (.inline expression)), steps, arity⟩

/-- Compile slot after slot. -/
def steps? (mode : Mode) (temporaries : Array Bool) (nodes : Program α) :
    Except Fault (Lowering α) :=
  nodes.toList.foldlM (step mode temporaries) ⟨#[], #[], 0⟩

end Lowering

/-- The values of the outputs from one slot on. -/
def outputValues (index : Nat) : List (Option (Operand α)) → Except Fault (List (Value α))
  | [] => .ok []
  | some (.value leaf) :: rest => (outputValues (index + 1) rest).map (leaf :: ·)
  | _ :: _ => .error (.absentOutput index)

/-- Compile a program whose last `outputs` slots are its outputs. The number of
outputs, the leading node, the operands and the outputs are checked in this
order. -/
def compile (nodes : Program α) (outputs : Nat) (mode : Mode) : Except Fault (Compiled α) := do
  if outputs = 0 ∨ nodes.size < outputs then
    throw (.misfit (.outputs outputs nodes.size))
  unless ((node? nodes 0).map Node.isDirect).getD false do
    throw .leadingNode
  validate nodes
  let outputsStart := nodes.size - outputs
  (List.range' outputsStart outputs).forM fun index =>
    if isPresent nodes index then .ok () else .error (.absentOutput index)
  let lowered ← Lowering.steps? mode (temporarySlots nodes outputsStart) nodes
  let values ← outputValues outputsStart (lowered.operands.toList.drop outputsStart)
  pure ⟨lowered.steps.toList, values, lowered.arity⟩

end Program

end ProgramSearch
