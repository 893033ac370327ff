import ProgramSearch.Fault
import ProgramSearch.Program.Node

/-!
# Programs

A program is a fixed number of slots. A slot is empty when its node was removed
as dead. A program is valid when every operand of every node is present and lies
strictly before its reader.
-/

namespace ProgramSearch

abbrev Program (α : Type) := Array (Option (Node α))

namespace Program

variable {α : Type}

/-- The node in a slot. Empty slots and positions past the end hold none. -/
def node? (nodes : Program α) (slot : Nat) : Option (Node α) := nodes[slot]?.join

def isPresent (nodes : Program α) (slot : Nat) : Bool := (node? nodes slot).isSome

/-- Refuse an operand that is not strictly before its reader, and then one that
is absent. -/
def checkOperand (nodes : Program α) (index : Nat) (operand : UInt16) : Except Fault Unit :=
  if index ≤ operand.toNat then .error (.forwardReference index operand.toNat)
  else if isPresent nodes operand.toNat then .ok ()
  else .error (.absentOperand index operand.toNat)

/-- Refuse the first bad operand of one slot. -/
def checkSlot (nodes : Program α) (index : Nat) : Except Fault Unit :=
  match node? nodes index with
  | none => .ok ()
  | some node => node.reads.forM (checkOperand nodes index)

/-- Accept a valid program and report the first bad operand of any other. -/
def validate (nodes : Program α) : Except Fault Unit :=
  (List.range nodes.size).forM (checkSlot nodes)

end Program

end ProgramSearch
