import ProgramSearch.Program.Operator

/-!
# Nodes

A program is an array of slots, and a node is what a slot can hold. A node names
the slots it reads by their positions. In a valid program these lie strictly
before the node, so that one walk from left to right meets every operand before
its reader.
-/

namespace ProgramSearch

/-- Slots, parameters and variables are numbered by sixteen bits. -/
inductive Node (α : Type) where
  | constant (value : α)
  | argument (parameter : UInt16)
  | binary (op : Operator) (lhs rhs : UInt16)
  /-- Another name for an earlier node. -/
  | move (target : UInt16)
  /-- The node `x` when `cond` is positive, and `y` otherwise. -/
  | conditional (x y cond : UInt16)
  /-- The node `branch`, provided that `cond` is positive exactly when `taken`
  says so; otherwise the execution bails out. -/
  | guarded (branch cond : UInt16) (taken : Bool)
deriving DecidableEq, Repr

namespace Node

variable {α : Type}

/-- The slots a node reads, in the order in which it evaluates or counts them. -/
def reads : Node α → List UInt16
  | constant _ | argument _ => []
  | binary _ lhs rhs => [lhs, rhs]
  | move target => [target]
  | conditional x y cond => [x, y, cond]
  | guarded branch cond _ => [cond, branch]

/-- Whether the node is a value without any computation. Such a node may be
copied freely. -/
def isDirect : Node α → Bool
  | constant _ | argument _ | move _ => true
  | binary .. | conditional .. | guarded .. => false

/-- Arguments stay in place even when nothing reads them. -/
def isRemovalProtected : Node α → Bool
  | argument _ => true
  | _ => false

end Node

end ProgramSearch
