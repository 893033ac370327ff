import ProgramSearch.Program

/-!
# What is known of earlier slots

Some nodes have the same value on every input, and some can be written more
simply. Both questions are answered for a node from the answers for the slots
before it, so one walk from left to right answers them for a whole program.

A slot that is empty or not before the reader is unknown, and nothing follows
from it. Two operators, the remainder and the logarithm, are only ever replaced
by a constant result; the others also use their neutral and absorbing operands.
-/

namespace ProgramSearch

/-- A present node with its value on every input, if it has one, and its simpler
form, if there is one. -/
structure Known (α : Type) where
  node : Node α
  value : Option α
  simpler : Option (Node α)

namespace Known

variable {α : Type}

/-- The simplest form: the simpler one where it exists. -/
def form (known : Known α) : Node α := known.simpler.getD known.node

end Known

/-- What is known of the slots before a reader. -/
abbrev Prior (α : Type) := Array (Option (Known α))

namespace Prior

variable {α : Type}

def known? (prior : Prior α) (slot : UInt16) : Option (Known α) := prior[slot.toNat]?.join

def value? (prior : Prior α) (slot : UInt16) : Option α := (known? prior slot).bind Known.value

/-- A node that stands for the given slot: the slot's own node when that is
direct, and another name for the slot otherwise. -/
def renamed (prior : Prior α) (slot : UInt16) : Node α :=
  match known? prior slot with
  | some known => if known.node.isDirect then known.node else .move slot
  | none => .move slot

/-- A node that stands for the selected side of a conditional: the simplest form
of that side when it is direct, and another name for the side otherwise. -/
def selected (prior : Prior α) (slot : UInt16) : Node α :=
  match known? prior slot with
  | some known => if known.form.isDirect then known.form else .move slot
  | none => .move slot

/-- The nodes alone. -/
def program (prior : Prior α) : Program α := prior.map (·.map Known.node)

end Prior

namespace Node

variable {α : Type} [Number α]

/-- The value that a node has on every input. A guard has one only when its
condition is known to agree. -/
def value? (prior : Prior α) : Node α → Option α
  | constant value => some value
  | argument _ => none
  | binary op lhs rhs =>
    (Prior.value? prior lhs).bind fun x => (Prior.value? prior rhs).map fun y => op.apply x y
  | move target => Prior.value? prior target
  | conditional x y cond =>
    (Prior.value? prior cond).bind fun z =>
      Prior.value? prior (if Number.positive z then x else y)
  | guarded branch cond taken =>
    (Prior.value? prior cond).bind fun z =>
      if Number.positive z == taken then Prior.value? prior branch else none

/-- Whether an operand is known and passes a test. -/
def hasOperand (test : α → Bool) (operand : Option α) : Bool := operand.any test

/-- The simpler form of an operator one of whose operands is unknown. The
operands are tried in the order that decides between two rules that apply. -/
def simplerBinary? (prior : Prior α) (op : Operator) (lhs rhs : UInt16) : Option (Node α) :=
  let x := Prior.value? prior lhs
  let y := Prior.value? prior rhs
  if op = .mod ∨ op = .log then none
  else if hasOperand Number.isNaN x || hasOperand Number.isNaN y then some (.constant Number.nan)
  else match op with
    | .add =>
      if hasOperand Number.isZero x then some (Prior.renamed prior rhs)
      else if hasOperand Number.isZero y then some (Prior.renamed prior lhs)
      else none
    | .sub => if hasOperand Number.isZero y then some (Prior.renamed prior lhs) else none
    | .mul =>
      if hasOperand Number.isOne x then some (Prior.renamed prior rhs)
      else if hasOperand Number.isOne y then some (Prior.renamed prior lhs)
      else if hasOperand Number.isZero x || hasOperand Number.isZero y then
        some (.constant Number.zero)
      else none
    | .div => if hasOperand Number.isOne y then some (Prior.renamed prior lhs) else none
    | .pow =>
      if hasOperand Number.isOne x || hasOperand Number.isZero y then some (.constant Number.one)
      else none
    | .mod | .log => none

/-- The simpler form of a node, if it has one. A constant and an argument have
none, so simplifying comes to an end. -/
def simpler? (prior : Prior α) (node : Node α) : Option (Node α) :=
  match node with
  | constant _ | argument _ => none
  | binary op lhs rhs =>
    match value? prior node with
    | some value => some (.constant value)
    | none => simplerBinary? prior op lhs rhs
  | conditional x y cond =>
    (Prior.value? prior cond).map fun z =>
      Prior.selected prior (if Number.positive z then x else y)
  | move _ | guarded .. => (value? prior node).map .constant

/-- Everything that is known of a node, given what is known before it. -/
def known (prior : Prior α) (node : Node α) : Known α :=
  ⟨node, value? prior node, simpler? prior node⟩

/-- Whether the operands known before the program runs already lie outside the
domain of a checked operator. -/
def isStaticInvalid (prior : Prior α) : Node α → Bool
  | binary op lhs rhs =>
    match op with
    | .div | .mod | .log => hasOperand (op.isInvalid Number.one) (Prior.value? prior rhs)
    | .pow => hasOperand (op.isInvalid · Number.one) (Prior.value? prior lhs)
    | .add | .sub | .mul => false
  | _ => false

/-- Whether the node is known to be "not a number" or an infinity. -/
def isStaticNonFinite (prior : Prior α) (node : Node α) : Bool :=
  hasOperand (!Number.isFinite ·) (value? prior node)

/-- What a conditional becomes when only one of its sides is kept: a guard that
checks the condition again, or the selected side itself. -/
def collapse? (prior : Prior α) (taken guard : Bool) : Node α → Option (Node α)
  | conditional x y cond =>
    let branch := if taken then x else y
    if guard then some (.guarded branch cond taken) else some (Prior.selected prior branch)
  | _ => none

end Node

namespace Prior

variable {α : Type} [Number α]

/-- Extend the knowledge by one slot. -/
def extend (prior : Prior α) (slot : Option (Node α)) : Prior α :=
  prior.push (slot.map (·.known prior))

end Prior

namespace Program

variable {α : Type} [Number α]

/-- What is known of every slot of a program. -/
def prior (nodes : Program α) : Prior α := nodes.foldl Prior.extend #[]

end Program

end ProgramSearch
