import ProgramSearch.Program.Compilation
import ProgramSearch.Proofs.Program.Validity

/-!
# What compiled code stands for

Compiled code unfolds the program that it was made from. A leaf leads to a slot through the names
that the slot has; an expression repeats the nodes below its slot, cut off where a node has a
temporary; and the steps fill the temporaries in such an order that each reads only earlier ones.
These relations are syntactic: they speak neither of inputs nor of readers.

Compiling establishes them from a successful run alone. That it succeeds at all is a different
matter, which needs the counting of readers.
-/

namespace ProgramSearch

variable {α : Type}

/-- A leaf leads to a slot when it is the constant or the input there, the temporary of the slot, or
leads to the slot that is renamed there. The temporaries belong to the listed slots, in order. -/
inductive Value.Leads (nodes : Program α) (slots : List Nat) : Value α → Nat → Prop where
  | constant {slot : Nat} {value : α} :
      nodes.node? slot = some (.constant value) → Leads nodes slots (.constant value) slot
  | input {slot : Nat} {parameter : UInt16} :
      nodes.node? slot = some (.argument parameter) →
        Leads nodes slots (.input parameter.toNat) slot
  | temporary {slot index : Nat} :
      slots[index]? = some slot → Leads nodes slots (.temporary index) slot
  | move {slot : Nat} {target : UInt16} {leaf : Value α} :
      nodes.node? slot = some (.move target) → Leads nodes slots leaf target.toNat →
        Leads nodes slots leaf slot

/-- An expression unfolds a slot when it is a leaf that leads there or repeats the node there over
expressions that unfold its operands. Checks and reports are those of the mode. -/
inductive Expression.Unfolds (nodes : Program α) (mode : Program.Mode) (slots : List Nat) :
    Expression α → Nat → Prop where
  | value {slot : Nat} {leaf : Value α} :
      leaf.Leads nodes slots slot → Unfolds nodes mode slots (.value leaf) slot
  | binary {slot : Nat} {op : Operator} {lhs rhs : UInt16} {x y : Expression α} :
      nodes.node? slot = some (.binary op lhs rhs) →
      Unfolds nodes mode slots x lhs.toNat → Unfolds nodes mode slots y rhs.toNat →
        Unfolds nodes mode slots (.binary slot (mode.checked && op.isChecked) op x y) slot
  | conditional {slot : Nat} {x y cond : UInt16} {first second condition : Expression α} :
      nodes.node? slot = some (.conditional x y cond) →
      Unfolds nodes mode slots first x.toNat → Unfolds nodes mode slots second y.toNat →
      Unfolds nodes mode slots condition cond.toNat →
        Unfolds nodes mode slots (.conditional slot mode.profile first second condition) slot
  | guarded {slot : Nat} {branch cond : UInt16} {taken : Bool} {kept condition : Expression α} :
      nodes.node? slot = some (.guarded branch cond taken) →
      Unfolds nodes mode slots kept branch.toNat → Unfolds nodes mode slots condition cond.toNat →
        Unfolds nodes mode slots (.guarded slot taken kept condition) slot

/-- An operand stands for a slot when its leaf leads there or its expression unfolds it. -/
def Operand.Stands (nodes : Program α) (mode : Program.Mode) (slots : List Nat) (slot : Nat) :
    Operand α → Prop
  | .value leaf => leaf.Leads nodes slots slot
  | .inline expression => expression.Unfolds nodes mode slots slot

/-- Steps fill the temporaries of the listed slots when each unfolds its slot and reads only
temporaries that were filled before it. -/
inductive Expression.Fills (nodes : Program α) (mode : Program.Mode) :
    List Nat → List (Expression α) → List Nat → Prop where
  | done {filled : List Nat} : Fills nodes mode filled [] []
  | next {filled slots : List Nat} {slot : Nat} {step : Expression α}
      {steps : List (Expression α)} :
      step.Unfolds nodes mode filled slot → Fills nodes mode (filled ++ [slot]) steps slots →
        Fills nodes mode filled (step :: steps) (slot :: slots)

/-- A leaf leads where it did when more temporaries are added. -/
theorem Value.Leads.append {nodes : Program α} {slots : List Nat} {leaf : Value α} {slot : Nat}
    (leads : leaf.Leads nodes slots slot) (more : List Nat) :
    leaf.Leads nodes (slots ++ more) slot := by
  induction leads with
  | constant held => exact .constant held
  | input held => exact .input held
  | @temporary slot index listed =>
    have inside : index < slots.length := (List.getElem?_eq_some_iff.mp listed).1
    exact .temporary (by rw [List.getElem?_append_left inside, listed])
  | move held _ inductionHypothesis => exact .move held inductionHypothesis

/-- An expression unfolds what it did when more temporaries are added. -/
theorem Expression.Unfolds.append {nodes : Program α} {mode : Program.Mode} {slots : List Nat}
    {expression : Expression α} {slot : Nat} (unfolds : expression.Unfolds nodes mode slots slot)
    (more : List Nat) : expression.Unfolds nodes mode (slots ++ more) slot := by
  induction unfolds with
  | value leads => exact .value (leads.append more)
  | binary held _ _ left right => exact .binary held left right
  | conditional held _ _ _ first second condition => exact .conditional held first second condition
  | guarded held _ _ kept condition => exact .guarded held kept condition

/-- An operand stands for its slot when more temporaries are added. -/
theorem Operand.Stands.append {nodes : Program α} {mode : Program.Mode} {slots : List Nat}
    {operand : Operand α} {slot : Nat} (stands : operand.Stands nodes mode slots slot)
    (more : List Nat) : operand.Stands nodes mode (slots ++ more) slot := by
  cases operand with
  | value leaf => exact Value.Leads.append stands more
  | inline expression => exact Expression.Unfolds.append stands more

/-- One more step may follow when it reads only temporaries that are filled by then. -/
theorem Expression.Fills.snoc {nodes : Program α} {mode : Program.Mode} {filled slots : List Nat}
    {steps : List (Expression α)} (fills : Fills nodes mode filled steps slots)
    {last : Expression α} {slot : Nat} (unfolds : last.Unfolds nodes mode (filled ++ slots) slot) :
    Fills nodes mode filled (steps ++ [last]) (slots ++ [slot]) := by
  induction fills with
  | done => exact .next (by simpa using unfolds) .done
  | next first _ inductionHypothesis =>
    exact .next first (inductionHypothesis (by simpa using unfolds))

/-- There is one step for each temporary. -/
theorem Expression.Fills.length {nodes : Program α} {mode : Program.Mode} {filled slots : List Nat}
    {steps : List (Expression α)} (fills : Fills nodes mode filled steps slots) :
    steps.length = slots.length := by
  induction fills with
  | done => rfl
  | next _ _ inductionHypothesis => simp [inductionHypothesis]

end ProgramSearch
