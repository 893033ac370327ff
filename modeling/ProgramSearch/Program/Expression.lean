import ProgramSearch.Branch
import ProgramSearch.Signal
import ProgramSearch.Program.Operator

/-!
# Expressions

A compiled program evaluates expressions. Their leaves are constants, inputs and
temporaries; a conditional evaluates its condition first and then only the
selected side. An evaluation that stops has still made the reports that came
before.
-/

namespace ProgramSearch

/-- Why an execution has no result. -/
inductive Halt where
  | signal (cause : Signal)
  /-- The program read an input that it was not given. -/
  | missingInput
deriving DecidableEq, Repr

/-- The outcome of an execution with the branch reports made on the way. -/
structure Traced (β : Type) where
  reports : List Report
  result : Except Halt β

namespace Traced

variable {β γ : Type}

def ofResult (result : Except Halt β) : Traced β := ⟨[], result⟩

def report (branch : Branch) (taken : Bool) : Traced Unit := ⟨[⟨branch, taken⟩], .ok ()⟩

def signal (cause : Signal) : Traced β := ofResult (.error (.signal cause))

/-- Go on after a result; a stopped execution stays stopped. Reports are kept in
the order in which they were made. -/
def andThen (first : Traced β) (next : β → Traced γ) : Traced γ :=
  match first.result with
  | .error halt => ⟨first.reports, .error halt⟩
  | .ok value =>
    let rest := next value
    ⟨first.reports ++ rest.reports, rest.result⟩

instance : Monad Traced where
  pure value := ofResult (.ok value)
  bind := andThen

end Traced

/-- A value that needs no computation. -/
inductive Value (α : Type) where
  | constant (value : α)
  | input (index : Nat)
  | temporary (index : Nat)
deriving DecidableEq, Repr

/-- A computation over inputs and earlier temporaries. Whatever is computed keeps the slot
of the node that it stands for. -/
inductive Expression (α : Type) where
  | value (leaf : Value α)
  /-- An operator; a checked one refuses operands outside its domain. -/
  | binary (slot : Nat) (checked : Bool) (op : Operator) (lhs rhs : Expression α)
  /-- A conditional; an instrumented one names the block that it reports for. -/
  | conditional (slot : Nat) (profile : Option Nat) (x y cond : Expression α)
  | guarded (slot : Nat) (taken : Bool) (branch cond : Expression α)

variable {α : Type} [Number α]

/-- What an expression can see. -/
structure Frame (α : Type) where
  inputs : Array α
  temporaries : Array α

/-- A temporary is read only after the step that fills it; before that it holds
zero. -/
def Value.read (frame : Frame α) : Value α → Except Halt α
  | constant value => .ok value
  | input index =>
    match frame.inputs[index]? with
    | some value => .ok value
    | none => .error .missingInput
  | temporary index => .ok (frame.temporaries.getD index Number.zero)

namespace Expression

/-- Apply the operator in a slot. When it is checked, operands outside its domain are
refused and the slot is blamed by its sixteen-bit number. -/
def operate (slot : Nat) (checked : Bool) (op : Operator) (x y : α) : Traced α :=
  if checked && op.isInvalid x y then Traced.signal (.invalidOperation (UInt16.ofNat slot))
  else pure (op.apply x y)

/-- Report the selection of the conditional in a slot when it is instrumented. -/
def reportIf (slot : Nat) (profile : Option Nat) (taken : Bool) : Traced Unit :=
  match profile with
  | some block => Traced.report ⟨block, UInt16.ofNat slot⟩ taken
  | none => pure ()

/-- Evaluate in a frame. Operands of an operator are evaluated from left to
right. -/
def evaluate (frame : Frame α) : Expression α → Traced α
  | value leaf => Traced.ofResult (leaf.read frame)
  | binary slot checked op lhs rhs => do
    let x ← lhs.evaluate frame
    let y ← rhs.evaluate frame
    operate slot checked op x y
  | conditional slot profile x y cond => do
    let z ← cond.evaluate frame
    if Number.positive z then
      reportIf slot profile true
      x.evaluate frame
    else
      reportIf slot profile false
      y.evaluate frame
  | guarded _ taken branch cond => do
    let z ← cond.evaluate frame
    if Number.positive z == taken then branch.evaluate frame else Traced.signal .bailout

end Expression

end ProgramSearch
