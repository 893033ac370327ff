import ProgramSearch.Number

/-!
# Binary operators

Seven operators, four of which have a domain. An operator outside its domain
still has a value; the domain matters only to checked programs.
-/

namespace ProgramSearch

inductive Operator where
  | add | sub | mul | div | mod | pow | log
deriving DecidableEq, Repr

namespace Operator

/-- Every operator, in the order in which random generation numbers them. -/
def all : List Operator := [add, sub, mul, div, mod, pow, log]

def symbol : Operator → String
  | add => "+"
  | sub => "-"
  | mul => "*"
  | div => "/"
  | mod => "%"
  | pow => "**"
  | log => "log"

/-- Whether the operator has a domain to check. -/
def isChecked : Operator → Bool
  | div | mod | pow | log => true
  | add | sub | mul => false

variable {α : Type} [Number α]

def apply : Operator → α → α → α
  | add => Number.add
  | sub => Number.sub
  | mul => Number.mul
  | div => Number.div
  | mod => Number.rem
  | pow => Number.pow
  | log => Number.log

/-- Whether the operands lie outside the operator's domain: a zero divisor, a
logarithm to a base that is not positive, or a power of a base that is not
positive. -/
def isInvalid : Operator → α → α → Bool
  | div, _, y | mod, _, y => Number.isZero y
  | log, _, y => Number.atMost y Number.zero
  | pow, x, _ => Number.atMost x Number.zero
  | add, _, _ | sub, _, _ | mul, _, _ => false

end Operator

end ProgramSearch
