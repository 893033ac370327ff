import ProgramSearch.Number.Binary

/-!
# Systems of numbers

Programs compute over a system of machine numbers: values with the seven
arithmetic operations, an equality and an order that need not hold of every
value with itself, and a value for "not a number". Everything that programs do
with numbers goes through this interface, so a law about programs can name the
few facts about arithmetic that it rests on and hold in every system with those
facts. Double precision is the instance that runs.
-/

namespace ProgramSearch

/-- The operations that programs need of their numbers. No law is part of the
interface; a statement that needs one takes it as a hypothesis. -/
class Number (α : Type) where
  zero : α
  one : α
  nan : α
  infinity : α
  negativeInfinity : α
  add : α → α → α
  sub : α → α → α
  mul : α → α → α
  div : α → α → α
  /-- The remainder of a division that rounds toward zero. -/
  rem : α → α → α
  pow : α → α → α
  /-- The logarithm of the first number to the base of the second. -/
  log : α → α → α
  /-- Numeric equality. Both zeros are equal, and "not a number" equals nothing. -/
  equal : α → α → Bool
  /-- Strict numeric order. "Not a number" is below nothing and above nothing. -/
  below : α → α → Bool
  /-- The number nearest to a natural number. -/
  ofNat : Nat → α
  /-- The exact value of a finite number, and nothing for the others. -/
  exact : α → Option Binary
  /-- The position in a total order that refines the numeric one and also puts
  the negative zero before the positive one. -/
  rank : α → Nat

namespace Number

variable {α : Type} [Number α]

/-- A condition selects its first side exactly when it is positive. -/
def positive (x : α) : Bool := below zero x

def atMost (x y : α) : Bool := below x y || equal x y

/-- Only "not a number" differs from itself. -/
def isNaN (x : α) : Bool := !equal x x

/-- Strictly between the infinities. -/
def isFinite (x : α) : Bool := below negativeInfinity x && below x infinity

def isZero (x : α) : Bool := equal x zero

def isOne (x : α) : Bool := equal x one

end Number

end ProgramSearch
