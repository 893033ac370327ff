/-!
# Branches

A branch is a conditional, named by the basic block that holds it and by its
slot there. A stand-alone program is block zero. Instrumented programs report
which side of a branch they select.

Branches are ordered by their block and then by their slot, so that everything
that is collected by branch is listed block by block.
-/

namespace ProgramSearch

structure Branch where
  block : Nat
  node : UInt16
deriving DecidableEq, Repr

namespace Branch

def display (branch : Branch) : String := s!"bb{branch.block}:%{branch.node}"

/-- By block, and within a block by slot. -/
def order : Branch → Branch → Ordering :=
  compareLex (compareOn Branch.block) (compareOn Branch.node)

instance : Std.TransCmp order :=
  inferInstanceAs (Std.TransCmp (compareLex (compareOn Branch.block) (compareOn Branch.node)))

/-- Only a branch itself has its place in the order. -/
instance : Std.LawfulEqCmp order where
  eq_of_compare {first second} same := by
    simp only [order, compareLex_eq_eq, compareOn, Std.compare_eq_iff_eq] at same
    cases first
    cases second
    simp_all

end Branch

/-- One selection: the branch, and whether its condition was positive. -/
structure Report where
  branch : Branch
  taken : Bool
deriving DecidableEq, Repr

end ProgramSearch
