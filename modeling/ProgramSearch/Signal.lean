/-!
# Signals of a running program

A signal stops one execution. It is control flow and not a defect of the
program: a failed guard asks for the unguarded form, an invalid operation asks
for a repair, and the remaining signals end the execution.
-/

namespace ProgramSearch

inductive Signal where
  /-- A checked operator met operands outside its domain at this node. -/
  | invalidOperation (node : UInt16)
  /-- A guard found its condition on the other side. -/
  | bailout
  | loopBudgetExceeded
  | memoryExhausted
  | addressOutOfRange
deriving DecidableEq, Repr

namespace Signal

def message : Signal → String
  | invalidOperation node => s!"Dynamic invalid operation at node {node}"
  | bailout => "Optimized code bailed out"
  | loopBudgetExceeded => "Loop budget exceeded"
  | memoryExhausted => "Virtual memory page budget exhausted"
  | addressOutOfRange => "Virtual memory address out of range"

/-- Whether the signal ends the execution outright, so that no other form of the
program is tried. -/
def isTermination : Signal → Bool
  | loopBudgetExceeded | memoryExhausted | addressOutOfRange => true
  | invalidOperation _ | bailout => false

end Signal

end ProgramSearch
