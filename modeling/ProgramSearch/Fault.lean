/-!
# Faults

A fault refuses a program, a configuration or a document. It aborts the request
and is never retried. Causes are values; each has one text.
-/

namespace ProgramSearch

/-- What is wrong with a configuration or a request. -/
inductive Misfit where
  | outputs (count slots : Nat)
  | slotCount (complexity : Nat)
  | argumentsBeyondVariables (arguments count : Nat)
  | variableCount (count : Nat)
  | noWorkers
  | noTrials
  | nothingKept (removed trials : Nat)
  | noEditWeight
  | noLeafWeight
  /-- The offending number is kept as the text that shows it. -/
  | notProbability (field value : String)
  | dataTooNarrow (provided read : Nat)
  | startLength (slots expected : Nat)
  | described (text : String)
deriving DecidableEq, Repr

namespace Misfit

def message : Misfit → String
  | outputs count slots => s!"cannot take {count} output(s) from a program of {slots} node(s)"
  | slotCount complexity => s!"complexity {complexity} exceeds the addressable node count"
  | argumentsBeyondVariables arguments count =>
    s!"{arguments} argument(s) do not fit in {count} variable(s)"
  | variableCount count => s!"{count} variables exceed the addressable count"
  | noWorkers => "at least one worker thread is required"
  | noTrials => "at least one trial per round is required"
  | nothingKept removed trials =>
    s!"removing {removed} outlier(s) from each end leaves nothing of {trials} trial(s)"
  | noEditWeight => "block mutation weights are all zero"
  | noLeafWeight => "leaf weights are all zero"
  | notProbability field value => s!"{field} must be a probability, got {value}"
  | dataTooNarrow provided read =>
    s!"data source provides {provided} argument(s), programs read {read}"
  | startLength slots expected => s!"initial program has {slots} slot(s), expected {expected}"
  | described text => text

end Misfit

inductive Fault where
  /-- A broken promise between two parts of this library. -/
  | internal (text : String)
  | noArguments
  | complexityTooLow (complexity arguments : Nat)
  | forwardReference (index operand : Nat)
  | absentOperand (index operand : Nat)
  | absentOutput (index : Nat)
  | leadingNode
  | variableOutOfRange (index count : Nat)
  | misfit (cause : Misfit)
  | worker (text : String)
  | serialization
  | inputOutput
deriving DecidableEq, Repr

namespace Fault

def message : Fault → String
  | internal text => s!"Unknown error '{text}'"
  | noArguments => "Programs must take at least one argument"
  | complexityTooLow complexity arguments =>
    s!"Complexity {complexity} must exceed the argument count {arguments}"
  | forwardReference index operand =>
    s!"Node {index} reads operand {operand}, which is not strictly before it"
  | absentOperand index operand => s!"Node {index} reads operand {operand}, which has been removed"
  | absentOutput index => s!"Output slot {index} is empty"
  | leadingNode => "The leading node of a program must be directly compilable"
  | variableOutOfRange index count =>
    s!"Variable {index} is out of range for a program with {count} variable(s)"
  | misfit cause => s!"Invalid configuration: {cause.message}"
  | worker text => s!"Worker task failed: {text}"
  | serialization => "Serialization error"
  | inputOutput => "IO error occurred while reading/writing"

end Fault

end ProgramSearch
