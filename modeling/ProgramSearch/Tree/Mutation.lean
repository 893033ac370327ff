import ProgramSearch.Decimal.Layout
import ProgramSearch.Program.Generation
import ProgramSearch.Tree

/-!
# Mutating control trees

A mutation applies one random edit somewhere in a tree. A block is edited by changing,
inserting or removing a child; the other statements are edited in place. How likely
each edit and each new leaf is, is set by odds. Weights are machine words, and so is
what they add up to.
-/

namespace ProgramSearch

/-- The weights and probabilities of edits. -/
structure MutationOdds where
  /-- Change a random child of a block. -/
  descend : UInt32 := 1
  /-- Insert a random leaf before a random child of a block. -/
  insert : UInt32 := 1
  /-- Remove a random child of a block. -/
  remove : UInt32 := 1
  /-- The probability that a loop gets another condition instead of another body. -/
  loopFlip : Float := 0.5
  /-- The probability that a memory write gets another address instead of another
  value. -/
  writeAddress : Float := 0.5
  leafRead : UInt32 := 1
  leafWrite : UInt32 := 1
  leafBlock : UInt32 := 1
  leafLoop : UInt32 := 1

namespace MutationOdds

def editWeights (odds : MutationOdds) : List UInt32 := [odds.descend, odds.insert, odds.remove]

def leafWeights (odds : MutationOdds) : List UInt32 :=
  [odds.leafRead, odds.leafWrite, odds.leafBlock, odds.leafLoop]

/-- Refuse a number outside `[0, 1]`, and "not a number". -/
def checkProbability (field : String) (value : Float) : Except Fault Unit :=
  if 0.0 ≤ value && value ≤ 1.0 then .ok ()
  else .error (.misfit (.notProbability field (Decimal.Layout.plain.write value)))

def validate (odds : MutationOdds) : Except Fault Unit := do
  if Draw.total odds.editWeights = 0 then throw (.misfit .noEditWeight)
  if Draw.total odds.leafWeights = 0 then throw (.misfit .noLeafWeight)
  checkProbability "loop_flip" odds.loopFlip
  checkProbability "write_address" odds.writeAddress

end MutationOdds

/-- Edits trees for a machine with the given number of variables, whose basic blocks have
`blockComplexity` slots. -/
structure Mutator where
  variableCount : Nat
  blockComplexity : Nat
  odds : MutationOdds

namespace Mutator

def make (variableCount blockComplexity : Nat) (odds : MutationOdds) : Except Fault Mutator := do
  if variableCount = 0 then throw .noArguments
  if blockComplexity ≤ variableCount then throw (.complexityTooLow blockComplexity variableCount)
  odds.validate
  pure ⟨variableCount, blockComplexity, odds⟩

/-- The first output slot of a basic block of the usual length. -/
def outputsStart (mutator : Mutator) : Nat := mutator.blockComplexity - mutator.variableCount

def randomVariable (mutator : Mutator) : Draw UInt16 := do
  let index ← Draw.belowWide mutator.variableCount
  pure (UInt16.ofNat index)

variable {α : Type} [Number α]

/-- A fresh basic block: the variables first, then random nodes. -/
def randomBasicBlock (mutator : Mutator) : Draw (BasicBlock α) := do
  let nodes ← Program.generate mutator.variableCount mutator.blockComplexity
  let (nodes, _) ← nodes.repair mutator.outputsStart
  pure { nodes }

/-- A fresh leaf. A loop starts with a basic block in its body. -/
def randomLeaf (mutator : Mutator) : Draw (Tree α) := do
  match ← Draw.weighted mutator.odds.leafWeights with
  | 0 => do pure (.read (← mutator.randomVariable))
  | 1 => do
    let address ← mutator.randomVariable
    let value ← mutator.randomVariable
    pure (.write address value)
  | 2 => do pure (.basic (← mutator.randomBasicBlock))
  | _ => do
    let condition ← mutator.randomVariable
    let block ← mutator.randomBasicBlock
    pure (.loop condition (.block [.basic block]))

/-- Replace a node of a basic block. Its specialized form is dropped. -/
def mutateBasicBlock (mutator : Mutator) (block : BasicBlock α) : Draw (BasicBlock α) := do
  let (nodes, _) ← block.nodes.mutate mutator.variableCount
  let (nodes, _) ← nodes.repair mutator.outputsStart
  pure { nodes }

mutual

/-- Apply one random edit to a tree or to something inside it. -/
def mutate (mutator : Mutator) : Tree α → Draw (Tree α)
  | .skip => pure .skip
  | .block [] => do pure (.block [← mutator.randomLeaf])
  | .block children => do
    let target ← Draw.belowWide children.length
    match ← Draw.weighted mutator.odds.editWeights with
    | 0 => do pure (.block (← mutateAt mutator target children))
    | 1 => do
      let leaf ← mutator.randomLeaf
      pure (.block (children.insertIdx target leaf))
    | _ => pure (.block (children.eraseIdx target))
  | .loop condition body => do
    if ← Draw.chance mutator.odds.loopFlip then pure (.loop (← mutator.randomVariable) body)
    else pure (.loop condition (← mutate mutator body))
  | .read _ => do pure (.read (← mutator.randomVariable))
  | .write address value => do
    if ← Draw.chance mutator.odds.writeAddress then
      pure (.write (← mutator.randomVariable) value)
    else pure (.write address (← mutator.randomVariable))
  | .basic code => do pure (.basic (← mutator.mutateBasicBlock code))

/-- Edit the child at a position. -/
def mutateAt (mutator : Mutator) : Nat → List (Tree α) → Draw (List (Tree α))
  | _, [] => pure []
  | 0, tree :: rest => do pure ((← mutate mutator tree) :: rest)
  | target + 1, tree :: rest => do pure (tree :: (← mutateAt mutator target rest))

end

end Mutator

end ProgramSearch
