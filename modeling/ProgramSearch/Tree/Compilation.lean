import ProgramSearch.Tree.Machine

/-!
# Compiling control trees

Blocks and basic blocks get their numbers while the tree is compiled. Empty
statements inside a block are left out. Every variable that a statement names must
exist, and a basic block must have all variables as outputs and read no other ones.
-/

namespace ProgramSearch

/-- The numbers of the next block and of the next basic block. -/
structure Ordinals where
  blocks : Nat
  basicBlocks : Nat

namespace Tree

variable {α : Type}

/-- What every statement of a tree is compiled with. -/
structure Setting where
  config : MachineConfig
  instrumented : Bool

namespace Setting

/-- The position of a variable that exists. -/
def position (setting : Setting) (index : UInt16) : Except Fault Nat :=
  if index.toNat < setting.config.variableCount then .ok index.toNat
  else .error (.variableOutOfRange index.toNat setting.config.variableCount)

/-- Compile a straight-line program that turns the variables into new ones. -/
def scalar (setting : Setting) (nodes : Program α) (profile : Option Nat) :
    Except Fault (Compiled α) := do
  let program ← nodes.compile setting.config.variableCount { checked := false, profile }
  if setting.config.variableCount < program.arity then
    throw (.variableOutOfRange (program.arity - 1) setting.config.variableCount)
  pure program

/-- Compile a basic block, the baseline first. Only the baseline is instrumented. -/
def basic (setting : Setting) (block : BasicBlock α) (ordinal : Nat) :
    Except Fault (Statement α) := do
  let baseline ← setting.scalar block.nodes (if setting.instrumented then some ordinal else none)
  let specialized ← block.specialized.mapM (setting.scalar · none)
  pure (.basic baseline specialized)

end Setting

mutual

/-- Compile a statement, numbering what it contains. -/
def statement (setting : Setting) (next : Ordinals) :
    Tree α → Except Fault (Statement α × Ordinals)
  | .skip => .ok (.skip, next)
  | .block children => do
    let (children, next) ← statements setting next children
    let noted := if setting.instrumented then some next.blocks else none
    pure (.block noted children, { next with blocks := next.blocks + 1 })
  | .loop condition body => do
    let condition ← setting.position condition
    let (body, next) ← statement setting next body
    pure (.loop condition body, next)
  | .read target => do pure (.read (← setting.position target), next)
  | .write address value => do
    let address ← setting.position address
    let value ← setting.position value
    pure (.write address value, next)
  | .basic code => do
    let compiled ← setting.basic code next.basicBlocks
    pure (compiled, { next with basicBlocks := next.basicBlocks + 1 })

/-- Compile the statements of a block, without the empty ones. -/
def statements (setting : Setting) (next : Ordinals) :
    List (Tree α) → Except Fault (List (Statement α) × Ordinals)
  | [] => .ok ([], next)
  | tree :: rest =>
    if tree.isSkip then statements setting next rest
    else do
      let (first, next) ← statement setting next tree
      let (rest, next) ← statements setting next rest
      pure (first :: rest, next)

end

/-- Compile a tree for a machine. An instrumented program makes notes for a profile. -/
def compile (tree : Tree α) (config : MachineConfig) (instrumented : Bool) :
    Except Fault (Executable α) := do
  config.validate
  let (root, _) ← statement ⟨config, instrumented⟩ ⟨0, 0⟩ tree
  pure ⟨root, config, instrumented⟩

end Tree

end ProgramSearch
