import ProgramSearch.Program

/-!
# Control trees

A control tree is a program with loops and memory. It works on a fixed number of
variables. A basic block is a straight-line program whose last outputs replace all
variables at once; it may carry a specialized form that is tried first and can
always be dropped.

Basic blocks are numbered from left to right, and blocks in post-order, a block
after everything inside it.
-/

namespace ProgramSearch

structure BasicBlock (α : Type) where
  nodes : Program α
  specialized : Option (Program α) := none

inductive Tree (α : Type) where
  | skip
  | block (children : List (Tree α))
  /-- Repeats the body while the variable is positive. -/
  | loop (condition : UInt16) (body : Tree α)
  /-- Replaces a variable by the memory cell that it addresses. -/
  | read (target : UInt16)
  /-- Writes one variable to the memory cell that another addresses. -/
  | write (address value : UInt16)
  | basic (block : BasicBlock α)

namespace Tree

variable {α : Type}

def empty : Tree α := .block []

def isSkip : Tree α → Bool
  | .skip => true
  | _ => false

def isBlock : Tree α → Bool
  | .block _ => true
  | _ => false

mutual

/-- The number of nodes, where a basic block is one. -/
def size : Tree α → Nat
  | .block children => sizes children + 1
  | .loop _ body => body.size + 1
  | .skip | .read _ | .write .. | .basic _ => 1

def sizes : List (Tree α) → Nat
  | [] => 0
  | tree :: rest => tree.size + sizes rest

end

mutual

/-- The basic blocks in the order of their numbers. -/
def basicBlocks : Tree α → List (BasicBlock α)
  | .block children => basicBlocksOf children
  | .loop _ body => body.basicBlocks
  | .basic code => [code]
  | .skip | .read _ | .write .. => []

def basicBlocksOf : List (Tree α) → List (BasicBlock α)
  | [] => []
  | tree :: rest => tree.basicBlocks ++ basicBlocksOf rest

end

section Threading

variable {σ : Type} (change : σ → BasicBlock α → BasicBlock α × σ)

mutual

/-- Change every basic block in the order of their numbers, threading a state. -/
def mapBasic (state : σ) : Tree α → Tree α × σ
  | .block children =>
    let (children, state) := mapBasicOf state children
    (.block children, state)
  | .loop condition body =>
    let (body, state) := mapBasic state body
    (.loop condition body, state)
  | .basic code =>
    let (code, state) := change state code
    (.basic code, state)
  | .skip => (.skip, state)
  | .read target => (.read target, state)
  | .write address value => (.write address value, state)

def mapBasicOf (state : σ) : List (Tree α) → List (Tree α) × σ
  | [] => ([], state)
  | tree :: rest =>
    let (tree, state) := mapBasic state tree
    let (rest, state) := mapBasicOf state rest
    (tree :: rest, state)

end

end Threading

/-- Change the basic block with a given number. Nothing happens if there is none. -/
def modifyBasic (tree : Tree α) (ordinal : Nat) (change : BasicBlock α → BasicBlock α) : Tree α :=
  (tree.mapBasic (fun index code =>
    (if index = ordinal then change code else code, index + 1)) 0).1

/-- Drop every specialized form. -/
def clearSpecialized (tree : Tree α) : Tree α :=
  (tree.mapBasic (fun _ code => (⟨code.nodes, none⟩, ())) ()).1

section Rebuilding

variable {σ : Type} (rule : σ → Tree α → Tree α × σ)

mutual

/-- Apply a rule to every node after its children, from left to right, threading a
state. A block loses the children that became empty statements before the rule
sees it. -/
def rebuild (state : σ) : Tree α → Tree α × σ
  | .block children =>
    let (children, state) := rebuildAll state children
    rule state (.block children)
  | .loop condition body =>
    let (body, state) := rebuild state body
    rule state (.loop condition body)
  | leaf => rule state leaf

def rebuildAll (state : σ) : List (Tree α) → List (Tree α) × σ
  | [] => ([], state)
  | tree :: rest =>
    let (tree, state) := rebuild state tree
    let (rest, state) := rebuildAll state rest
    (if tree.isSkip then rest else tree :: rest, state)

end

end Rebuilding

end Tree

end ProgramSearch
