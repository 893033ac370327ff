import Std.Data.TreeSet
import ProgramSearch.Program.Pruning
import ProgramSearch.Tree

/-!
# Profiles of control trees

An instrumented execution notes the blocks that it enters and the sides that its
conditionals select. What was seen holds for the profiled inputs only. Three passes
use it: branches can be committed for good, guarded in a specialized form, and loops
whose body was never entered can be removed.

The branch passes go by the numbers of basic blocks, and the loop pass by the numbers
of blocks, so the branch passes come first.
-/

namespace ProgramSearch

structure TreeProfile where
  branches : BranchCounter
  reached : Std.TreeSet Nat

namespace TreeProfile

def empty : TreeProfile := ⟨BranchCounter.empty, ∅⟩

def markReached (profile : TreeProfile) (block : Nat) : TreeProfile :=
  { profile with reached := profile.reached.insert block }

def isReached (profile : TreeProfile) (block : Nat) : Bool := profile.reached.contains block

def reachedCount (profile : TreeProfile) : Nat := profile.reached.size

def record (profile : TreeProfile) (report : Report) : TreeProfile :=
  { profile with branches := profile.branches.record report }

end TreeProfile

namespace Tree

variable {α : Type} [Number α]

/-- The number of the next basic block, and how many conditionals were collapsed. -/
abbrev PassCount := Nat × Nat

/-- Collapse every conditional that was seen on one side only, and drop specialized
forms. The slots before the offset are left alone. -/
def commitBranches (tree : Tree α) (profile : TreeProfile) (offset : Nat) : Tree α × Nat :=
  let (tree, _, count) := tree.mapBasic (fun ((ordinal, count) : PassCount) code =>
    let (nodes, collapsed) := code.nodes.prune offset (profile.branches.sides ordinal 0) false
    ((⟨nodes, none⟩ : BasicBlock α), (ordinal + 1, count + collapsed))) (0, 0)
  (tree, count)

/-- Give every basic block a specialized form in which each conditional with a rarely
selected side is guarded. A block in which nothing is guarded gets none. -/
def speculateBranches (tree : Tree α) (profile : TreeProfile) (offset threshold : Nat) :
    Tree α × Nat :=
  let (tree, _, count) := tree.mapBasic (fun ((ordinal, count) : PassCount) code =>
    let (nodes, guarded) :=
      code.nodes.prune offset (profile.branches.sides ordinal threshold) true
    let specialized := if guarded = 0 then none else some nodes
    ((⟨code.nodes, specialized⟩ : BasicBlock α), (ordinal + 1, count + guarded))) (0, 0)
  (tree, count)

end Tree

namespace Tree

variable {α : Type}

/-- The rule that removes a loop whose body is a block that was never entered. The body
is the last block that was numbered before its loop. -/
def stripRule (profile : TreeProfile) (state : PassCount) (tree : Tree α) :
    Tree α × PassCount :=
  match tree with
  | .block _ => (tree, (state.1 + 1, state.2))
  | .loop _ body =>
    if body.isBlock && !profile.isReached (state.1 - 1) then (.skip, (state.1, state.2 + 1))
    else (tree, state)
  | _ => (tree, state)

/-- Remove every loop whose body was never entered, and count them. -/
def stripDeadLoops (tree : Tree α) (profile : TreeProfile) : Tree α × Nat :=
  let (tree, _, count) := tree.rebuild (stripRule profile) (0, 0)
  (tree, count)

end Tree

end ProgramSearch
