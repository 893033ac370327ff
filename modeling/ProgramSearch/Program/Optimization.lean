import ProgramSearch.Program.Prior

/-!
# Simplifying whole programs

A round simplifies every node from left to right and then removes dead nodes
from right to left. Rounds repeat until one changes nothing.

A node only ever becomes a lighter one: a computation weighs three, another name
two, a constant or an argument one, and an empty slot nothing. The weight of the
program therefore bounds the number of rounds that change something.
-/

namespace ProgramSearch

namespace Node

variable {α : Type}

def weight : Node α → Nat
  | constant _ | argument _ => 1
  | move _ => 2
  | binary .. | conditional .. | guarded .. => 3

end Node

namespace Program

variable {α : Type}

def weight (nodes : Program α) : Nat :=
  nodes.foldl (fun total slot => total + (slot.map Node.weight).getD 0) 0

/-- Dead-node removal in progress. -/
structure Removal (α : Type) where
  nodes : Program α
  /-- Which slots a kept node reads. -/
  useful : Array Bool
  /-- Whether a node was removed. -/
  changed : Bool
  /-- Whether every kept node reads slots of the program only. -/
  inBounds : Bool

namespace Removal

/-- Mark the operands of a node that is kept. -/
def keep (removal : Removal α) (node : Node α) : Removal α :=
  { removal with
    useful :=
      node.reads.foldl (fun marks slot => marks.setIfInBounds slot.toNat true) removal.useful
    inBounds := removal.inBounds && node.reads.all (·.toNat < removal.nodes.size) }

/-- Treat one slot. A node before the protected region that no later node reads
is removed unless it is an argument; every other node keeps what it reads. -/
def visit (protectedStart slot : Nat) (removal : Removal α) : Removal α :=
  match node? removal.nodes slot with
  | none => removal
  | some node =>
    if slot < protectedStart && !removal.useful.getD slot false && !node.isRemovalProtected then
      { removal with nodes := removal.nodes.setIfInBounds slot none, changed := true }
    else removal.keep node

/-- Treat the slots from the given one down to the second. The leading slot is
always kept. -/
def sweep (protectedStart : Nat) : Nat → Removal α → Removal α
  | 0, removal => removal
  | slot + 1, removal => sweep protectedStart slot (removal.visit protectedStart (slot + 1))

end Removal

/-- Remove every node that no kept node reads. -/
def removeDead (nodes : Program α) (protectedStart : Nat) : Removal α :=
  Removal.sweep protectedStart (nodes.size - 1)
    ⟨nodes, Array.replicate nodes.size false, false, true⟩

variable [Number α]

/-- Simplification in progress: the slots treated so far, and whether a node
became simpler. -/
structure Simplification (α : Type) where
  prior : Prior α
  changed : Bool

/-- Treat one slot. Only nodes after the leading one are simplified. -/
def Simplification.step (state : Simplification α) (slot : Option (Node α)) : Simplification α :=
  match slot.bind (Node.simpler? state.prior) with
  | some simpler =>
    if state.prior.isEmpty then ⟨state.prior.extend slot, state.changed⟩
    else ⟨state.prior.extend (some simpler), true⟩
  | none => ⟨state.prior.extend slot, state.changed⟩

/-- Simplify every node once, each from the simplified slots before it. -/
def simplify (nodes : Program α) : Program α × Bool :=
  let result := nodes.foldl Simplification.step ⟨#[], false⟩
  (result.prior.program, result.changed)

/-- One round: the removal of dead nodes from the simplified program, which also tells
whether a node became simpler. -/
def optimizeRound (nodes : Program α) (protectedStart : Nat) : Removal α :=
  let (simplified, simpler) := simplify nodes
  let removal := removeDead simplified protectedStart
  { removal with changed := simpler || removal.changed }

/-- What simplifying a whole program leaves. -/
structure Optimized (α : Type) where
  nodes : Program α
  /-- How many rounds changed something. -/
  rounds : Nat
  /-- Whether no round met a kept node that reads beyond the program. A program of
  which that is not true has no meaning, and nothing follows from its other answers. -/
  inBounds : Bool

/-- Repeat rounds, counting those that change something. -/
def optimizeRounds (protectedStart : Nat) : Nat → Optimized α → Optimized α
  | 0, state => state
  | fuel + 1, state =>
    let round := optimizeRound state.nodes protectedStart
    let inBounds := state.inBounds && round.inBounds
    if round.changed then
      optimizeRounds protectedStart fuel ⟨round.nodes, state.rounds + 1, inBounds⟩
    else ⟨round.nodes, state.rounds, inBounds⟩

/-- Simplify until nothing changes. Slots from `protectedStart` on are never removed.
Every round that changes something makes the program lighter. -/
def optimize (nodes : Program α) (protectedStart : Nat) : Optimized α :=
  if nodes.size < 2 then ⟨nodes, 0, true⟩
  else optimizeRounds protectedStart (weight nodes + 1) ⟨nodes, 0, true⟩

end Program

end ProgramSearch
