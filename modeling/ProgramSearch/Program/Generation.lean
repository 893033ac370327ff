import ProgramSearch.Program.Optimization
import ProgramSearch.Random.Draw

/-!
# Random programs

Programs are generated slot by slot and mutated by replacing nodes. A new node may
read a slot that is empty; that slot then gets a new node as well, so that a
mutation of a valid program is valid again.

Operands have sixteen bits. A node for a slot beyond the addressable ones draws its
operands from an empty range, unless it happens to be a constant.
-/

namespace ProgramSearch

namespace Node

variable {α : Type} [Number α]

/-- One more than the greatest number of sixteen bits. -/
def slotLimit : Nat := 2 ^ 16

/-- The exclusive bound of the whole numbers that constants are built from. -/
def constantBound : Nat := 2 ^ 31 - 1

/-- A quotient of two random whole numbers. -/
def randomConstant : Draw (Node α) := do
  let numerator ← Draw.belowShifted constantBound
  let denominator ← Draw.belowShifted (constantBound - 1)
  pure (.constant (Number.div (Number.ofNat numerator) (Number.ofNat (denominator + 1))))

/-- A slot before the given position, which is itself cut to sixteen bits. -/
def randomOperand (position : Nat) : Draw UInt16 := do
  let slot ← Draw.belowMultiple (min position slotLimit % slotLimit)
  pure (UInt16.ofNat slot)

/-- A random node for a position: a constant, one of the operators or a conditional,
each equally likely. The leading position only takes a constant. -/
def random (position : Nat) : Draw (Node α) :=
  if position = 0 then randomConstant
  else do
    let kind ← Draw.belowWide (Operator.all.length + 2)
    if kind = 0 then randomConstant
    else
      match Operator.all[kind - 1]? with
      | some op => do
        let lhs ← randomOperand position
        let rhs ← randomOperand position
        pure (.binary op lhs rhs)
      | none => do
        let x ← randomOperand position
        let y ← randomOperand position
        let cond ← randomOperand position
        pure (.conditional x y cond)

end Node

namespace Program

variable {α : Type} [Number α]

/-- Random nodes for consecutive slots. -/
def randomNodes : Nat → Program α → Draw (Program α)
  | 0, nodes => pure nodes
  | count + 1, nodes => do
    let node ← Node.random nodes.size
    randomNodes count (nodes.push (some node))

/-- The argument nodes that a program starts with. -/
def argumentNodes (arguments : Nat) : Program α :=
  Array.ofFn fun parameter : Fin arguments => some (.argument (UInt16.ofNat parameter))

/-- A fresh program of `complexity` slots: its arguments, and random nodes after
them. -/
def generate (arguments complexity : Nat) : Draw (Program α) :=
  if arguments = 0 then throw (.fault .noArguments)
  else if complexity ≤ arguments then
    throw (.fault (.complexityTooLow complexity arguments))
  else if Node.slotLimit < complexity then throw (.fault (.misfit (.slotCount complexity)))
  else randomNodes (complexity - arguments) (argumentNodes arguments)

/-- The operands of a new node that are empty and not waiting already, each once. -/
def emptyOperands (nodes : Program α) (pending : List Nat) : List UInt16 → List Nat
  | [] => []
  | read :: rest =>
    if isPresent nodes read.toNat || pending.contains read.toNat then
      emptyOperands nodes pending rest
    else read.toNat :: emptyOperands nodes (read.toNat :: pending) rest

/-- Give every waiting slot a new node, first come first served. Empty operands of a
new node wait behind the others. Breaks off at a slot beyond the program, and when the
given number of nodes is exceeded. -/
def regenerateLoop : Nat → Program α → List Nat → Draw (Program α)
  | _, nodes, [] => pure nodes
  | 0, _, _ :: _ => Draw.crash
  | fuel + 1, nodes, slot :: waiting => do
    let node ← Node.random slot
    if slot < nodes.size then
      let nodes := nodes.setIfInBounds slot (some node)
      regenerateLoop fuel nodes (waiting ++ emptyOperands nodes waiting node.reads)
    else Draw.crash

/-- How many slots are empty. -/
def emptyCount (nodes : Program α) : Nat := nodes.toList.countP Option.isNone

/-- Give the listed slots new nodes and fill every empty slot that these read. An empty
slot joins the queue at most once, because it is filled when its turn comes; so no more
nodes are needed than there are listed and empty slots. -/
def regenerate (nodes : Program α) (slots : List Nat) : Draw (Program α) :=
  regenerateLoop (slots.length + emptyCount nodes) nodes slots

/-- Replace one present slot at or after the offset, or any slot there if all are
empty. The leading slot is never replaced. Gives the slot, if there was one to
replace. -/
def mutate (nodes : Program α) (offset : Nat) : Draw (Program α × Option Nat) :=
  let start := max offset 1
  if nodes.size ≤ start then pure (nodes, none)
  else do
    let present := (List.range' start (nodes.size - start)).filter (isPresent nodes)
    let slot ←
      if present.isEmpty then do
        let shift ← Draw.belowWide (nodes.size - start)
        pure (start + shift)
      else do
        let index ← Draw.belowWide present.length
        pure (present.getD index start)
    let nodes ← regenerate nodes [slot]
    pure (nodes, some slot)

/-- Whether a node is known to be invalid or not finite. Arguments never are, and the
leading node is not looked at. -/
def isOffender (prior : Prior α) (node : Node α) : Bool :=
  !prior.isEmpty && !node.isRemovalProtected &&
    (node.isStaticInvalid prior || node.isStaticNonFinite prior)

/-- A search for offending slots: the slots treated so far, and the offending ones among
them, the last one first. -/
structure Inspection (α : Type) where
  prior : Prior α
  found : List Nat

/-- Treat one slot. -/
def Inspection.step (state : Inspection α) (slot : Option (Node α)) : Inspection α :=
  if slot.any (isOffender state.prior) then
    ⟨state.prior.extend slot, state.prior.size :: state.found⟩
  else ⟨state.prior.extend slot, state.found⟩

/-- The slots whose nodes are known to be invalid or not finite, in increasing order. -/
def offenders (nodes : Program α) : List Nat :=
  (nodes.foldl Inspection.step ⟨#[], []⟩).found.reverse

/-- How many rounds of repair are tried. -/
def repairRounds : Nat := 1024

/-- Simplify, breaking off at a program that reads beyond its end. -/
def simplified (nodes : Program α) (protectedStart : Nat) : Draw (Program α) :=
  let result := optimize nodes protectedStart
  if result.inBounds then pure result.nodes else Draw.crash

/-- Simplify and replace offending nodes, round after round, until none is left. Counts
the replaced slots. -/
def repairLoop (protectedStart : Nat) : Nat → Program α → Nat → Draw (Program α × Nat)
  | 0, nodes, replaced => pure (nodes, replaced)
  | fuel + 1, nodes, replaced => do
    let nodes ← simplified nodes protectedStart
    let slots := offenders nodes
    if slots.isEmpty then pure (nodes, replaced)
    else
      let nodes ← regenerate nodes slots
      repairLoop protectedStart fuel nodes (replaced + slots.length)

/-- Replace nodes that are known to be invalid or not finite before the program runs. -/
def repair (nodes : Program α) (protectedStart : Nat) : Draw (Program α × Nat) :=
  repairLoop protectedStart repairRounds nodes 0

end Program

end ProgramSearch
