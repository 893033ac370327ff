import ProgramSearch.Branch.Profile
import ProgramSearch.Program.Prior

/-!
# Collapsing branches

A conditional that was seen on one side only can be collapsed to that side: either
for good, or behind a guard that checks the condition again. A conditional that was
seen on both sides or on none is left alone.
-/

namespace ProgramSearch.Program

variable {α : Type} [Number α]

/-- Collapsing in progress: the slots treated so far, and how many were collapsed. -/
structure Collapse (α : Type) where
  prior : Prior α
  count : Nat

/-- The side on which alone a conditional was seen. -/
def onlySide? (sides : Sides) (slot : UInt16) : Option Bool :=
  match sides.taken.contains slot, sides.notTaken.contains slot with
  | true, false => some true
  | false, true => some false
  | _, _ => none

/-- Treat one slot. Slots before the offset, and the leading one, are left alone.
Slots are looked up by their sixteen-bit number. -/
def Collapse.step (sides : Sides) (offset : Nat) (guard : Bool) (state : Collapse α)
    (slot : Option (Node α)) : Collapse α :=
  let index := state.prior.size
  let side := if index < max offset 1 then none else onlySide? sides (UInt16.ofNat index)
  let collapsed :=
    slot.bind fun node => side.bind fun taken => node.collapse? state.prior taken guard
  match collapsed with
  | some node => ⟨state.prior.extend (some node), state.count + 1⟩
  | none => ⟨state.prior.extend slot, state.count⟩

/-- Collapse every conditional that was seen on one side only, and count them. A
selected side may be the form of a node collapsed earlier in the same walk. -/
def prune (nodes : Program α) (offset : Nat) (sides : Sides) (guard : Bool) : Program α × Nat :=
  let result := nodes.foldl (Collapse.step sides offset guard) ⟨#[], 0⟩
  (result.prior.program, result.count)

end ProgramSearch.Program
