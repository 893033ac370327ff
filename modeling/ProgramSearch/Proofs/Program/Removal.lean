import ProgramSearch.Program.Optimization
import ProgramSearch.Proofs.Program.Validity

/-!
# Removing dead nodes

Dead nodes are removed in one sweep from right to left. A node that is kept marks what it reads,
and in a valid program that lies further left, so the marks of a slot are complete when the sweep
comes to it and do not change any more afterwards. A slot that was passed without being removed
therefore reads marked slots only, and marked slots are never removed.

The sweep empties slots and changes nothing else. The leading slot is never visited.
-/

namespace ProgramSearch.Program

variable {α : Type}

/-- Emptying a slot leaves the others as they were. -/
theorem node_clear (nodes : Program α) (slot other : Nat) :
    node? (nodes.setIfInBounds slot none) other =
      if other = slot then none else node? nodes other := by
  by_cases same : other = slot
  · subst same
    simp only [node?, Array.getElem?_setIfInBounds, if_true]
    split <;> rfl
  · simp [node?, Ne.symm same, same]

namespace Removal

/-- Mark one operand. -/
def mark (marks : Array Bool) (read : UInt16) : Array Bool := marks.setIfInBounds read.toNat true

theorem marks_size (reads : List UInt16) (marks : Array Bool) :
    (reads.foldl mark marks).size = marks.size := by
  induction reads generalizing marks with
  | nil => rfl
  | cons read rest inductionHypothesis =>
    rw [List.foldl_cons, inductionHypothesis, mark, Array.size_setIfInBounds]

/-- After marking operands, a slot is marked exactly when it was before or is one of them. -/
theorem marks_exact (reads : List UInt16) (marks : Array Bool) (slot : Nat) :
    (reads.foldl mark marks).getD slot false = true ↔
      marks.getD slot false = true ∨ slot < marks.size ∧ ∃ read ∈ reads, read.toNat = slot := by
  induction reads generalizing marks with
  | nil => simp
  | cons read rest inductionHypothesis =>
    have sized : (mark marks read).size = marks.size := Array.size_setIfInBounds
    rw [List.foldl_cons, inductionHypothesis, sized]
    by_cases same : read.toNat = slot
    · by_cases inside : slot < marks.size <;>
        simp [mark, Array.getD_eq_getD_getElem?, same, inside]
    · simp [mark, Array.getD_eq_getD_getElem?, same]

/-- The sweep over a program when the slots behind the given one have been treated. Those are as
they were or were removed as dead, and what the remaining ones read is marked. -/
structure Swept (nodes : Program α) (protectedStart slot : Nat) (removal : Removal α) : Prop where
  sized : removal.nodes.size = nodes.size
  marks : removal.useful.size = nodes.size
  inBounds : removal.inBounds = true
  untreated : ∀ other, other ≤ slot → node? removal.nodes other = node? nodes other
  treated : ∀ other, slot < other → node? removal.nodes other = node? nodes other ∨
    node? removal.nodes other = none ∧ other < protectedStart ∧
      removal.useful.getD other false = false ∧
      ∀ parameter, node? nodes other ≠ some (.argument parameter)
  marked : ∀ other node, slot < other → node? removal.nodes other = some node →
    ∀ read ∈ node.reads, removal.useful.getD read.toNat false = true

/-- Before the sweep nothing is marked or removed. There are no slots behind the last one. -/
theorem swept_start (nodes : Program α) (protectedStart : Nat) :
    Swept nodes protectedStart (nodes.size - 1)
      ⟨nodes, Array.replicate nodes.size false, false, true⟩ where
  sized := rfl
  marks := Array.size_replicate
  inBounds := rfl
  untreated _ _ := rfl
  treated _ _ := .inl rfl
  marked other node behind held := by
    have inside := node_bound nodes other node held
    omega

section Step

variable {nodes : Program α} {protectedStart slot : Nat} {removal : Removal α}

/-- Keeping a node marks what it reads. The marks behind it stay as they were, since a valid program
reads to the left. -/
theorem swept_keep (valid : Valid nodes) {node : Node α}
    (swept : Swept nodes protectedStart (slot + 1) removal)
    (held : node? nodes (slot + 1) = some node) :
    Swept nodes protectedStart slot (removal.keep node) := by
  have earlier : ∀ read ∈ node.reads, read.toNat < slot + 1 :=
    fun read member => (valid (slot + 1) node held read member).1
  have inside := node_bound nodes (slot + 1) node held
  have exact : ∀ other, (removal.keep node).useful.getD other false = true ↔
      removal.useful.getD other false = true ∨
        other < nodes.size ∧ ∃ read ∈ node.reads, read.toNat = other :=
    fun other => swept.marks ▸ marks_exact node.reads removal.useful other
  constructor
  case sized => exact swept.sized
  case marks => exact (marks_size node.reads removal.useful).trans swept.marks
  case inBounds =>
    have bounded : node.reads.all (·.toNat < removal.nodes.size) = true := by
      rw [List.all_eq_true]
      intro read member
      have left := earlier read member
      rw [swept.sized, decide_eq_true_iff]
      omega
    simp only [keep, swept.inBounds, bounded, Bool.and_self]
  case untreated =>
    intro other before
    exact swept.untreated other (by omega)
  case treated =>
    intro other behind
    by_cases last : other = slot + 1
    · exact .inl (swept.untreated other (by omega))
    · -- What was removed lies behind this slot, so this node cannot read it.
      rcases swept.treated other (by omega) with same | ⟨removed, free, unread, computed⟩
      · exact .inl same
      · refine .inr ⟨removed, free, ?_, computed⟩
        rw [Bool.eq_false_iff, ne_eq, exact]
        rintro (marked | ⟨_, read, member, rfl⟩)
        · simp [unread] at marked
        · have left := earlier read member
          omega
  case marked =>
    intro other entry behind heldOther read member
    rw [exact]
    by_cases last : other = slot + 1
    · subst last
      obtain rfl := Option.some.inj
        (heldOther.symm.trans ((swept.untreated _ (Nat.le_refl _)).trans held))
      have left := earlier read member
      exact .inr ⟨by omega, read, member, rfl⟩
    · exact .inl (swept.marked other entry (by omega) heldOther read member)

/-- Removing a node that nothing reads leaves the slots behind it as they were. -/
theorem swept_remove {node : Node α} (swept : Swept nodes protectedStart (slot + 1) removal)
    (held : node? nodes (slot + 1) = some node) (free : slot + 1 < protectedStart)
    (unread : removal.useful.getD (slot + 1) false = false)
    (computed : node.isRemovalProtected = false) :
    Swept nodes protectedStart slot
      { removal with nodes := removal.nodes.setIfInBounds (slot + 1) none, changed := true } := by
  constructor
  case sized => exact Array.size_setIfInBounds.trans swept.sized
  case marks => exact swept.marks
  case inBounds => exact swept.inBounds
  case untreated =>
    intro other before
    rw [node_clear, if_neg (by omega)]
    exact swept.untreated other (by omega)
  case treated =>
    intro other behind
    rw [node_clear]
    by_cases last : other = slot + 1
    · subst last
      refine .inr ⟨if_pos rfl, free, unread, fun parameter argument => ?_⟩
      obtain rfl := Option.some.inj (held.symm.trans argument)
      simp [Node.isRemovalProtected] at computed
    · rw [if_neg last]
      exact swept.treated other (by omega)
  case marked =>
    intro other entry behind heldOther read member
    rw [node_clear] at heldOther
    by_cases last : other = slot + 1
    · simp [last] at heldOther
    · rw [if_neg last] at heldOther
      exact swept.marked other entry (by omega) heldOther read member

/-- An empty slot is passed without a change. -/
theorem swept_empty (swept : Swept nodes protectedStart (slot + 1) removal)
    (empty : node? nodes (slot + 1) = none) : Swept nodes protectedStart slot removal := by
  have same := swept.untreated (slot + 1) (Nat.le_refl _)
  refine { swept with
    untreated := fun other before => swept.untreated other (by omega), treated := ?_, marked := ?_ }
  · intro other behind
    by_cases last : other = slot + 1
    · exact .inl (last ▸ same)
    · exact swept.treated other (by omega)
  · intro other node behind held
    by_cases last : other = slot + 1
    · rw [last, same, empty] at held
      cases held
    · exact swept.marked other node (by omega) held

/-- Visiting a slot treats it. -/
theorem swept_visit (valid : Valid nodes) (swept : Swept nodes protectedStart (slot + 1) removal) :
    Swept nodes protectedStart slot (removal.visit protectedStart (slot + 1)) := by
  have same := swept.untreated (slot + 1) (Nat.le_refl _)
  unfold visit
  rw [same]
  cases held : node? nodes (slot + 1) with
  | none => exact swept_empty swept held
  | some node =>
    simp only
    split
    · rename_i dead
      simp only [Bool.and_eq_true, decide_eq_true_eq, Bool.not_eq_true'] at dead
      exact swept_remove swept held dead.1.1 dead.1.2 dead.2
    · exact swept_keep valid swept held

/-- The sweep treats every slot but the leading one. -/
theorem swept_sweep (valid : Valid nodes) (swept : Swept nodes protectedStart slot removal) :
    Swept nodes protectedStart 0 (sweep protectedStart slot removal) := by
  induction slot generalizing removal with
  | zero => exact swept
  | succ slot inductionHypothesis => exact inductionHypothesis (swept_visit valid swept)

end Step

/-- After the sweep every slot is as it was or was removed as dead. -/
theorem Swept.kept_or_dead {nodes : Program α} {protectedStart : Nat} {removal : Removal α}
    (swept : Swept nodes protectedStart 0 removal) (slot : Nat) :
    node? removal.nodes slot = node? nodes slot ∨
      node? removal.nodes slot = none ∧ slot < protectedStart ∧
        removal.useful.getD slot false = false ∧
        ∀ parameter, node? nodes slot ≠ some (.argument parameter) := by
  by_cases leading : slot = 0
  · exact .inl (swept.untreated slot (Nat.le_of_eq leading))
  · exact swept.treated slot (Nat.pos_of_ne_zero leading)

/-- A node that is left stood in its slot before. -/
theorem Swept.unchanged {nodes : Program α} {protectedStart : Nat} {removal : Removal α}
    (swept : Swept nodes protectedStart 0 removal) {slot : Nat} {node : Node α}
    (held : node? removal.nodes slot = some node) : node? nodes slot = some node := by
  rcases swept.kept_or_dead slot with same | ⟨removed, _⟩
  · exact same ▸ held
  · simp [removed] at held

end Removal

/-- Removing dead nodes is a sweep over the whole program. -/
theorem remove_dead_swept {nodes : Program α} (valid : Valid nodes) (protectedStart : Nat) :
    Removal.Swept nodes protectedStart 0 (removeDead nodes protectedStart) :=
  Removal.swept_sweep valid (Removal.swept_start nodes protectedStart)

end ProgramSearch.Program
