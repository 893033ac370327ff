import ProgramSearch.Program
import ProgramSearch.Proofs.Refusal

/-!
# Valid programs

A program is valid when every operand of every node is present and lies strictly before its
reader. Validation accepts exactly the valid programs. A program is ready for a number of outputs
when it is valid, starts with a direct node and holds a node in every output slot; this is what
compiling asks of a program before any code is made.

Programs are looked at through `node?` throughout, so a transformation of a program is described
by the nodes that its slots hold afterwards.
-/

namespace ProgramSearch.Program

variable {α : Type}

theorem node_bound (nodes : Program α) (slot : Nat) (node : Node α)
    (held : node? nodes slot = some node) : slot < nodes.size := by
  by_cases inside : slot < nodes.size
  · exact inside
  · have beyond : nodes[slot]? = none := Array.getElem?_eq_none (Nat.le_of_not_lt inside)
    simp [node?, beyond] at held

/-- Looking at a slot inside the program reads its content. -/
theorem node_inside (nodes : Program α) (slot : Nat) (inside : slot < nodes.size) :
    node? nodes slot = nodes[slot] := by
  simp [node?, Array.getElem?_eq_getElem inside]

/-- No slot beyond the program holds a node. -/
theorem node_beyond (nodes : Program α) (slot : Nat) (beyond : nodes.size ≤ slot) :
    node? nodes slot = none := by
  simp [node?, Array.getElem?_eq_none beyond]

theorem node_push (nodes : Program α) (last : Option (Node α)) (slot : Nat) :
    node? (nodes.push last) slot = if slot = nodes.size then last else node? nodes slot := by
  by_cases new : slot = nodes.size <;> simp [node?, Array.getElem?_push, new]

/-- Presence means that some node is held. -/
theorem present_iff (nodes : Program α) (slot : Nat) :
    isPresent nodes slot = true ↔ ∃ node, node? nodes slot = some node := by
  simp only [isPresent, Option.isSome_iff_exists]

/-- Every operand of every node is present and lies strictly before its reader. -/
def Valid (nodes : Program α) : Prop :=
  ∀ slot node, node? nodes slot = some node →
    ∀ read ∈ node.reads, read.toNat < slot ∧ isPresent nodes read.toNat = true

/-- An operand passes its check exactly when it is earlier and present. -/
theorem check_operand_ok_iff (nodes : Program α) (index : Nat) (operand : UInt16) :
    checkOperand nodes index operand = .ok () ↔
      operand.toNat < index ∧ isPresent nodes operand.toNat = true := by
  by_cases late : index ≤ operand.toNat
  · simp [checkOperand, late, Nat.not_lt_of_le late]
  · by_cases present : isPresent nodes operand.toNat = true
    · simp [checkOperand, late, present, Nat.lt_of_not_le late]
    · simp [checkOperand, late, present]

/-- A slot passes its check exactly when the operands of its node do; an empty slot has none. -/
theorem check_slot_ok_iff (nodes : Program α) (slot : Nat) :
    checkSlot nodes slot = .ok () ↔
      ∀ node, node? nodes slot = some node →
        ∀ read ∈ node.reads, read.toNat < slot ∧ isPresent nodes read.toNat = true := by
  cases held : node? nodes slot with
  | none => simp [checkSlot, held]
  | some node =>
    simp only [checkSlot, held, Refusal.forM_ok_iff, check_operand_ok_iff, Option.some.injEq,
      forall_eq']

/-- Validation accepts exactly the valid programs. Slots beyond the program hold nothing and are
not checked. -/
theorem validate_ok_iff (nodes : Program α) : validate nodes = .ok () ↔ Valid nodes := by
  simp only [validate, Refusal.forM_ok_iff, check_slot_ok_iff, List.mem_range]
  constructor
  · intro checked slot node held
    exact checked slot (node_bound nodes slot node held) node held
  · intro valid slot _ node held
    exact valid slot node held

/-- What compiling asks of a program with a number of outputs. -/
structure Ready (nodes : Program α) (outputs : Nat) : Prop where
  positive : 0 < outputs
  enough : outputs ≤ nodes.size
  leading : ∃ node, node? nodes 0 = some node ∧ node.isDirect = true
  valid : Valid nodes
  present : ∀ slot, nodes.size - outputs ≤ slot → slot < nodes.size → isPresent nodes slot = true

/-- No slot holds a guard. -/
def Unguarded (nodes : Program α) : Prop :=
  ∀ slot branch cond taken, node? nodes slot ≠ some (.guarded branch cond taken)

/-- Whether a slot holds a guard. -/
def isGuard : Option (Node α) → Bool
  | some (.guarded ..) => true
  | _ => false

/-- Looking at all slots decides whether a program holds a guard. -/
theorem unguarded_iff_all (nodes : Program α) :
    Unguarded nodes ↔ nodes.toList.all (fun slot => !isGuard slot) = true := by
  rw [List.all_eq_true]
  constructor
  · intro unguarded slot listed
    obtain ⟨index, found⟩ := List.mem_iff_getElem?.mp listed
    rw [Array.getElem?_toList] at found
    have free := unguarded index
    simp only [node?, found, Option.join_some] at free
    cases slot with
    | none => rfl
    | some node =>
      cases node with
      | guarded branch cond taken => exact absurd rfl (free branch cond taken)
      | constant | argument | binary | move | conditional => rfl
  · intro free slot branch cond taken held
    have inside := node_bound nodes slot _ held
    rw [node_inside nodes slot inside] at held
    have checked := free _ (held ▸ Array.getElem_mem_toList inside)
    simp [isGuard] at checked

/-- Adding a slot at the end adds no guard exactly when the slot does not hold one. -/
theorem unguarded_push_iff (nodes : Program α) (last : Option (Node α)) :
    Unguarded (nodes.push last) ↔
      Unguarded nodes ∧ ∀ branch cond taken, last ≠ some (.guarded branch cond taken) := by
  constructor
  · intro free
    constructor
    · intro slot branch cond taken held
      have inside := node_bound nodes slot _ held
      apply free slot branch cond taken
      rw [node_push, if_neg (Nat.ne_of_lt inside)]
      exact held
    · intro branch cond taken same
      apply free nodes.size branch cond taken
      rw [node_push, if_pos rfl]
      exact same
  · rintro ⟨before, free⟩ slot branch cond taken held
    rw [node_push] at held
    split at held
    · exact free branch cond taken held
    · exact before slot branch cond taken held

instance (nodes : Program α) : Decidable (Unguarded nodes) :=
  decidable_of_iff _ (unguarded_iff_all nodes).symm

end ProgramSearch.Program
