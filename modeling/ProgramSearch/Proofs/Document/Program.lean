import ProgramSearch.Document.Program
import ProgramSearch.Proofs.Document.Record
import ProgramSearch.Proofs.Number.Identity
import ProgramSearch.Proofs.Program.Validity

/-!
# Programs that were written

The stored form of a program is read back slot by slot: empty slots stay empty, and every node keeps
its kind and all that it names. Only constants go through the text format of numbers, so the program
that is read differs from the one that was written in what this format does to its constants, and in
nothing else. It is valid when the other one is, because constants read no slots.
-/

namespace ProgramSearch

namespace Node

variable {α : Type}

/-- The same node with its constant changed. -/
def mapConstant (change : α → α) : Node α → Node α
  | constant value => .constant (change value)
  | node => node

/-- A changed constant reads no slots, like the constant itself. -/
theorem map_constant_reads (change : α → α) (node : Node α) :
    (node.mapConstant change).reads = node.reads := by
  cases node <;> rfl

end Node

namespace Program

variable {α : Type}

/-- The same program with its constants changed. -/
def mapConstants (change : α → α) (nodes : Program α) : Program α :=
  nodes.map (Option.map (Node.mapConstant change))

/-- Every slot holds the same node with its constant changed. -/
theorem node_map_constants (change : α → α) (nodes : Program α) (slot : Nat) :
    node? (nodes.mapConstants change) slot = (node? nodes slot).map (Node.mapConstant change) := by
  rw [node?, node?, mapConstants, Array.getElem?_map]
  cases nodes[slot]? <;> rfl

/-- Constants do not matter for validity. -/
theorem valid_map_constants_iff (change : α → α) (nodes : Program α) :
    Valid (nodes.mapConstants change) ↔ Valid nodes := by
  have present (slot : Nat) : isPresent (nodes.mapConstants change) slot = isPresent nodes slot := by
    rw [isPresent, isPresent, node_map_constants, Option.isSome_map]
  constructor
  · intro valid slot node held read member
    have mapped : node? (nodes.mapConstants change) slot = some (node.mapConstant change) := by
      rw [node_map_constants, held]
      rfl
    rw [← present]
    exact valid slot _ mapped read (by rwa [Node.map_constant_reads])
  · intro valid slot node held read member
    rw [node_map_constants, Option.map_eq_some_iff] at held
    obtain ⟨original, heldBefore, rfl⟩ := held
    rw [Node.map_constant_reads] at member
    rw [present]
    exact valid slot original heldBefore read member

/-- A program is left as it is when none of its constants is changed. -/
theorem map_constants_eq_iff {change : α → α} (nodes : Program α) :
    nodes.mapConstants change = nodes ↔
      ∀ slot value, node? nodes slot = some (.constant value) → change value = value := by
  constructor
  · intro same slot value held
    have mapped := node_map_constants change nodes slot
    rw [same, held] at mapped
    exact (Node.constant.inj (Option.some.inj mapped)).symm
  · intro kept
    refine Array.ext (Array.size_map ..) fun slot before inside => ?_
    have held : node? nodes slot = nodes[slot] := by
      rw [node?, Array.getElem?_eq_getElem inside]
      rfl
    have mapped : (nodes.mapConstants change)[slot] = nodes[slot].map (Node.mapConstant change) :=
      Array.getElem_map ..
    rw [mapped]
    cases found : nodes[slot] with
    | none => rfl
    | some node =>
      cases node with
      | constant value =>
        exact congrArg (fun read => some (Node.constant read)) (kept slot value (held.trans found))
      | _ => rfl

/-- What stands among the slots is held by one of them. -/
theorem node_of_mem {nodes : Program α} {node : Node α} (listed : some node ∈ nodes.toList) :
    ∃ slot, node? nodes slot = some node := by
  obtain ⟨slot, found⟩ := List.mem_iff_getElem?.mp listed
  rw [Array.getElem?_toList] at found
  exact ⟨slot, by rw [node?, found]; rfl⟩

end Program

namespace Document

/-- Every operator is found by its name. -/
theorem operator_read (op : Operator) : operator? (.text (operatorName op)) = some op := by
  cases op <;> rfl

/-- What is written for a constant is readable if it is read as anything. -/
theorem constant_readable {value read : Float} (found : constant? (constant value) = some read) :
    (constant value).isReadable = true := by
  unfold constant at found ⊢
  split
  case isTrue finite =>
    rw [if_pos finite] at found
    rw [Json.isReadable]
    exact Option.isSome_of_eq_some found
  case isFalse => exact Json.text_readable _

/-- A constant opens no level. -/
@[simp]
theorem constant_levels (value : Float) : (constant value).levels = 0 := by
  unfold constant
  split <;> rfl

/-- The text of a finite number denotes that number. -/
def Survives (value : Float) : Prop :=
  (Json.number (Decimal.Layout.stored.write value)).toFloat? = some value

instance (value : Float) : Decidable (Survives value) := inferInstanceAs (Decidable (_ = _))

/-- A constant that survives when it is finite is read back. The others have names. -/
theorem constant_read {value : Float} (survives : Number.isFinite value = true → Survives value) :
    constant? (constant value) = some value := by
  cases finite : Number.isFinite value with
  | true =>
    rw [constant, if_pos ((Double.finite_iff value).mp finite)]
    exact survives finite
  | false =>
    rcases Double.not_finite_cases finite with rfl | rfl | rfl
    · rfl
    · rfl
    · rfl

/-- The fields of a node that was written are handed to the reader of its kind. -/
theorem node_of_record (kind : String) (declared : List String) (fields : List (String × Json))
    (named : fields.map Prod.fst = declared) (distinct : ("kind" :: declared).Nodup)
    (readable : ∀ value ∈ fields.map Prod.snd, value.isReadable = true) :
    ∃ found : Fields, node? (record kind fields) = nodeOfKind? kind found ∧
      found.values? declared = some (fields.map Prod.snd) := by
  obtain ⟨found, kindFound, values⟩ := record_found kind fields declared named distinct readable
  exact ⟨found, by rw [node?, kindFound]; rfl, values⟩

variable {reread : Float → Float}

/-- A node is read back, with what the text format makes of its constant. -/
theorem node_read {node : Node Float}
    (constants : ∀ value, node = .constant value → constant? (constant value) = some (reread value)) :
    node? (ofNode node) = some (node.mapConstant reread) := by
  cases node with
  | constant value =>
    have read := constants value rfl
    obtain ⟨found, node, values⟩ := node_of_record "Constant" ["value"] [("value", constant value)] rfl
      (by decide) (by simp [constant_readable read])
    rw [ofNode, node]
    simp [nodeOfKind?, values, read, Node.mapConstant]
  | argument parameter =>
    obtain ⟨found, node, values⟩ := node_of_record "Argument" ["parameter"]
      [("parameter", short parameter)] rfl (by decide) (by simp)
    rw [ofNode, node]
    simp [nodeOfKind?, values, Node.mapConstant]
  | binary op lhs rhs =>
    obtain ⟨found, node, values⟩ := node_of_record "Binary" ["op", "lhs", "rhs"]
      [("op", .text (operatorName op)), ("lhs", short lhs), ("rhs", short rhs)] rfl
      (by decide) (by simp)
    rw [ofNode, node]
    simp [nodeOfKind?, values, operator_read, Node.mapConstant]
  | move target =>
    obtain ⟨found, node, values⟩ := node_of_record "Move" ["target"] [("target", short target)] rfl
      (by decide) (by simp)
    rw [ofNode, node]
    simp [nodeOfKind?, values, Node.mapConstant]
  | conditional x y cond =>
    obtain ⟨found, node, values⟩ := node_of_record "Conditional" ["x", "y", "cond"]
      [("x", short x), ("y", short y), ("cond", short cond)] rfl (by decide) (by simp)
    rw [ofNode, node]
    simp [nodeOfKind?, values, Node.mapConstant]
  | guarded branch cond taken =>
    obtain ⟨found, node, values⟩ := node_of_record "Bailout" ["branch", "cond", "taken"]
      [("branch", short branch), ("cond", short cond), ("taken", .bool taken)] rfl (by decide)
      (by simp)
    rw [ofNode, node]
    simp [nodeOfKind?, values, bool?, Node.mapConstant]

/-- A node is readable if its constant is read as anything. -/
theorem node_readable {node : Node Float}
    (constants : ∀ value, node = .constant value → constant? (constant value) = some (reread value)) :
    (ofNode node).isReadable = true := by
  cases node with
  | constant value =>
    exact (record_readable _ _).mpr (by simp [constant_readable (constants value rfl)])
  | argument | binary | move | conditional | guarded => exact (record_readable _ _).mpr (by simp)

/-- A node is a record of values without parts. -/
theorem node_levels (node : Node Float) : (ofNode node).levels = 1 := by
  cases node <;> simp [ofNode, Json.levelsOf, Json.levels]

/-- What is written for a slot. -/
def ofSlot (slot : Option (Node Float)) : Json := (slot.map ofNode).getD .null

/-- A slot is read back, with what the text format makes of its constant. -/
theorem slot_read {slot : Option (Node Float)}
    (constants : ∀ value, slot = some (.constant value) →
      constant? (constant value) = some (reread value)) :
    slot? (ofSlot slot) = some (slot.map (Node.mapConstant reread)) := by
  cases slot with
  | none => rfl
  | some node =>
    have read := node_read fun value same => constants value (congrArg some same)
    have shape : slot? (ofNode node) = (node? (ofNode node)).map some := by
      cases node <;> rfl
    rw [ofSlot, Option.map_some, Option.getD_some, shape, read]
    rfl

/-- A slot opens one level at most. -/
theorem slot_levels (slot : Option (Node Float)) : (ofSlot slot).levels ≤ 1 := by
  cases slot with
  | none => exact Nat.zero_le 1
  | some node => exact (node_levels node).le

/-- A slot is readable if its constant is read as anything. -/
theorem slot_readable {slot : Option (Node Float)}
    (constants : ∀ value, slot = some (.constant value) →
      constant? (constant value) = some (reread value)) :
    (ofSlot slot).isReadable = true := by
  cases slot with
  | none => rfl
  | some node => exact node_readable fun value same => constants value (congrArg some same)

section Programs

variable {nodes : Program Float}
  (constants : ∀ slot value, Program.node? nodes slot = some (.constant value) →
    constant? (constant value) = some (reread value))

include constants

/-- What the text format makes of the constants of a program, slot by slot. -/
theorem slot_constants {slot : Option (Node Float)} (listed : slot ∈ nodes.toList) (value : Float)
    (same : slot = some (.constant value)) : constant? (constant value) = some (reread value) := by
  obtain ⟨place, held⟩ := Program.node_of_mem (same ▸ listed)
  exact constants place value held

/-- Slots of a program are read back one after another. -/
theorem slots_found (listed : List (Option (Node Float))) (inside : listed ⊆ nodes.toList) :
    (listed.map ofSlot).mapM slot? = some (listed.map (Option.map (Node.mapConstant reread))) := by
  induction listed with
  | nil => rfl
  | cons slot rest inductionHypothesis =>
    obtain ⟨first, others⟩ := List.cons_subset.mp inside
    simp [slot_read (slot_constants constants first), inductionHypothesis others]

/-- A program is read back from what is written for it. -/
theorem program_found : program? (ofProgram nodes) = some (nodes.mapConstants reread) := by
  change ((nodes.toList.map ofSlot).mapM slot?).map List.toArray = _
  rw [slots_found constants nodes.toList (List.Subset.refl _), ← Array.toList_map, Option.map_some,
    Array.toArray_toList, Program.mapConstants]

/-- What is written for a program is readable. -/
theorem program_readable : (ofProgram nodes).isReadable = true := by
  change Json.areReadable (nodes.toList.map ofSlot) = true
  rw [Json.are_readable_iff]
  intro item listed
  obtain ⟨slot, inside, rfl⟩ := List.mem_map.mp listed
  exact slot_readable (slot_constants constants inside)

/-- A valid program is read back from its text with what the text format of numbers makes of its
constants. -/
theorem program_read (valid : Program.Valid nodes) :
    readProgram (writeProgram nodes) = .ok (nodes.mapConstants reread) := by
  have shallow : (ofProgram nodes).levels ≤ Json.depthLimit := by
    change Json.levelsOf (nodes.toList.map ofSlot) + 1 ≤ 126 + 1
    refine Nat.succ_le_succ ((Json.levels_of_le_iff _ _).mpr fun item listed => ?_)
    obtain ⟨slot, -, rfl⟩ := List.mem_map.mp listed
    exact (slot_levels slot).trans (by decide)
  have accepted := (Program.validate_ok_iff _).mpr
    ((Program.valid_map_constants_iff reread nodes).mpr valid)
  rw [readProgram, writeProgram, Json.compact_read _ (program_readable constants), if_pos shallow,
    Option.bind_some, program_found constants]
  simp only [accepted]
  rfl

end Programs

/-- A valid program whose finite constants survive the text format of numbers is read back. -/
theorem surviving_program_read {nodes : Program Float} (valid : Program.Valid nodes)
    (survive : ∀ slot value, Program.node? nodes slot = some (.constant value) →
      Number.isFinite value = true → Survives value) :
    readProgram (writeProgram nodes) = .ok nodes := by
  have read : readProgram (writeProgram nodes) = .ok (nodes.mapConstants id) :=
    program_read (fun slot value held => constant_read (survive slot value held)) valid
  have unchanged : nodes.mapConstants id = nodes :=
    (Program.map_constants_eq_iff nodes).mpr fun _ _ _ => rfl
  rwa [unchanged] at read

end Document

end ProgramSearch
