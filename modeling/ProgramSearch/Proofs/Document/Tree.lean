import ProgramSearch.Document.Tree
import ProgramSearch.Proofs.Document.Program
import ProgramSearch.Proofs.Tree.Speculation

/-!
# Control trees that were written

The stored form of a tree holds the stored forms of its programs as strings, in nested records that the
reader follows up to a fixed depth. A tree within that depth comes back without its specialized forms,
and a deeper one is refused: the refusal comes from the document as a whole, before any program is read.
-/

namespace ProgramSearch

namespace Tree

variable {α : Type}

mutual

/-- How deep the stored form of a tree nests. -/
def nesting : Tree α → Nat
  | .block children => nestings children + 2
  | .loop _ body => body.nesting + 1
  | .skip | .read _ | .write .. | .basic _ => 1

/-- How deep the stored forms of several trees nest. -/
def nestings : List (Tree α) → Nat
  | [] => 0
  | tree :: rest => max tree.nesting (nestings rest)

end

end Tree

namespace Document

open Json

mutual

/-- The stored form of a tree nests as deep as the tree says. -/
theorem tree_levels (tree : Tree Float) : (ofTree tree).levels = tree.nesting := by
  match tree with
  | .skip => simp [ofTree, levelsOf, Tree.nesting]
  | .block children => simp [ofTree, levelsOf, levels, trees_levels children, Tree.nesting]
  | .loop condition body => simp [ofTree, levelsOf, tree_levels body, Tree.nesting]
  | .read target => simp [ofTree, levelsOf, Tree.nesting]
  | .write address value => simp [ofTree, levelsOf, Tree.nesting]
  | .basic code => simp [ofTree, levelsOf, Tree.nesting]

/-- The stored forms of several trees nest as deep as the trees say. -/
theorem trees_levels (trees : List (Tree Float)) : levelsOf (ofTrees trees) = Tree.nestings trees := by
  match trees with
  | [] => rfl
  | tree :: rest => rw [ofTrees, levelsOf, Tree.nestings, tree_levels tree, trees_levels rest]

end

mutual

/-- The stored form of a tree is readable. -/
theorem tree_readable (tree : Tree Float) : (ofTree tree).isReadable = true := by
  match tree with
  | .skip => exact (record_readable _ _).mpr (by simp)
  | .block children =>
    exact (record_readable _ _).mpr (by simp [isReadable, trees_readable children])
  | .loop condition body => exact (record_readable _ _).mpr (by simp [tree_readable body])
  | .read _ | .write _ _ | .basic _ => exact (record_readable _ _).mpr (by simp)

/-- The stored forms of several trees are readable. -/
theorem trees_readable (trees : List (Tree Float)) : areReadable (ofTrees trees) = true := by
  match trees with
  | [] => rfl
  | tree :: rest => simp [ofTrees, areReadable, tree_readable tree, trees_readable rest]

end

section Length

variable (style : Style)

/-- The spelling of a value is part of that of the members that it belongs to. -/
theorem member_length (level : Nat) (members : List (Option String × Json)) {key : Option String}
    {value : Json} (listed : (key, value) ∈ members) :
    (spell style level value).length ≤ (spellMembers style level members).length := by
  match members with
  | [] => exact nomatch listed
  | [(only, single)] =>
    obtain ⟨rfl, rfl⟩ := Prod.mk.inj (List.mem_singleton.mp listed)
    simp only [spell_members_last, List.length_append, List.length_cons]
    omega
  | (first, single) :: next :: rest =>
    simp only [spell_members_next, List.length_append, List.length_cons]
    rcases List.mem_cons.mp listed with same | later
    · obtain ⟨rfl, rfl⟩ := Prod.mk.inj same
      omega
    · have inside := member_length level (next :: rest) later
      omega

theorem record_length (level : Nat) (kind : String) (fields : List (String × Json)) :
    2 ≤ (spell style level (record kind fields)).length := by
  change 2 ≤ (spell style level (.object (_ :: membersOf fields))).length
  simp only [spell_object, List.length_cons, List.length_append]
  omega

/-- The spelling of a field is part of that of its record, between the braces. -/
theorem field_length (level : Nat) (kind : String) {fields : List (String × Json)} {key : String}
    {value : Json} (listed : (key, value) ∈ fields) :
    (spell style (level + 1) value).length + 2 ≤ (spell style level (record kind fields)).length := by
  have member : (some key, value) ∈ (some "kind", Json.text kind) :: membersOf fields :=
    List.mem_cons_of_mem _ (List.mem_map.mpr ⟨(key, value), listed, rfl⟩)
  have inside := member_length style (level + 1) _ member
  change _ ≤ (spell style level (.object ((some "kind", Json.text kind) :: membersOf fields))).length
  simp only [spell_object, List.length_cons, List.length_append]
  omega

mutual

/-- A tree is spelled with two characters at least for each of its nodes. -/
theorem tree_length (level : Nat) (tree : Tree Float) :
    2 * tree.size ≤ (spell style level (ofTree tree)).length := by
  match tree with
  | .skip | .read _ | .write .. | .basic _ => exact record_length style level _ _
  | .block children =>
    have inner := trees_length (level + 1 + 1) children
    have outer : (spell style (level + 1) (.array (ofTrees children))).length + 2 ≤
        (spell style level (ofTree (.block children))).length :=
      field_length style level "Block" List.mem_cons_self
    have list : (spellItems style (level + 1 + 1) (ofTrees children)).length ≤
        (spell style (level + 1) (.array (ofTrees children))).length := by
      match ofTrees children with
      | [] => exact Nat.zero_le _
      | item :: rest =>
        simp only [spell_array, List.length_cons, List.length_append]
        omega
    rw [Tree.size]
    omega
  | .loop condition body =>
    have inner := tree_length (level + 1) body
    have outer : (spell style (level + 1) (ofTree body)).length + 2 ≤
        (spell style level (ofTree (.loop condition body))).length :=
      field_length style level "WhileLoop" (List.mem_cons_of_mem _ List.mem_cons_self)
    rw [Tree.size]
    omega

/-- Several trees are spelled with two characters at least for each of their nodes. -/
theorem trees_length (level : Nat) (trees : List (Tree Float)) :
    2 * Tree.sizes trees ≤ (spellItems style level (ofTrees trees)).length := by
  match trees with
  | [] => exact Nat.zero_le _
  | [tree] =>
    have single := tree_length level tree
    simp only [ofTrees, spellItems, Tree.sizes, List.length_append]
    omega
  | tree :: next :: rest =>
    have first := tree_length level tree
    have others := trees_length level (next :: rest)
    rw [ofTrees] at others
    simp only [ofTrees, spell_items_next, Tree.sizes, List.length_append, List.length_cons] at others ⊢
    omega

end

end Length

mutual

/-- The outline of what is stored for a tree. -/
def outlineOf : Tree Float → Outline
  | .skip => .skip
  | .block children => .block (outlinesOf children)
  | .loop condition body => .loop condition (outlineOf body)
  | .read target => .read target
  | .write address value => .write address value
  | .basic code => .basic (writeProgram code.nodes)

/-- The outlines of what is stored for several trees. -/
def outlinesOf : List (Tree Float) → List Outline
  | [] => []
  | tree :: rest => outlineOf tree :: outlinesOf rest

end

/-- A node of a tree takes up fuel. -/
theorem size_positive (tree : Tree Float) : 0 < tree.size := by
  cases tree <;> simp [Tree.size]

mutual

/-- The outline of a tree is read from what is written for it, with fuel for twice its size. -/
theorem outline_read (tree : Tree Float) (fuel : Nat) (enough : 2 * tree.size ≤ fuel + 1) :
    outline? fuel (ofTree tree) = some (outlineOf tree) := by
  obtain ⟨fuel, rfl⟩ : ∃ less, fuel = less + 1 :=
    Nat.exists_eq_succ_of_ne_zero (by have := size_positive tree; omega)
  match tree with
  | .skip =>
    obtain ⟨found, kind, values⟩ := record_found "NoOp" [] [] rfl (by decide) (by simp)
    match found with
    | .named _ | .listed [] => simp [outline?, ofTree, kind, outlineOf]
    | .listed (_ :: _) => exact nomatch values
  | .block children =>
    have inner := outlines_read children fuel (by rw [Tree.size] at enough; omega)
    obtain ⟨found, kind, values⟩ := record_found "Block" [("children", .array (ofTrees children))]
      ["children"] rfl (by decide) (by simp [isReadable, trees_readable children])
    simp [outline?, ofTree, kind, values, inner, outlineOf]
  | .loop condition body =>
    have inner := outline_read body fuel (by rw [Tree.size] at enough; omega)
    obtain ⟨found, kind, values⟩ := record_found "WhileLoop"
      [("condition", short condition), ("body", ofTree body)] ["condition", "body"] rfl (by decide)
      (by simp [tree_readable body])
    simp [outline?, ofTree, kind, values, inner, outlineOf]
  | .read target =>
    obtain ⟨found, kind, values⟩ := record_found "MemoryRead" [("target", short target)] ["target"] rfl
      (by decide) (by simp)
    simp [outline?, ofTree, kind, values, outlineOf]
  | .write address value =>
    obtain ⟨found, kind, values⟩ := record_found "MemoryWrite"
      [("address", short address), ("value", short value)] ["address", "value"] rfl (by decide)
      (by simp)
    simp [outline?, ofTree, kind, values, outlineOf]
  | .basic code =>
    obtain ⟨found, kind, values⟩ := record_found "BasicBlock"
      [("nodes", .text (writeProgram code.nodes))] ["nodes"] rfl (by decide) (by simp)
    rw [outline?, ofTree, kind]
    simp [values, text, outlineOf]

/-- The outlines of several trees are read from what is written for them. -/
theorem outlines_read (trees : List (Tree Float)) (fuel : Nat)
    (enough : 2 * Tree.sizes trees ≤ fuel) :
    outlines? fuel (ofTrees trees) = some (outlinesOf trees) := by
  match trees with
  | [] => cases fuel <;> rfl
  | tree :: rest =>
    have positive := size_positive tree
    rw [Tree.sizes] at enough
    obtain ⟨fuel, rfl⟩ : ∃ less, fuel = less + 1 := Nat.exists_eq_succ_of_ne_zero (by omega)
    have first := outline_read tree fuel (by omega)
    have others := outlines_read rest fuel (by omega)
    simp [ofTrees, outlines?, first, others, outlinesOf]

end

mutual

/-- The programs of an outline lead to the tree without its specialized forms, if each of them is read
back. -/
theorem outline_tree (tree : Tree Float)
    (programs : ∀ code ∈ tree.basicBlocks, readProgram (writeProgram code.nodes) = .ok code.nodes) :
    (outlineOf tree).tree = .ok tree.clearSpecialized := by
  match tree with
  | .skip | .read _ | .write .. => rfl
  | .block children =>
    have inner := outlines_trees children programs
    rw [outlineOf, Outline.tree, inner, Tree.clear_block]
    rfl
  | .loop condition body =>
    have inner := outline_tree body programs
    rw [outlineOf, Outline.tree, inner]
    rfl
  | .basic code =>
    rw [outlineOf, Outline.tree, programs code (by simp [Tree.basicBlocks])]
    rfl

/-- The programs of several outlines lead to the trees without their specialized forms. -/
theorem outlines_trees (trees : List (Tree Float))
    (programs : ∀ code ∈ Tree.basicBlocksOf trees,
      readProgram (writeProgram code.nodes) = .ok code.nodes) :
    Outline.trees (outlinesOf trees) = .ok (trees.map Tree.clearSpecialized) := by
  match trees with
  | [] => rfl
  | tree :: rest =>
    rw [Tree.basicBlocksOf, List.forall_mem_append] at programs
    have first := outline_tree tree programs.1
    have others := outlines_trees rest programs.2
    rw [outlinesOf, Outline.trees, first, others]
    rfl

end

/-- A tree with valid programs whose finite constants survive the text format of numbers is read back
without its specialized forms if its stored form nests at most 127 levels deep. If it nests deeper, it
is refused. The stored form nests two levels for a block, one for a loop and one for any other node. -/
theorem tree_read_back_within_depth (tree : Tree Float)
    (valid : ∀ code ∈ tree.basicBlocks, Program.validate code.nodes = .ok ())
    (survive : ∀ code ∈ tree.basicBlocks, ∀ slot value,
      Program.node? code.nodes slot = some (.constant value) →
        Number.isFinite value = true → Survives value) :
    (ofTree tree).levels = tree.nesting ∧
      (tree.nesting ≤ 127 → readTree (writeTree tree) = .ok tree.clearSpecialized) ∧
      (127 < tree.nesting → readTree (writeTree tree) = .error .serialization) := by
  have document := pretty_read (ofTree tree) (tree_readable tree)
  rw [tree_levels tree] at document
  refine ⟨tree_levels tree, ?_, ?_⟩
  · intro shallow
    have enough : 2 * tree.size ≤ (writeTree tree).length + 1 := by
      have spelled := tree_length .indented 0 tree
      rw [writeTree, pretty, spell_indented_eq, String.length_ofList]
      omega
    rw [readTree, writeTree, document, if_pos (show tree.nesting ≤ depthLimit from shallow),
      Option.bind_some, ← writeTree, outline_read tree _ enough]
    exact outline_tree tree fun code inside =>
      surviving_program_read ((Program.validate_ok_iff _).mp (valid code inside)) (survive code inside)
  · intro deep
    rw [readTree, writeTree, document,
      if_neg (show ¬tree.nesting ≤ depthLimit from Nat.not_le_of_lt deep)]
    rfl

/-- A basic block with a negative zero, a third and "not a number", an empty slot, and a specialized
form. -/
def storedBlock : BasicBlock Float where
  nodes := #[some (.constant (-0.0)), none, some (.constant (1.0 / 3.0)),
    some (.constant (0.0 / 0.0)), some (.conditional 0 2 3)]
  specialized := some #[some (.argument 0)]

/-- A statement inside a number of loops. -/
def inLoops (statement : Tree Float) : Nat → Tree Float
  | 0 => statement
  | count + 1 => .loop 0 (inLoops statement count)

theorem nesting_in_loops (code : BasicBlock Float) (count : Nat) :
    (inLoops (.basic code) count).nesting = count + 1 := by
  induction count with
  | zero => rfl
  | succ count inductionHypothesis => rw [inLoops, Tree.nesting, inductionHypothesis]

theorem basic_blocks_in_loops (code : BasicBlock Float) (count : Nat) :
    (inLoops (.basic code) count).basicBlocks = [code] := by
  induction count with
  | zero => rfl
  | succ count inductionHypothesis => rw [inLoops, Tree.basicBlocks, inductionHypothesis]

theorem clear_in_loops (code : BasicBlock Float) (count : Nat) :
    (inLoops (.basic code) count).clearSpecialized = inLoops (.basic ⟨code.nodes, none⟩) count := by
  induction count with
  | zero => rfl
  | succ count inductionHypothesis => exact congrArg (Tree.loop 0) inductionHypothesis

/-- Under one hundred and twenty-six loops a basic block is still read back, without its specialized
form; one loop more is too many. -/
theorem loops_read_back_within_depth :
    readTree (writeTree (inLoops (.basic storedBlock) 126)) =
        .ok (inLoops (.basic ⟨storedBlock.nodes, none⟩) 126) ∧
      readTree (writeTree (inLoops (.basic storedBlock) 127)) = .error .serialization := by
  have valid : Program.validate storedBlock.nodes = .ok () := by decide +kernel
  have survive (slot : Nat) (value : Float)
      (held : Program.node? storedBlock.nodes slot = some (.constant value))
      (finite : Number.isFinite value = true) : Survives value := by
    match slot with
    | 0 =>
      cases held
      decide +kernel
    | 2 =>
      cases held
      decide +kernel
    | 3 =>
      cases held
      exact nomatch finite
    | 1 | 4 => exact nomatch held
    | _ + 5 => exact nomatch held
  have reads (count : Nat) := tree_read_back_within_depth (inLoops (.basic storedBlock) count)
    (by simpa [basic_blocks_in_loops] using valid) (by simpa [basic_blocks_in_loops] using survive)
  refine ⟨?_, (reads 127).2.2 (by rw [nesting_in_loops]; decide)⟩
  rw [← clear_in_loops]
  exact (reads 126).2.1 (nesting_in_loops storedBlock 126).le

end Document

end ProgramSearch
