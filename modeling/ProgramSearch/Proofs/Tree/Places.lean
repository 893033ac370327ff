import ProgramSearch.Proofs.Tree.Concealment
import ProgramSearch.Proofs.Tree.Numbering

/-!
# Places in a tree

A place is a way from the root: which child of a block to enter, and the body of a loop as the child
zero. Compiling comes to every place with the numbers that are next there, and from these alone a
block or a basic block gets its own number. The numbering of a tree tells which number is where.

Compiled code has the same places, except that the empty statements of a block are not counted. So
the code for a part stands at a place that can be computed, and it is what compiling makes of the
part with the numbers of its place.

A pass that changes every basic block by its number keeps all numbers, and finds each basic block
under the number of its place.
-/

namespace ProgramSearch

variable {α : Type}

namespace Statement

/-- The statement at a way from the root. -/
def at? : Statement α → List Nat → Option (Statement α)
  | code, [] => some code
  | .block _ parts, index :: way => parts[index]?.bind (at? · way)
  | .loop _ body, 0 :: way => at? body way
  | _, _ :: _ => none

end Statement

namespace Tree

/-- The part of a tree at a way from its root, with the numbers with which compiling comes to it. -/
def part? (next : Ordinals) : Tree α → List Nat → Option (Ordinals × Tree α)
  | tree, [] => some (next, tree)
  | .block children, index :: way =>
    children[index]?.bind (part? (pastAll next (children.take index)) · way)
  | .loop _ body, 0 :: way => part? next body way
  | _, _ :: _ => none

/-- The way to the code for the part at a way. Compiling leaves out the empty statements of a block,
so they are not counted. -/
def codeWay : Tree α → List Nat → List Nat
  | .block children, index :: way =>
    (children.take index).countP (!·.isSkip) ::
      (children[index]?.map (codeWay · way)).getD []
  | .loop _ body, index :: way => index :: codeWay body way
  | _, _ => []

/-- A number that compiling gives to a part. -/
inductive Label where
  | block (number : Nat)
  | basicBlock (number : Nat)
deriving DecidableEq

/-- The number of a part that compiling comes to with some numbers. A block is numbered after
everything inside it. -/
def label? (before : Ordinals) : Tree α → Option Label
  | .block children => some (.block (pastAll before children).blocks)
  | .basic _ => some (.basicBlock before.basicBlocks)
  | .skip | .loop .. | .read _ | .write .. => none

/-- The number of the part at a way from the root, if it has one. -/
def numbering (tree : Tree α) (way : List Nat) : Option Label :=
  (tree.part? ⟨0, 0⟩ way).bind fun (before, part) => part.label? before

/-- A child behind the first one of a block is a child of the block of the others, for which
compiling has already gone over the first one. -/
theorem part_later (next : Ordinals) (tree : Tree α) (rest : List (Tree α)) (index : Nat)
    (way : List Nat) :
    (block (tree :: rest)).part? next ((index + 1) :: way) =
      (block rest).part? (past next tree) (index :: way) := rfl

/-- A way may be followed in two stretches. -/
theorem part_append (way more : List Nat) (tree : Tree α) (next : Ordinals) :
    tree.part? next (way ++ more) =
      (tree.part? next way).bind fun (before, part) => part.part? before more := by
  induction way generalizing tree next with
  | nil => rfl
  | cons step way inductionHypothesis =>
    cases tree with
    | block children =>
      simp only [List.cons_append, part?]
      cases children[step]? with
      | none => rfl
      | some child => exact inductionHypothesis child _
    | loop condition body =>
      cases step with
      | zero => exact inductionHypothesis body next
      | succ => rfl
    | skip | read | write | basic => rfl

section Compiling

variable (setting : Setting)

/-- A child of a block is compiled with the numbers that follow the children before it, and its code
stands behind theirs. -/
theorem statements_child {trees : List (Tree α)} {next : Ordinals}
    {compiled : List (Statement α) × Ordinals}
    (accepted : statements setting next trees = .ok compiled) {index : Nat} {child : Tree α}
    (found : trees[index]? = some child) (filled : child.isSkip = false) :
    ∃ code, statement setting (pastAll next (trees.take index)) child = .ok code ∧
      compiled.1[(trees.take index).countP (!·.isSkip)]? = some code.1 := by
  induction trees generalizing next compiled index with
  | nil => exact nomatch found
  | cons tree rest inductionHypothesis =>
    cases index with
    | zero =>
      obtain rfl : tree = child := Option.some.inj found
      obtain ⟨first, others, start, _, rfl⟩ := (statements_cons_iff _ filled _ _ _).mp accepted
      exact ⟨first, start, rfl⟩
    | succ index =>
      cases empty : tree.isSkip with
      | true =>
        simp only [statements, empty, if_true] at accepted
        cases tree with
        | skip => simpa [past, pastAll, isSkip] using inductionHypothesis accepted found
        | block | loop | read | write | basic => cases empty
      | false =>
        obtain ⟨first, others, start, remaining, rfl⟩ :=
          (statements_cons_iff _ empty _ _ _).mp accepted
        rw [statement_numbers setting tree next start] at remaining
        simpa [pastAll, empty] using inductionHypothesis remaining found

/-- A part of a tree is compiled with the numbers of its place. The tree's code has the result at
the place of its own for the part. -/
theorem part_compiled (way : List Nat) {tree : Tree α} {next : Ordinals}
    {compiled : Statement α × Ordinals} (accepted : statement setting next tree = .ok compiled)
    {before : Ordinals} {part : Tree α} (found : tree.part? next way = some (before, part))
    (filled : part.isSkip = false) :
    ∃ code, statement setting before part = .ok code ∧
      compiled.1.at? (tree.codeWay way) = some code.1 := by
  induction way generalizing tree next compiled with
  | nil =>
    rw [part?, Option.some.injEq, Prod.mk.injEq] at found
    obtain ⟨rfl, rfl⟩ := found
    exact ⟨compiled, accepted, by cases tree <;> rfl⟩
  | cons index way inductionHypothesis =>
    cases tree with
    | block children =>
      obtain ⟨parts, inside, rfl⟩ := (statement_block_iff _ _ _ _).mp accepted
      obtain ⟨child, listed, found⟩ := Option.bind_eq_some_iff.mp found
      have present : child.isSkip = false := by
        cases child with
        | skip =>
          cases way with
          | nil =>
            rw [part?, Option.some.injEq, Prod.mk.injEq] at found
            exact found.2 ▸ filled
          | cons => exact nomatch found
        | block | loop | read | write | basic => rfl
      obtain ⟨code, made, placed⟩ := statements_child setting inside listed present
      obtain ⟨inner, made, placedInner⟩ := inductionHypothesis made found
      refine ⟨inner, made, ?_⟩
      simp only [codeWay, listed, Option.map_some, Option.getD_some, Statement.at?, placed,
        Option.bind_some, placedInner]
    | loop condition body =>
      obtain ⟨_, inner, inside, rfl⟩ := (statement_loop_iff _ _ _ _ _).mp accepted
      cases index with
      | zero => exact inductionHypothesis inside found
      | succ => exact nomatch found
    | skip | read | write | basic => exact nomatch found

/-- The code of a compiled tree has every part, compiled with the numbers of its place. -/
theorem compile_places {tree : Tree α} {config : MachineConfig} {instrumented : Bool}
    {program : Executable α} (accepted : tree.compile config instrumented = .ok program)
    {way : List Nat} {before : Ordinals} {part : Tree α}
    (found : tree.part? ⟨0, 0⟩ way = some (before, part)) (filled : part.isSkip = false) :
    ∃ code, statement ⟨config, instrumented⟩ before part = .ok code ∧
      program.root.at? (tree.codeWay way) = some code.1 := by
  simp only [compile, Refusal.bind_ok_iff] at accepted
  obtain ⟨_, _, root, compiled, same⟩ := accepted
  obtain rfl := Except.ok.inj same
  exact part_compiled _ way compiled found filled

end Compiling

section Collecting

/-- A basic block is listed under its number. -/
theorem part_listed (way : List Nat) {tree : Tree α} {next before : Ordinals}
    {code : BasicBlock α} (found : tree.part? next way = some (before, .basic code)) :
    ∃ index, before.basicBlocks = next.basicBlocks + index ∧
      tree.basicBlocks[index]? = some code := by
  induction way generalizing tree next with
  | nil =>
    rw [part?, Option.some.injEq, Prod.mk.injEq] at found
    obtain ⟨rfl, rfl⟩ := found
    exact ⟨0, rfl, rfl⟩
  | cons step way inductionHypothesis =>
    cases tree with
    | block children =>
      induction children generalizing next step with
      | nil => exact nomatch found
      | cons tree rest restHypothesis =>
        cases step with
        | zero =>
          obtain ⟨index, same, listed⟩ := @inductionHypothesis tree next found
          have inside := (List.getElem?_eq_some_iff.mp listed).1
          refine ⟨index, same, ?_⟩
          rw [basicBlocks, basicBlocksOf, List.getElem?_append_left inside, listed]
        | succ step =>
          rw [part_later] at found
          obtain ⟨index, same, listed⟩ := restHypothesis step found
          rw [past_basic_blocks] at same
          refine ⟨tree.basicBlocks.length + index, by rw [same, Nat.add_assoc], ?_⟩
          rw [basicBlocks, basicBlocksOf, List.getElem?_append_right (Nat.le_add_right _ _),
            Nat.add_sub_cancel_left]
          exact listed
    | loop condition body =>
      cases step with
      | zero => exact @inductionHypothesis body next found
      | succ => exact nomatch found
    | skip | read | write | basic => exact nomatch found

end Collecting

section Passes

/-- The pass that changes every basic block by its number. -/
def numbered (change : Nat → BasicBlock α → BasicBlock α) (number : Nat) (code : BasicBlock α) :
    BasicBlock α × Nat :=
  (change number code, number + 1)

variable {σ : Type} {pass : σ → BasicBlock α → BasicBlock α × σ}
  {change : Nat → BasicBlock α → BasicBlock α} (numbers : σ → Nat → Prop)

mutual

/-- A pass whose state counts the basic blocks is the pass that goes by their numbers. -/
theorem map_basic_eq_numbered
    (counts : ∀ state number code, numbers state number →
      (pass state code).1 = change number code ∧ numbers (pass state code).2 (number + 1))
    (tree : Tree α) {state : σ} {number : Nat} (counted : numbers state number) :
    (tree.mapBasic pass state).1 = (tree.mapBasic (numbered change) number).1 ∧
      numbers (tree.mapBasic pass state).2 (tree.mapBasic (numbered change) number).2 := by
  cases tree with
  | block children =>
    obtain ⟨same, follow⟩ := map_basic_of_eq_numbered counts children counted
    exact ⟨congrArg block same, follow⟩
  | loop condition body =>
    obtain ⟨same, follow⟩ := map_basic_eq_numbered counts body counted
    exact ⟨congrArg (loop condition) same, follow⟩
  | basic code =>
    obtain ⟨same, follow⟩ := counts state number code counted
    exact ⟨congrArg basic same, follow⟩
  | skip | read | write => exact ⟨rfl, counted⟩

/-- The same holds of the trees of a block. -/
theorem map_basic_of_eq_numbered
    (counts : ∀ state number code, numbers state number →
      (pass state code).1 = change number code ∧ numbers (pass state code).2 (number + 1))
    (trees : List (Tree α)) {state : σ} {number : Nat} (counted : numbers state number) :
    (mapBasicOf pass state trees).1 = (mapBasicOf (numbered change) number trees).1 ∧
      numbers (mapBasicOf pass state trees).2 (mapBasicOf (numbered change) number trees).2 := by
  cases trees with
  | nil => exact ⟨rfl, counted⟩
  | cons tree rest =>
    obtain ⟨same, follow⟩ := map_basic_eq_numbered counts tree counted
    obtain ⟨sameRest, followRest⟩ := map_basic_of_eq_numbered counts rest follow
    refine ⟨?_, followRest⟩
    simp only [mapBasicOf, same, sameRest]

end

variable (change)

/-- Going by numbers changes the listed basic blocks by their numbers, and leaves the number that
follows them. -/
theorem basic_blocks_numbered (tree : Tree α) (number : Nat) :
    (tree.mapBasic (numbered change) number).1.basicBlocks =
        tree.basicBlocks.mapIdx (fun index code => change (number + index) code) ∧
      (tree.mapBasic (numbered change) number).2 = number + tree.basicBlocks.length :=
  map_basic_numbered (fun state number => state = number)
    (by rintro state number code rfl; exact ⟨rfl, rfl⟩) tree number number rfl

/-- Going by numbers twice is going by numbers once, with both changes. -/
theorem numbered_twice (second : Nat → BasicBlock α → BasicBlock α) (tree : Tree α)
    (number : Nat) :
    ((tree.mapBasic (numbered change) number).1.mapBasic (numbered second) number).1 =
      (tree.mapBasic (numbered fun index code => second index (change index code)) number).1 := by
  have counts : ∀ (states : Nat × Nat) index code, states.1 = index ∧ states.2 = index →
      (both (numbered change) (numbered second) states code).1 =
          second index (change index code) ∧
        (both (numbered change) (numbered second) states code).2.1 = index + 1 ∧
          (both (numbered change) (numbered second) states code).2.2 = index + 1 := by
    rintro ⟨index, other⟩ _ code ⟨rfl, same⟩
    obtain rfl : other = index := same
    exact ⟨rfl, rfl, rfl⟩
  have start : (number, number).1 = number ∧ (number, number).2 = number := ⟨rfl, rfl⟩
  have once := (map_basic_eq_numbered _ counts tree start).1
  rwa [map_basic_twice] at once

/-- Going by numbers leaves the number that follows the tree. -/
theorem numbered_follow (tree : Tree α) (next : Ordinals) :
    (tree.mapBasic (numbered change) next.basicBlocks).2 = (past next tree).basicBlocks := by
  rw [past_basic_blocks, (basic_blocks_numbered change tree next.basicBlocks).2]

/-- Going by numbers changes the basic block at each place by the number of the place, and nothing
else. -/
theorem part_numbered (way : List Nat) (tree : Tree α) (next : Ordinals) :
    (tree.mapBasic (numbered change) next.basicBlocks).1.part? next way =
      (tree.part? next way).map fun (before, part) =>
        (before, (part.mapBasic (numbered change) before.basicBlocks).1) := by
  induction way generalizing tree next with
  | nil => rw [part?, part?, Option.map_some]
  | cons step way inductionHypothesis =>
    cases tree with
    | block children =>
      induction children generalizing next step with
      | nil => rfl
      | cons tree rest restHypothesis =>
        cases step with
        | zero => exact inductionHypothesis tree next
        | succ step =>
          have later := restHypothesis step (past next tree)
          rw [← numbered_follow change tree next] at later
          rw [part_later, ← later]
          simp only [mapBasic, mapBasicOf, part_later, past_map_basic]
    | loop condition body =>
      cases step with
      | zero => exact inductionHypothesis body next
      | succ => rfl
    | skip | read | write | basic => rfl

/-- Going by numbers keeps all numbers. -/
theorem numbering_numbered (tree : Tree α) :
    (tree.mapBasic (numbered change) 0).1.numbering = tree.numbering := by
  funext way
  have places := part_numbered change way tree ⟨0, 0⟩
  rw [numbering, numbering, places]
  cases tree.part? ⟨0, 0⟩ way with
  | none => rfl
  | some found =>
    obtain ⟨before, part⟩ := found
    cases part with
    | block children =>
      exact congrArg (fun numbers : Ordinals => some (Label.block numbers.blocks))
        (past_map_basic_of (numbered change) children before.basicBlocks before)
    | skip | loop | read | write | basic => rfl

variable [Number α]

/-- What committing by a profile makes of the basic block with a number. -/
def committed (profile : TreeProfile) (offset number : Nat) (code : BasicBlock α) :
    BasicBlock α :=
  ⟨(code.nodes.prune offset (profile.branches.sides number 0) false).1, none⟩

/-- What speculating on a profile makes of the basic block with a number. -/
def speculated (profile : TreeProfile) (offset threshold number : Nat) (code : BasicBlock α) :
    BasicBlock α :=
  let guarded := code.nodes.prune offset (profile.branches.sides number threshold) true
  ⟨code.nodes, if guarded.2 = 0 then none else some guarded.1⟩

/-- Committing goes by the numbers of basic blocks. -/
theorem commit_numbered (tree : Tree α) (profile : TreeProfile) (offset : Nat) :
    (tree.commitBranches profile offset).1 =
      (tree.mapBasic (numbered (committed profile offset)) 0).1 :=
  (map_basic_eq_numbered (fun (state : PassCount) number => state.1 = number)
    (by rintro ⟨_, _⟩ number code rfl; exact ⟨rfl, rfl⟩) tree rfl).1

/-- Speculating goes by the numbers of basic blocks. -/
theorem speculate_numbered (tree : Tree α) (profile : TreeProfile) (offset threshold : Nat) :
    (tree.speculateBranches profile offset threshold).1 =
      (tree.mapBasic (numbered (speculated profile offset threshold)) 0).1 :=
  (map_basic_eq_numbered (fun (state : PassCount) number => state.1 = number)
    (by rintro ⟨_, _⟩ number code rfl; exact ⟨rfl, rfl⟩) tree rfl).1

end Passes

end Tree

end ProgramSearch
