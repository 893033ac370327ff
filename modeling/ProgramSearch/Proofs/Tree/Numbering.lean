import ProgramSearch.Proofs.Tree.Acceptance
import ProgramSearch.Tree.Profile

/-!
# Numbers in a tree

Compiling numbers blocks and basic blocks while it goes over a tree, and every pass that looks at a
profile counts along in its own way. All of them agree: the numbers that follow a tree depend on its
shape alone. Passes over the basic blocks followed by the removal of loops therefore amount to a
single walk, in which every basic block is changed by its number and a loop goes by the number of
its body.
-/

namespace ProgramSearch.Tree

variable {α : Type}

section Past

mutual

/-- The numbers that follow a tree. -/
def past (next : Ordinals) : Tree α → Ordinals
  | .block children =>
    let next := pastAll next children
    { next with blocks := next.blocks + 1 }
  | .loop _ body => past next body
  | .basic _ => { next with basicBlocks := next.basicBlocks + 1 }
  | .skip | .read _ | .write .. => next

/-- The numbers that follow some trees. -/
def pastAll (next : Ordinals) : List (Tree α) → Ordinals
  | [] => next
  | tree :: rest => pastAll (past next tree) rest

end

mutual

/-- Compiling a statement leaves the numbers that follow it. -/
theorem statement_numbers (setting : Setting) (tree : Tree α) (next : Ordinals)
    {compiled : Statement α × Ordinals}
    (accepted : statement setting next tree = .ok compiled) : compiled.2 = past next tree := by
  cases tree with
  | skip =>
    obtain rfl := Except.ok.inj accepted
    rfl
  | block children =>
    obtain ⟨parts, inside, rfl⟩ := (statement_block_iff _ _ _ _).mp accepted
    simp only [past, statements_numbers setting children next inside]
  | loop condition body =>
    obtain ⟨_, inner, inside, rfl⟩ := (statement_loop_iff _ _ _ _ _).mp accepted
    have follow := statement_numbers setting body next inside
    exact follow
  | read target =>
    obtain ⟨_, rfl⟩ := (statement_read_iff _ _ _ _).mp accepted
    rfl
  | write address value =>
    obtain ⟨_, _, rfl⟩ := (statement_write_iff _ _ _ _ _).mp accepted
    rfl
  | basic code =>
    obtain ⟨_, _, rfl⟩ := (statement_basic_iff _ _ _ _).mp accepted
    rfl

/-- Compiling statements leaves the numbers that follow them. -/
theorem statements_numbers (setting : Setting) (trees : List (Tree α)) (next : Ordinals)
    {compiled : List (Statement α) × Ordinals}
    (accepted : statements setting next trees = .ok compiled) :
    compiled.2 = pastAll next trees := by
  cases trees with
  | nil =>
    obtain rfl := Except.ok.inj accepted
    rfl
  | cons tree rest =>
    cases empty : tree.isSkip with
    | true =>
      simp only [statements, empty, if_true] at accepted
      cases tree with
      | skip => exact statements_numbers setting rest next accepted
      | block | loop | read | write | basic => cases empty
    | false =>
      obtain ⟨first, others, start, remaining, rfl⟩ :=
        (statements_cons_iff _ empty _ _ _).mp accepted
      have follow := statements_numbers setting rest first.2 remaining
      rw [statement_numbers setting tree next start] at follow
      exact follow

end

variable {σ : Type} (change : σ → BasicBlock α → BasicBlock α × σ)

mutual

/-- Changing basic blocks leaves the numbers that follow the tree. -/
theorem past_map_basic (tree : Tree α) (state : σ) (next : Ordinals) :
    past next (tree.mapBasic change state).1 = past next tree := by
  cases tree with
  | block children => simp only [mapBasic, past, past_map_basic_of children]
  | loop condition body => exact past_map_basic body state next
  | skip | read | write | basic => rfl

/-- Changing basic blocks leaves the numbers that follow the trees. -/
theorem past_map_basic_of (trees : List (Tree α)) (state : σ) (next : Ordinals) :
    pastAll next (mapBasicOf change state trees).1 = pastAll next trees := by
  cases trees with
  | nil => rfl
  | cons tree rest =>
    simp only [mapBasicOf, pastAll, past_map_basic tree, past_map_basic_of rest]

end

mutual

/-- There are as many numbers of basic blocks as there are basic blocks. -/
theorem past_basic_blocks (tree : Tree α) (next : Ordinals) :
    (past next tree).basicBlocks = next.basicBlocks + tree.basicBlocks.length := by
  cases tree with
  | block children => exact past_all_basic_blocks children next
  | loop condition body => exact past_basic_blocks body next
  | skip | read | write | basic => rfl

/-- There are as many numbers of basic blocks as there are basic blocks in the trees. -/
theorem past_all_basic_blocks (trees : List (Tree α)) (next : Ordinals) :
    (pastAll next trees).basicBlocks = next.basicBlocks + (basicBlocksOf trees).length := by
  cases trees with
  | nil => rfl
  | cons tree rest =>
    rw [pastAll, past_all_basic_blocks rest, past_basic_blocks tree, basicBlocksOf,
      List.length_append, Nat.add_assoc]

end

end Past

section Tailoring

variable (change : Nat → BasicBlock α → BasicBlock α) (reached : Nat → Bool)

mutual

/-- Change every basic block by its number, and remove every loop whose body is a block that was not
reached. -/
def tailor (next : Ordinals) : Tree α → Tree α
  | .block children => .block (tailorAll next children)
  | .loop condition body =>
    if body.isBlock && !reached ((past next body).blocks - 1) then .skip
    else .loop condition (tailor next body)
  | .basic code => .basic (change next.basicBlocks code)
  | .skip => .skip
  | .read target => .read target
  | .write address value => .write address value

/-- Tailor the children of a block, and leave out the ones that are empty then. -/
def tailorAll (next : Ordinals) : List (Tree α) → List (Tree α)
  | [] => []
  | tree :: rest =>
    let first := tailor next tree
    let others := tailorAll (past next tree) rest
    if first.isSkip then others else first :: others

end

/-- Tailoring leaves a block a block and makes no other statement one. -/
theorem tailor_is_block (next : Ordinals) (tree : Tree α) :
    (tree.tailor change reached next).isBlock = tree.isBlock := by
  cases tree with
  | loop condition body =>
    rw [tailor]
    split <;> rfl
  | skip | block | read | write | basic => rfl

end Tailoring

section Passes

variable {σ τ : Type}

/-- Two changes of a basic block, one after the other, each with its own state. -/
def both (first : σ → BasicBlock α → BasicBlock α × σ)
    (second : τ → BasicBlock α → BasicBlock α × τ) (states : σ × τ) (code : BasicBlock α) :
    BasicBlock α × σ × τ :=
  let once := first states.1 code
  let twice := second states.2 once.1
  (twice.1, once.2, twice.2)

section Identity

variable {change : σ → BasicBlock α → BasicBlock α × σ}

mutual

/-- A pass that leaves every basic block as it is leaves the tree as it is. -/
theorem map_basic_same (keeps : ∀ state code, (change state code).1 = code) (tree : Tree α)
    (state : σ) : (tree.mapBasic change state).1 = tree := by
  cases tree with
  | block children => simp only [mapBasic, map_basic_of_same keeps children]
  | loop condition body => simp only [mapBasic, map_basic_same keeps body]
  | basic code => simp only [mapBasic, keeps]
  | skip | read | write => rfl

/-- A pass that leaves every basic block as it is leaves the trees as they are. -/
theorem map_basic_of_same (keeps : ∀ state code, (change state code).1 = code)
    (trees : List (Tree α)) (state : σ) : (mapBasicOf change state trees).1 = trees := by
  cases trees with
  | nil => rfl
  | cons tree rest =>
    simp only [mapBasicOf, map_basic_same keeps tree, map_basic_of_same keeps rest]

end

end Identity

mutual

/-- Changing basic blocks twice is changing each of them twice. -/
theorem map_basic_twice (first : σ → BasicBlock α → BasicBlock α × σ)
    (second : τ → BasicBlock α → BasicBlock α × τ) (tree : Tree α) (state : σ) (other : τ) :
    tree.mapBasic (both first second) (state, other) =
      (((tree.mapBasic first state).1.mapBasic second other).1, (tree.mapBasic first state).2,
        ((tree.mapBasic first state).1.mapBasic second other).2) := by
  cases tree with
  | block children => simp only [mapBasic, map_basic_of_twice first second children]
  | loop condition body => simp only [mapBasic, map_basic_twice first second body]
  | skip | read | write | basic => rfl

/-- Changing the basic blocks of some trees twice is changing each of them twice. -/
theorem map_basic_of_twice (first : σ → BasicBlock α → BasicBlock α × σ)
    (second : τ → BasicBlock α → BasicBlock α × τ) (trees : List (Tree α)) (state : σ)
    (other : τ) :
    mapBasicOf (both first second) (state, other) trees =
      ((mapBasicOf second other (mapBasicOf first state trees).1).1,
        (mapBasicOf first state trees).2,
        (mapBasicOf second other (mapBasicOf first state trees).1).2) := by
  cases trees with
  | nil => rfl
  | cons tree rest =>
    simp only [mapBasicOf, map_basic_twice first second tree, map_basic_of_twice first second rest]

end

variable {pass : σ → BasicBlock α → BasicBlock α × σ} (numbers : σ → Nat → Prop)
  {change : Nat → BasicBlock α → BasicBlock α}

mutual

/-- A pass whose state counts the basic blocks changes every one of them by its number. -/
theorem map_basic_numbered
    (counts : ∀ state number code, numbers state number →
      (pass state code).1 = change number code ∧ numbers (pass state code).2 (number + 1))
    (tree : Tree α) (state : σ) (number : Nat) (counted : numbers state number) :
    let changed := tree.mapBasic pass state
    changed.1.basicBlocks =
        tree.basicBlocks.mapIdx (fun index code => change (number + index) code) ∧
      numbers changed.2 (number + tree.basicBlocks.length) := by
  cases tree with
  | block children => exact map_basic_of_numbered counts children state number counted
  | loop condition body => exact map_basic_numbered counts body state number counted
  | basic code =>
    obtain ⟨same, follow⟩ := counts state number code counted
    exact ⟨congrArg ([·]) same, follow⟩
  | skip | read | write => exact ⟨rfl, counted⟩

/-- The same holds of the trees of a block. -/
theorem map_basic_of_numbered
    (counts : ∀ state number code, numbers state number →
      (pass state code).1 = change number code ∧ numbers (pass state code).2 (number + 1))
    (trees : List (Tree α)) (state : σ) (number : Nat) (counted : numbers state number) :
    let changed := mapBasicOf pass state trees
    basicBlocksOf changed.1 =
        (basicBlocksOf trees).mapIdx (fun index code => change (number + index) code) ∧
      numbers changed.2 (number + (basicBlocksOf trees).length) := by
  cases trees with
  | nil => exact ⟨rfl, counted⟩
  | cons tree rest =>
    obtain ⟨same, follow⟩ := map_basic_numbered counts tree state number counted
    obtain ⟨sameRest, followRest⟩ := map_basic_of_numbered counts rest _ _ follow
    refine ⟨?_, ?_⟩
    · simp only [mapBasicOf, basicBlocksOf, same, sameRest, List.mapIdx_append, Nat.add_assoc,
        Nat.add_comm tree.basicBlocks.length]
    · simpa only [mapBasicOf, basicBlocksOf, List.length_append, Nat.add_assoc] using followRest

end

mutual

/-- A pass that changes basic blocks by their numbers, followed by the removal of loops, tailors a
tree, if the state of the pass counts the basic blocks. Both passes count as compiling does. -/
theorem strip_eq_tailor
    (counts : ∀ state number code, numbers state number →
      (pass state code).1 = change number code ∧ numbers (pass state code).2 (number + 1))
    (profile : TreeProfile) (tree : Tree α) (state : σ) (count : PassCount) (next : Ordinals)
    (basicBlocks : numbers state next.basicBlocks) (blocks : count.1 = next.blocks) :
    let changed := tree.mapBasic pass state
    let stripped := changed.1.rebuild (stripRule profile) count
    stripped.1 = tree.tailor change profile.isReached next ∧
      numbers changed.2 (past next tree).basicBlocks ∧
      stripped.2.1 = (past next tree).blocks := by
  cases tree with
  | skip => exact ⟨rfl, basicBlocks, blocks⟩
  | block children =>
    obtain ⟨same, follow, behind⟩ :=
      strip_all_eq_tailor counts profile children state count next basicBlocks blocks
    refine ⟨?_, follow, ?_⟩
    · simp only [mapBasic, rebuild, stripRule, tailor, same]
    · simp only [mapBasic, rebuild, stripRule, past, behind]
  | loop condition body =>
    obtain ⟨same, follow, behind⟩ :=
      strip_eq_tailor counts profile body state count next basicBlocks blocks
    have shape := tailor_is_block change profile.isReached next body
    refine ⟨?_, follow, ?_⟩
    · simp only [mapBasic, rebuild, stripRule, tailor, same, behind, shape]
      split <;> rfl
    · simp only [mapBasic, rebuild, stripRule, past]
      split <;> exact behind
  | read target => exact ⟨rfl, basicBlocks, blocks⟩
  | write address value => exact ⟨rfl, basicBlocks, blocks⟩
  | basic code =>
    obtain ⟨same, follow⟩ := counts state next.basicBlocks code basicBlocks
    refine ⟨?_, follow, blocks⟩
    simp only [mapBasic, rebuild, stripRule, tailor, same]

/-- The same holds of the trees of a block. -/
theorem strip_all_eq_tailor
    (counts : ∀ state number code, numbers state number →
      (pass state code).1 = change number code ∧ numbers (pass state code).2 (number + 1))
    (profile : TreeProfile) (trees : List (Tree α)) (state : σ) (count : PassCount)
    (next : Ordinals) (basicBlocks : numbers state next.basicBlocks)
    (blocks : count.1 = next.blocks) :
    let changed := mapBasicOf pass state trees
    let stripped := rebuildAll (stripRule profile) count changed.1
    stripped.1 = tailorAll change profile.isReached next trees ∧
      numbers changed.2 (pastAll next trees).basicBlocks ∧
      stripped.2.1 = (pastAll next trees).blocks := by
  cases trees with
  | nil => exact ⟨rfl, basicBlocks, blocks⟩
  | cons tree rest =>
    obtain ⟨same, follow, behind⟩ :=
      strip_eq_tailor counts profile tree state count next basicBlocks blocks
    obtain ⟨sameRest, followRest, behindRest⟩ :=
      strip_all_eq_tailor counts profile rest _ _ (past next tree) follow behind
    refine ⟨?_, followRest, behindRest⟩
    simp only [mapBasicOf, rebuildAll, tailorAll, same, sameRest]

end

end Passes

end ProgramSearch.Tree
