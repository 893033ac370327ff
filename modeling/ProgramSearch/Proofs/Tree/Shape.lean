import ProgramSearch.Tree.Profile

/-!
# The shape of control trees

A tree respects a number of variables and a law for basic blocks when every statement names only
variables that exist and every basic block obeys the law. Passes that change basic blocks one by
one keep the shape of a tree, and the pass that removes loops only leaves statements out. What a
pass does to a tree therefore follows from what it does to one basic block.
-/

namespace ProgramSearch.Tree

variable {α : Type}

mutual

/-- Every statement names variables below the given number, and every basic block obeys the law. -/
def Respects (count : Nat) (law : BasicBlock α → Prop) : Tree α → Prop
  | .skip => True
  | .block children => RespectsAll count law children
  | .loop condition body => condition.toNat < count ∧ body.Respects count law
  | .read target => target.toNat < count
  | .write address value => address.toNat < count ∧ value.toNat < count
  | .basic code => law code

/-- Every one of the trees respects the number of variables and the law. -/
def RespectsAll (count : Nat) (law : BasicBlock α → Prop) : List (Tree α) → Prop
  | [] => True
  | tree :: rest => tree.Respects count law ∧ RespectsAll count law rest

end

section Laws

variable {count : Nat} {law other : BasicBlock α → Prop}

mutual

/-- A law that every basic block obeys can be added to the one that the tree respects. -/
theorem respects_and (tree : Tree α) (respects : tree.Respects count law)
    (every : ∀ code ∈ tree.basicBlocks, other code) :
    tree.Respects count fun code => law code ∧ other code := by
  cases tree with
  | skip => exact trivial
  | block children => exact respects_all_and children respects every
  | loop condition body => exact ⟨respects.1, respects_and body respects.2 every⟩
  | read target => exact respects
  | write address value => exact respects
  | basic code => exact ⟨respects, every code (by simp [basicBlocks])⟩

/-- A law that every basic block obeys can be added to the one that the trees respect. -/
theorem respects_all_and (trees : List (Tree α)) (respects : RespectsAll count law trees)
    (every : ∀ code ∈ basicBlocksOf trees, other code) :
    RespectsAll count (fun code => law code ∧ other code) trees := by
  cases trees with
  | nil => exact trivial
  | cons tree rest =>
    refine ⟨respects_and tree respects.1 fun code member => every code ?_,
      respects_all_and rest respects.2 fun code member => every code ?_⟩
    · exact List.mem_append_left _ member
    · exact List.mem_append_right _ member

end

mutual

/-- A law may be exchanged for one that follows from it. -/
theorem respects_mono (weaker : ∀ code, law code → other code) (tree : Tree α)
    (respects : tree.Respects count law) : tree.Respects count other := by
  cases tree with
  | skip => exact trivial
  | block children => exact respects_all_mono weaker children respects
  | loop condition body => exact ⟨respects.1, respects_mono weaker body respects.2⟩
  | read target => exact respects
  | write address value => exact respects
  | basic code => exact weaker code respects

/-- A law may be exchanged for one that follows from it. -/
theorem respects_all_mono (weaker : ∀ code, law code → other code) (trees : List (Tree α))
    (respects : RespectsAll count law trees) : RespectsAll count other trees := by
  cases trees with
  | nil => exact trivial
  | cons tree rest =>
    exact ⟨respects_mono weaker tree respects.1, respects_all_mono weaker rest respects.2⟩

end

/-- Trees respect a law together when each of them does. -/
theorem respects_all_iff (trees : List (Tree α)) :
    RespectsAll count law trees ↔ ∀ tree ∈ trees, tree.Respects count law := by
  induction trees with
  | nil => simp [RespectsAll]
  | cons tree rest inductionHypothesis =>
    rw [RespectsAll, inductionHypothesis, List.forall_mem_cons]

theorem respects_all_insert {tree : Tree α} {trees : List (Tree α)} {target : Nat}
    (inside : target ≤ trees.length) (added : tree.Respects count law)
    (others : RespectsAll count law trees) :
    RespectsAll count law (trees.insertIdx target tree) := by
  refine (respects_all_iff _).mpr fun one member => ?_
  rcases (List.mem_insertIdx inside).mp member with rfl | old
  · exact added
  · exact (respects_all_iff trees).mp others one old

theorem respects_all_erase {trees : List (Tree α)} (target : Nat)
    (respects : RespectsAll count law trees) : RespectsAll count law (trees.eraseIdx target) :=
  (respects_all_iff _).mpr fun one member =>
    (respects_all_iff trees).mp respects one (List.mem_of_mem_eraseIdx member)

mutual

/-- Every basic block of a tree obeys the law that the tree respects. -/
theorem respects_blocks (tree : Tree α) (respects : tree.Respects count law) :
    ∀ code ∈ tree.basicBlocks, law code := by
  cases tree with
  | block children => exact respects_all_blocks children respects
  | loop condition body => exact respects_blocks body respects.2
  | basic code =>
    intro other member
    exact List.mem_singleton.mp member ▸ respects
  | skip | read | write =>
    intro code member
    cases member

/-- Every basic block of some trees obeys the law that the trees respect. -/
theorem respects_all_blocks (trees : List (Tree α)) (respects : RespectsAll count law trees) :
    ∀ code ∈ basicBlocksOf trees, law code := by
  cases trees with
  | nil =>
    intro code member
    cases member
  | cons tree rest =>
    intro code member
    rcases List.mem_append.mp member with first | later
    · exact respects_blocks tree respects.1 code first
    · exact respects_all_blocks rest respects.2 code later

end

section Threading

variable {σ : Type} {change : σ → BasicBlock α → BasicBlock α × σ}

mutual

/-- Changing basic blocks one by one keeps the statements, so the new tree respects what the change
establishes. -/
theorem map_basic_respects (keeps : ∀ state code, law code → other (change state code).1)
    (tree : Tree α) (state : σ) (respects : tree.Respects count law) :
    (tree.mapBasic change state).1.Respects count other := by
  cases tree with
  | skip => exact trivial
  | block children => exact map_basic_of_respects keeps children state respects
  | loop condition body =>
    exact ⟨respects.1, map_basic_respects keeps body state respects.2⟩
  | read target => exact respects
  | write address value => exact respects
  | basic code => exact keeps state code respects

/-- Changing basic blocks one by one keeps the statements of all trees. -/
theorem map_basic_of_respects (keeps : ∀ state code, law code → other (change state code).1)
    (trees : List (Tree α)) (state : σ) (respects : RespectsAll count law trees) :
    RespectsAll count other (mapBasicOf change state trees).1 := by
  cases trees with
  | nil => exact trivial
  | cons tree rest =>
    exact ⟨map_basic_respects keeps tree state respects.1,
      map_basic_of_respects keeps rest _ respects.2⟩

end

/-- Putting a basic block that obeys the law in the place of another one keeps the law. -/
theorem modify_basic_respects (tree : Tree α) (ordinal : Nat) {code : BasicBlock α}
    (obeys : law code) (respects : tree.Respects count law) :
    (tree.modifyBasic ordinal fun _ => code).Respects count law := by
  apply map_basic_respects _ tree 0 respects
  intro index other holds
  dsimp only
  split
  · exact obeys
  · exact holds

end Threading

section Rebuilding

variable {σ : Type} {rule : σ → Tree α → Tree α × σ}

mutual

/-- A rule that respects the law at every node, once the parts do, respects it for the whole
tree. Leaving empty statements out of a block does no harm. -/
theorem rebuild_respects
    (keeps : ∀ state tree, tree.Respects count law → (rule state tree).1.Respects count law)
    (tree : Tree α) (state : σ) (respects : tree.Respects count law) :
    (tree.rebuild rule state).1.Respects count law := by
  cases tree with
  | block children => exact keeps _ _ (rebuild_all_respects keeps children state respects)
  | loop condition body =>
    exact keeps _ _ ⟨respects.1, rebuild_respects keeps body state respects.2⟩
  | skip => exact keeps _ _ respects
  | read target => exact keeps _ _ respects
  | write address value => exact keeps _ _ respects
  | basic code => exact keeps _ _ respects

/-- A rule that respects the law at every node respects it for all trees of a block. -/
theorem rebuild_all_respects
    (keeps : ∀ state tree, tree.Respects count law → (rule state tree).1.Respects count law)
    (trees : List (Tree α)) (state : σ) (respects : RespectsAll count law trees) :
    RespectsAll count law (rebuildAll rule state trees).1 := by
  cases trees with
  | nil => exact trivial
  | cons tree rest =>
    have first := rebuild_respects keeps tree state respects.1
    have others := rebuild_all_respects keeps rest (tree.rebuild rule state).2 respects.2
    simp only [rebuildAll]
    split
    · exact others
    · exact ⟨first, others⟩

end

/-- Removing loops that were never entered leaves the other statements as they were. -/
theorem strip_dead_loops_respects (tree : Tree α) (profile : TreeProfile)
    (respects : tree.Respects count law) : (tree.stripDeadLoops profile).1.Respects count law := by
  refine rebuild_respects ?_ tree (0, 0) respects
  intro state tree respects
  cases tree with
  | loop condition body =>
    simp only [stripRule]
    split
    · exact trivial
    · exact respects
  | skip | block | read | write | basic => exact respects

end Rebuilding

end Laws

end ProgramSearch.Tree
