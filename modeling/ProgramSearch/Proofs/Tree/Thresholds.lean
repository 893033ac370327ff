import ProgramSearch.Proofs.Program.Regular
import ProgramSearch.Proofs.Tree.Commitment
import ProgramSearch.Proofs.Tree.Resumption

/-!
# Guards that make no difference

Specializing a tree by a profile may put up guards or not. Without its specialized forms the tree is
the same in both cases, and with them it runs as it does without. So whether and where guards are
put up makes no difference, neither to runs nor to the tree that is kept.

A tree that compiles has regular basic blocks if their baselines hold no guards. Specializing and
mutating keep them regular.
-/

namespace ProgramSearch

variable {α : Type}

namespace Tree

section Cleared

variable (change : Nat → BasicBlock α → BasicBlock α) (reached : Nat → Bool)

/-- A change of basic blocks that drops their specialized forms in the end. -/
def dropping (ordinal : Nat) (code : BasicBlock α) : BasicBlock α :=
  ⟨(change ordinal code).nodes, none⟩

mutual

/-- Dropping the specialized forms of a tailored tree is tailoring without them. -/
theorem clear_tailor (tree : Tree α) (next : Ordinals) :
    (tree.tailor change reached next).clearSpecialized =
      tree.tailor (dropping change) reached next := by
  cases tree with
  | block children => rw [tailor, tailor, clear_block, clear_tailor_all children next]
  | loop condition body =>
    rw [tailor, tailor]
    split
    · rfl
    · rw [← clear_tailor body next]
      rfl
  | skip | read | write | basic => rfl

/-- The same holds of the trees of a block. -/
theorem clear_tailor_all (trees : List (Tree α)) (next : Ordinals) :
    (tailorAll change reached next trees).map clearSpecialized =
      tailorAll (dropping change) reached next trees := by
  cases trees with
  | nil => rfl
  | cons tree rest =>
    simp only [tailorAll, ← clear_tailor tree next, is_skip_clear,
      ← clear_tailor_all rest (past next tree)]
    split <;> rfl

end

variable [Number α]

/-- What is kept of a specialized tree does not depend on the guards. -/
theorem clear_specialize (tree : Tree α) (profile : TreeProfile) (offset : Nat)
    (guarding other : Option Guarding) :
    (tree.specialize profile offset guarding).clearSpecialized =
      (tree.specialize profile offset other).clearSpecialized := by
  have same : dropping (BasicBlock.specialize (α := α) profile offset guarding) =
      dropping (BasicBlock.specialize profile offset other) := by
    funext ordinal code
    simp only [dropping, BasicBlock.specialize_nodes]
  rw [specialize_eq_tailor, specialize_eq_tailor, clear_tailor, clear_tailor, same]

end Cleared

/-- A tree over a number of variables whose basic blocks have regular baselines. -/
def Regular (count : Nat) (tree : Tree α) : Prop :=
  tree.Respects count fun code => code.nodes.Regular count

section Regularity

variable {count : Nat} {tree : Tree α}

/-- The baselines of a regular tree hold no guards. -/
theorem Regular.unguarded (regular : tree.Regular count) :
    ∀ code ∈ tree.basicBlocks, code.nodes.Unguarded :=
  fun code member => (respects_blocks tree regular code member).unguarded

/-- Without its specialized forms, a tree that fits the variables is regular if its baselines hold
no guards. -/
theorem cleared_regular
    (respects : tree.Respects count fun code => code.Fits count ∧ code.Discardable) :
    tree.clearSpecialized.Regular count := by
  refine map_basic_respects ?_ tree () respects
  rintro _ code ⟨fits, discardable⟩
  exact ⟨fits.baseline.ready.valid, discardable.unguarded, fits.baseline.arguments⟩

end Regularity

end Tree

namespace Executable

variable [Number α]

/-- Two programs have the same outputs, whatever profiles are kept. -/
def Alike (program other : Executable α) : Prop :=
  ∀ inputs buffer profile otherProfile,
    (program.run inputs buffer profile).1 = (other.run inputs buffer otherProfile).1

/-- Programs with the same answers of executions have the same outputs. -/
theorem alike_of_answers {program other : Executable α}
    (same : ∀ inputs buffer profile otherProfile,
      (program.execute inputs buffer PagePool.empty profile).answer =
        (other.execute inputs buffer PagePool.empty otherProfile).answer) :
    Alike program other := by
  intro inputs buffer profile otherProfile
  have answers := same inputs buffer profile otherProfile
  unfold run
  generalize program.execute inputs buffer PagePool.empty profile = first at answers ⊢
  generalize other.execute inputs buffer PagePool.empty otherProfile = second at answers ⊢
  obtain ⟨ending, outputs, _, _⟩ := first
  obtain ⟨_, _, _, _⟩ := second
  obtain ⟨rfl, rfl⟩ := Prod.mk.inj answers
  cases ending with
  | ok _ => rfl
  | error halt => cases halt <;> rfl

end Executable

namespace Tree

variable [Number α] {config : MachineConfig} {tree : Tree α}

/-- A tree that is specialized with guards or without is accepted in both cases, and then it has the
same outputs. -/
theorem specialize_alike (valid : config.validate = .ok ())
    (respects : tree.Respects config.variableCount fun code =>
      code.Fits config.variableCount ∧ code.nodes.Unguarded)
    (profile : TreeProfile) (offset : Nat) (guarding other : Option Guarding) :
    Draw.Alike Executable.Alike
      (Draw.ofExcept ((tree.specialize profile offset guarding).compile config false))
      (Draw.ofExcept ((tree.specialize profile offset other).compile config false)) := by
  have discards (guarding : Option Guarding) := discardable_of_copies valid
    (specialize_respects tree config.variableCount profile offset guarding respects)
  obtain ⟨program, cleared, compiled, compiledCleared, ends⟩ := discards guarding false false
  obtain ⟨counterpart, clearedToo, compiledToo, compiledClearedToo, endsToo⟩ :=
    discards other false false
  -- Both are compared to the tree that is kept, which is the same one.
  rw [clear_specialize tree profile offset other guarding, compiledCleared] at compiledClearedToo
  obtain rfl := Except.ok.inj compiledClearedToo
  rw [compiled, compiledToo]
  refine Draw.alike_pure (Executable.alike_of_answers ?_)
  intro inputs buffer noted notedToo
  exact (ends inputs buffer _ _ noted none PagePool.blank_empty PagePool.blank_empty).trans
    (endsToo inputs buffer _ _ notedToo none PagePool.blank_empty PagePool.blank_empty).symm

end Tree

namespace Mutator

variable [Number α] {mutator : Mutator}

/-- A mutator that was made for variables that have numbers keeps basic blocks regular. -/
theorem keeps_regular {count complexity : Nat} {odds : MutationOdds}
    (made : make count complexity odds = .ok mutator)
    (numbered : count ≤ MachineConfig.variableLimit) :
    mutator.Keeps (α := α) (fun _ => True) fun code => code.nodes.Regular mutator.variableCount := by
  obtain ⟨takes, _, accepted, rfl⟩ := (make_ok_iff count complexity odds mutator).mp made
  constructor
  case odds => exact accepted
  case names => exact variable_ensures takes numbered
  case fresh =>
    apply Program.generated_plain.bind
    intro nodes plain
    apply (plain.regular.repair_ensures _).bind
    rintro ⟨repaired, _⟩ regular
    exact Draw.ensures_pure regular
  case edited =>
    intro code regular
    apply (regular.mutate_ensures _).bind
    rintro ⟨mutated, _⟩ changed
    apply (Program.Regular.repair_ensures changed _).bind
    rintro ⟨repaired, _⟩ regular
    exact Draw.ensures_pure regular

end Mutator

end ProgramSearch
