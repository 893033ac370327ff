import ProgramSearch.Proofs.Program.Shape
import ProgramSearch.Proofs.Tree.Acceptance
import ProgramSearch.Tree.Mutation

/-!
# Trees that evolve

A tree evolves from the empty one by mutations, by the passes that use a profile, and by mutations
of single basic blocks. All basic blocks of an evolving tree have one shape: they start with the
variables and end with new ones, in both forms. A basic block may have fewer slots than it has
variables and outputs together, so that the outputs reach into the arguments; the shape allows for
that.

Every edit is made in one place, and what stands beside it stays as it was. So a tree keeps to the
variables that exist and to the shape of its basic blocks, it can always be edited again, and it
always compiles.
-/

namespace ProgramSearch

variable {α : Type}

/-- Both forms of a basic block start with the variables and end with new ones, and the baseline
holds no guards. -/
structure BasicBlock.Shaped (count complexity : Nat) (code : BasicBlock α) : Prop where
  baseline : code.nodes.Plain count complexity (complexity - count)
  specialized : ∀ nodes, code.specialized = some nodes →
    nodes.Shaped count complexity (complexity - count)

/-- A program that starts with the variables and ends with new ones fits the variables. -/
theorem Program.Shaped.fits {count complexity : Nat} {nodes : Program α}
    (shaped : nodes.Shaped count complexity (complexity - count)) (takes : 0 < count)
    (more : count < complexity) : nodes.Fits count where
  ready := shaped.ready takes takes (Nat.le_of_lt more) (Nat.le_refl _)
  arguments := shaped.bounded

namespace BasicBlock

variable {count complexity : Nat}

/-- A basic block of the shape fits the variables. -/
theorem Shaped.fits {code : BasicBlock α} (shaped : code.Shaped count complexity)
    (takes : 0 < count) (more : count < complexity) : code.Fits count where
  baseline := shaped.baseline.toShaped.fits takes more
  specialized nodes given := (shaped.specialized nodes given).fits takes more

/-- A basic block without a specialized form has the shape if its baseline has it. -/
theorem shaped_baseline {nodes : Program α}
    (plain : nodes.Plain count complexity (complexity - count)) :
    Shaped count complexity ⟨nodes, none⟩ where
  baseline := plain
  specialized _ given := nomatch given

/-- A law of basic blocks that the passes keep: committing branches, guarding branches in a
specialized form, and dropping that form. -/
structure Specializable [Number α] (law : BasicBlock α → Prop) : Prop where
  committed : ∀ {code} (offset : Nat) (sides : Sides), law code →
    law ⟨(code.nodes.prune offset sides false).1, none⟩
  guarded : ∀ {code} {copy : Program α}, law code → Program.GuardedCopy code.nodes copy →
    law ⟨code.nodes, some copy⟩
  cleared : ∀ {code}, law code → law ⟨code.nodes, none⟩

/-- The passes keep the shape of basic blocks. -/
theorem shaped_specializable [Number α] :
    Specializable (α := α) (Shaped count complexity) where
  committed offset sides shaped := shaped_baseline (shaped.baseline.committed offset sides)
  guarded shaped copied :=
    ⟨shaped.baseline, fun _ given => Option.some.inj given ▸ shaped.baseline.toShaped.copied copied⟩
  cleared shaped := shaped_baseline shaped.baseline

end BasicBlock

namespace Tree

/-- A tree whose statements name variables that exist and whose basic blocks have the shape. -/
def Shaped (count complexity : Nat) (tree : Tree α) : Prop :=
  tree.Respects count (BasicBlock.Shaped count complexity)

section Passes

variable {count complexity : Nat} {tree : Tree α}

/-- The basic blocks of a tree of the shape have the shape. -/
theorem Shaped.block (shaped : tree.Shaped count complexity) {ordinal : Nat}
    {code : BasicBlock α} (found : tree.basicBlocks[ordinal]? = some code) :
    code.Shaped count complexity :=
  respects_blocks tree shaped code (List.mem_of_getElem? found)

/-- A tree of the shape compiles for a machine with its variables, instrumented or not. -/
theorem Shaped.compiles (shaped : tree.Shaped count complexity) (takes : 0 < count)
    (more : count < complexity) {machine : MachineConfig}
    (same : machine.variableCount = count) (valid : machine.validate = .ok ())
    (instrumented : Bool) : ∃ program, tree.compile machine instrumented = .ok program := by
  subst same
  rw [compile_accepted_iff]
  exact ⟨valid, respects_mono (fun code holds => holds.fits takes more) tree shaped⟩

end Passes

section Laws

variable [Number α] {count : Nat} {law : BasicBlock α → Prop} {tree : Tree α}

/-- Dropping specialized forms keeps a law that the passes keep. -/
theorem clear_specialized_respects (specializable : BasicBlock.Specializable law)
    (respects : tree.Respects count law) : tree.clearSpecialized.Respects count law :=
  map_basic_respects (fun _ _ holds => specializable.cleared holds) tree () respects

/-- Committing branches keeps a law that the passes keep. -/
theorem commit_branches_respects (specializable : BasicBlock.Specializable law)
    (respects : tree.Respects count law) (profile : TreeProfile) (offset : Nat) :
    (tree.commitBranches profile offset).1.Respects count law :=
  map_basic_respects (fun _ _ holds => specializable.committed offset _ holds) tree (0, 0) respects

/-- Guarding branches in specialized forms keeps a law that the passes keep. -/
theorem speculate_branches_respects (specializable : BasicBlock.Specializable law)
    (respects : tree.Respects count law) (profile : TreeProfile) (offset threshold : Nat) :
    (tree.speculateBranches profile offset threshold).1.Respects count law := by
  apply map_basic_respects _ tree (0, 0) respects
  intro state code holds
  dsimp only
  split
  · exact specializable.cleared holds
  · exact specializable.guarded holds (Program.prune_guarded code.nodes offset _)

end Laws

end Tree

namespace Mutator

/-- A mutator whose basic blocks have room for the variables and slots with addresses, and whose odds
can be drawn. -/
structure Proper (mutator : Mutator) : Prop where
  takes : 0 < mutator.variableCount
  more : mutator.variableCount < mutator.blockComplexity
  addressable : mutator.blockComplexity ≤ Node.slotLimit
  edits : Draw.total mutator.odds.editWeights ≠ 0
  leaves : Draw.total mutator.odds.leafWeights ≠ 0
  flips : (0.0 ≤ mutator.odds.loopFlip && mutator.odds.loopFlip ≤ 1.0) = true
  writes : (0.0 ≤ mutator.odds.writeAddress && mutator.odds.writeAddress ≤ 1.0) = true

/-- A probability is accepted exactly when it is between zero and one. -/
theorem check_probability_ok_iff (field : String) (value : Float) :
    MutationOdds.checkProbability field value = .ok () ↔
      (0.0 ≤ value && value ≤ 1.0) = true := by
  rw [MutationOdds.checkProbability]
  split <;> simp_all

/-- Odds are accepted when the weights of edits and of leaves do not add up to zero and the
probabilities are some. -/
theorem odds_ok_iff (odds : MutationOdds) :
    odds.validate = .ok () ↔ Draw.total odds.editWeights ≠ 0 ∧ Draw.total odds.leafWeights ≠ 0 ∧
      (0.0 ≤ odds.loopFlip && odds.loopFlip ≤ 1.0) = true ∧
      (0.0 ≤ odds.writeAddress && odds.writeAddress ≤ 1.0) = true := by
  simp only [MutationOdds.validate, Refusal.refuse_ok_iff, Refusal.check_ok_iff,
    check_probability_ok_iff, ne_eq]

/-- A mutator is made when there are variables, the basic blocks have room for them, and the odds
are accepted. -/
theorem make_ok_iff (count complexity : Nat) (odds : MutationOdds) (mutator : Mutator) :
    make count complexity odds = .ok mutator ↔
      0 < count ∧ count < complexity ∧ odds.validate = .ok () ∧
        ⟨count, complexity, odds⟩ = mutator := by
  simp only [make, Refusal.refuse_ok_iff, Refusal.check_ok_iff, Nat.pos_iff_ne_zero, Nat.not_le,
    ne_eq]
  simp only [pure, Except.pure, Except.ok.injEq]

/-- A mutator that was made works on the variables that it was made for. -/
theorem count_of_make {count complexity : Nat} {odds : MutationOdds} {mutator : Mutator}
    (made : make count complexity odds = .ok mutator) : mutator.variableCount = count := by
  obtain ⟨_, _, _, rfl⟩ := (make_ok_iff count complexity odds mutator).mp made
  rfl

variable [Number α] {allowed : Failure → Prop} {mutator : Mutator}

/-- What a mutator needs so that its edits keep a law of basic blocks: its odds can be drawn, it
draws variables that exist, its fresh basic blocks obey the law, and so does a mutated one. -/
structure Keeps (mutator : Mutator) (allowed : Failure → Prop) (law : BasicBlock α → Prop) :
    Prop where
  odds : mutator.odds.validate = .ok ()
  names : Draw.Ensures allowed (fun index => index.toNat < mutator.variableCount)
    mutator.randomVariable
  fresh : Draw.Ensures allowed law mutator.randomBasicBlock
  edited : ∀ code, law code → Draw.Ensures allowed law (mutator.mutateBasicBlock code)

namespace Keeps

variable {law : BasicBlock α → Prop}

/-- A fresh leaf names variables that exist, and its basic block obeys the law. -/
theorem leaf_ensures (keeps : mutator.Keeps allowed law) :
    Draw.Ensures allowed (Tree.Respects mutator.variableCount law) mutator.randomLeaf := by
  obtain ⟨_, leaves, _, _⟩ := (odds_ok_iff mutator.odds).mp keeps.odds
  apply (Draw.weighted_ensures leaves).bind
  intro kind _
  split
  · apply keeps.names.bind
    intro target inside
    exact Draw.ensures_pure inside
  · apply keeps.names.bind
    intro address first
    apply keeps.names.bind
    intro value second
    exact Draw.ensures_pure ⟨first, second⟩
  · apply keeps.fresh.bind
    intro block obeys
    exact Draw.ensures_pure obeys
  · apply keeps.names.bind
    intro condition inside
    apply keeps.fresh.bind
    intro block obeys
    exact Draw.ensures_pure ⟨inside, obeys, trivial⟩

mutual

/-- A mutation keeps to the variables that exist and to the law.

The induction follows the tree down to the place of the edit. -/
theorem mutate_ensures (keeps : mutator.Keeps allowed law) (tree : Tree α)
    (respects : tree.Respects mutator.variableCount law) :
    Draw.Ensures allowed (Tree.Respects mutator.variableCount law) (mutator.mutate tree) := by
  obtain ⟨edits, _, flips, writes⟩ := (odds_ok_iff mutator.odds).mp keeps.odds
  cases tree with
  | skip => exact Draw.ensures_pure trivial
  | block children =>
    cases children with
    | nil =>
      apply keeps.leaf_ensures.bind
      intro leaf obeys
      exact Draw.ensures_pure ⟨obeys, trivial⟩
    | cons first rest =>
      rw [mutate]
      · apply (Draw.below_wide_ensures (Nat.succ_pos rest.length)).bind
        intro target inside
        apply (Draw.weighted_ensures edits).bind
        intro edit _
        split
        · apply (mutate_at_ensures keeps (first :: rest) target respects).bind
          intro changed respects
          exact Draw.ensures_pure respects
        · apply keeps.leaf_ensures.bind
          intro leaf obeys
          exact Draw.ensures_pure
            (Tree.respects_all_insert (Nat.le_of_lt inside) obeys respects)
        · exact Draw.ensures_pure (Tree.respects_all_erase target respects)
      · exact List.cons_ne_nil first rest
  | loop condition body =>
    rw [mutate]
    apply (Draw.chance_ensures flips).bind
    intro flips _
    cases flips with
    | true =>
      apply keeps.names.bind
      intro fresh inside
      exact Draw.ensures_pure ⟨inside, respects.2⟩
    | false =>
      apply (mutate_ensures keeps body respects.2).bind
      intro changed inner
      exact Draw.ensures_pure ⟨respects.1, inner⟩
  | read target =>
    apply keeps.names.bind
    intro fresh inside
    exact Draw.ensures_pure inside
  | write address value =>
    rw [mutate]
    apply (Draw.chance_ensures writes).bind
    intro moves _
    cases moves with
    | true =>
      apply keeps.names.bind
      intro fresh inside
      exact Draw.ensures_pure ⟨inside, respects.2⟩
    | false =>
      apply keeps.names.bind
      intro fresh inside
      exact Draw.ensures_pure ⟨respects.1, inside⟩
  | basic code =>
    apply (keeps.edited code respects).bind
    intro changed obeys
    exact Draw.ensures_pure obeys

/-- A mutation of one of some trees keeps all to the variables that exist and to the law. -/
theorem mutate_at_ensures (keeps : mutator.Keeps allowed law) (trees : List (Tree α))
    (target : Nat) (respects : Tree.RespectsAll mutator.variableCount law trees) :
    Draw.Ensures allowed (Tree.RespectsAll mutator.variableCount law)
      (mutator.mutateAt target trees) := by
  cases trees with
  | nil => exact Draw.ensures_pure trivial
  | cons tree rest =>
    cases target with
    | zero =>
      apply (mutate_ensures keeps tree respects.1).bind
      intro changed first
      exact Draw.ensures_pure ⟨first, respects.2⟩
    | succ target =>
      apply (mutate_at_ensures keeps rest target respects.2).bind
      intro changed others
      exact Draw.ensures_pure ⟨respects.1, others⟩

end

end Keeps

omit [Number α] in
/-- A variable that exists can be drawn, if all variables have numbers. -/
theorem variable_ensures (takes : 0 < mutator.variableCount)
    (numbered : mutator.variableCount ≤ MachineConfig.variableLimit) :
    Draw.Ensures allowed (fun index => index.toNat < mutator.variableCount)
      mutator.randomVariable := by
  apply (Draw.below_wide_ensures takes).bind
  intro index inside
  apply Draw.ensures_pure
  rw [UInt16.toNat_ofNat_of_lt' (Nat.lt_of_lt_of_le inside numbered)]
  exact inside

/-- The trees that a mutator works on. -/
def Works (mutator : Mutator) : Tree α → Prop :=
  Tree.Shaped mutator.variableCount mutator.blockComplexity

namespace Proper

/-- A fresh basic block has the shape. -/
theorem basic_block_ensures (proper : mutator.Proper) :
    Draw.Ensures allowed
      (BasicBlock.Shaped mutator.variableCount mutator.blockComplexity)
      (mutator.randomBasicBlock : Draw (BasicBlock α)) := by
  apply (Program.generate_ensures proper.takes proper.more proper.addressable).bind
  intro nodes fresh
  have plain : nodes.Plain mutator.variableCount mutator.blockComplexity mutator.outputsStart :=
    fresh.relax (Nat.zero_le _)
  apply (plain.repair_ensures proper.addressable).bind
  rintro ⟨repaired, _⟩ shaped
  exact Draw.ensures_pure (BasicBlock.shaped_baseline shaped)

/-- A mutated basic block has the shape. -/
theorem mutate_block_ensures (proper : mutator.Proper) {code : BasicBlock α}
    (shaped : code.Shaped mutator.variableCount mutator.blockComplexity) :
    Draw.Ensures allowed
      (BasicBlock.Shaped mutator.variableCount mutator.blockComplexity)
      (mutator.mutateBasicBlock code) := by
  apply (shaped.baseline.mutate_ensures proper.addressable).bind
  rintro ⟨mutated, _⟩ plain
  apply (Program.Plain.repair_ensures plain proper.addressable).bind
  rintro ⟨repaired, _⟩ plain
  exact Draw.ensures_pure (BasicBlock.shaped_baseline plain)

/-- A proper mutator keeps the shape of basic blocks and never fails. -/
theorem keeps (proper : mutator.Proper) : mutator.Keeps (α := α) allowed
    (BasicBlock.Shaped mutator.variableCount mutator.blockComplexity) where
  odds := (odds_ok_iff mutator.odds).mpr
    ⟨proper.edits, proper.leaves, proper.flips, proper.writes⟩
  names := variable_ensures proper.takes
    (Nat.le_of_lt (Nat.lt_of_lt_of_le proper.more proper.addressable))
  fresh := proper.basic_block_ensures
  edited _ shaped := proper.mutate_block_ensures shaped

/-- A mutation of a tree of the shape never fails and keeps the shape. -/
theorem mutate_ensures (proper : mutator.Proper) (tree : Tree α) (works : mutator.Works tree) :
    Draw.Ensures allowed mutator.Works (mutator.mutate tree) :=
  proper.keeps.mutate_ensures tree works

end Proper

/-- A mutator that was made is proper, if the slots of its basic blocks have addresses. -/
theorem proper_of_make {count complexity : Nat} {odds : MutationOdds}
    (made : make count complexity odds = .ok mutator)
    (addressable : complexity ≤ Node.slotLimit) : mutator.Proper := by
  obtain ⟨takes, more, accepted, rfl⟩ := (make_ok_iff count complexity odds mutator).mp made
  obtain ⟨edits, leaves, flips, writes⟩ := (odds_ok_iff odds).mp accepted
  exact ⟨takes, more, addressable, edits, leaves, flips, writes⟩

end Mutator

namespace Tree

variable [Number α]

/-- The trees that evolve from the empty one. Any words may be drawn, and any profile may have been
noted. -/
inductive Evolves (mutator : Mutator) : Tree α → Prop where
  | empty : Evolves mutator .empty
  | mutated {tree changed : Tree α} {stream rest : Stream} :
      Evolves mutator tree → mutator.mutate tree stream = .ok changed rest →
        Evolves mutator changed
  | committed {tree : Tree α} (profile : TreeProfile) :
      Evolves mutator tree →
        Evolves mutator (tree.commitBranches profile mutator.variableCount).1
  | speculated {tree : Tree α} (profile : TreeProfile) (threshold : Nat) :
      Evolves mutator tree →
        Evolves mutator (tree.speculateBranches profile mutator.variableCount threshold).1
  | stripped {tree : Tree α} (profile : TreeProfile) :
      Evolves mutator tree → Evolves mutator (tree.stripDeadLoops profile).1
  | cleared {tree : Tree α} : Evolves mutator tree → Evolves mutator tree.clearSpecialized
  | refined {tree : Tree α} {ordinal : Nat} {code mutated : BasicBlock α} {stream rest : Stream} :
      Evolves mutator tree → tree.basicBlocks[ordinal]? = some code →
      mutator.mutateBasicBlock code stream = .ok mutated rest →
        Evolves mutator (tree.modifyBasic ordinal fun _ => mutated)

/-- Whatever evolves keeps its shape. -/
theorem Evolves.works {mutator : Mutator} {tree : Tree α} (evolves : Evolves mutator tree)
    (proper : mutator.Proper) : mutator.Works tree := by
  induction evolves with
  | empty => exact trivial
  | mutated _ drawn works => exact (proper.mutate_ensures _ works).result drawn
  | committed profile _ works =>
    exact commit_branches_respects BasicBlock.shaped_specializable works profile _
  | speculated profile threshold _ works =>
    exact speculate_branches_respects BasicBlock.shaped_specializable works profile _ threshold
  | stripped profile _ works => exact strip_dead_loops_respects _ profile works
  | cleared _ works => exact clear_specialized_respects BasicBlock.shaped_specializable works
  | @refined _ ordinal _ _ _ _ _ found drawn works =>
    have shaped := (proper.mutate_block_ensures (Shaped.block works found)).result drawn
    exact modify_basic_respects _ ordinal shaped works

/-- What holds of a tree that a mutator works on. It has its shape and its basic blocks are valid,
it can be mutated as a whole and in each basic block, and it compiles for every valid machine with
its variables. -/
structure Viable (mutator : Mutator) (tree : Tree α) : Prop where
  works : mutator.Works tree
  validates : ∀ code ∈ tree.basicBlocks, code.nodes.validate = .ok () ∧
    ∀ nodes, code.specialized = some nodes → nodes.validate = .ok ()
  mutates : ∀ stream, ∃ changed rest, mutator.mutate tree stream = .ok changed rest
  refines : ∀ code ∈ tree.basicBlocks, ∀ stream, ∃ mutated rest,
    mutator.mutateBasicBlock code stream = .ok mutated rest
  compiles : ∀ machine : MachineConfig, machine.variableCount = mutator.variableCount →
    machine.validate = .ok () →
      ∀ instrumented, ∃ program, tree.compile machine instrumented = .ok program

/-- A tree of the shape is viable. -/
theorem viable_of_works {mutator : Mutator} {tree : Tree α} (works : mutator.Works tree)
    (proper : mutator.Proper) : Viable mutator tree where
  works := works
  validates code member := by
    have shaped := respects_blocks tree works code member
    exact ⟨(Program.validate_ok_iff _).mpr shaped.baseline.valid, fun nodes given =>
      (Program.validate_ok_iff nodes).mpr (shaped.specialized nodes given).valid⟩
  mutates stream := by
    obtain ⟨changed, rest, drawn, _⟩ := (proper.mutate_ensures tree works).total stream
    exact ⟨changed, rest, drawn⟩
  refines code member stream := by
    have shaped := respects_blocks tree works code member
    obtain ⟨mutated, rest, drawn, _⟩ := (proper.mutate_block_ensures shaped).total stream
    exact ⟨mutated, rest, drawn⟩
  compiles machine same valid instrumented :=
    Shaped.compiles works proper.takes proper.more same valid instrumented

end Tree

end ProgramSearch
