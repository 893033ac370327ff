import ProgramSearch.Proofs.Tree.Lockstep
import ProgramSearch.Proofs.Tree.Numbering

/-!
# Dropping specialized forms in lockstep

A compiled tree and the same tree without its specialized forms take the same way through blocks,
loops and memory. Only their basic blocks differ, and the numbers under which parts of the tree are
noted. Whatever relates two machines is therefore kept by both trees together when the actions on
variables, budget and memory keep it, noting a block keeps it, and so does every basic block.
-/

namespace ProgramSearch.Tree

variable {α : Type}

section Clearing

/-- Dropping the specialized forms drops them in every one of the trees. -/
theorem clear_all (trees : List (Tree α)) :
    (mapBasicOf (fun _ code => ((⟨code.nodes, none⟩ : BasicBlock α), ())) () trees).1 =
      trees.map clearSpecialized := by
  induction trees with
  | nil => rfl
  | cons tree rest inductionHypothesis =>
    rw [List.map_cons, ← inductionHypothesis]
    rfl

theorem clear_block (children : List (Tree α)) :
    (block children).clearSpecialized = .block (children.map clearSpecialized) := by
  rw [← clear_all]
  rfl

/-- Dropping specialized forms makes no statement empty. -/
theorem is_skip_clear (tree : Tree α) : tree.clearSpecialized.isSkip = tree.isSkip := by
  cases tree <;> rfl

/-- A tree whose basic blocks fit still fits without the specialized forms. -/
theorem clear_fits {count : Nat} (tree : Tree α)
    (respects : tree.Respects count (BasicBlock.Fits count)) :
    tree.clearSpecialized.Respects count (BasicBlock.Fits count) :=
  map_basic_respects (fun _ _ fits => ⟨fits.baseline, fun _ given => nomatch given⟩) tree ()
    respects

end Clearing

/-- Basic blocks obey a law by their numbers, which are counted from a first one on. -/
def ObeyFrom (law : Nat → BasicBlock α → Prop) (first : Nat) (codes : List (BasicBlock α)) : Prop :=
  ∀ index code, codes[index]? = some code → law (first + index) code

namespace ObeyFrom

variable {law : Nat → BasicBlock α → Prop} {first : Nat} {codes others : List (BasicBlock α)}

theorem left (obey : ObeyFrom law first (codes ++ others)) : ObeyFrom law first codes := by
  intro index code found
  have inside := (List.getElem?_eq_some_iff.mp found).1
  exact obey index code (by rw [List.getElem?_append_left inside, found])

/-- The basic blocks behind others are counted from the first number behind these. -/
theorem right (obey : ObeyFrom law first (codes ++ others)) :
    ObeyFrom law (first + codes.length) others := by
  intro index code found
  rw [Nat.add_assoc]
  refine obey (codes.length + index) code ?_
  rw [List.getElem?_append_right (Nat.le_add_right _ _), Nat.add_sub_cancel_left, found]

end ObeyFrom

section Lockstep

variable [Number α] {config : MachineConfig} {instrumented otherwise : Bool}
  {related : Machine α → Machine α → Prop} {paired : Ordinals → Ordinals → Prop}
  {law : Nat → BasicBlock α → Prop}

open ProgramSearch.Action

/-- What relates machines, and the numbers on both sides, so that dropping the specialized forms of
basic blocks that obey a law keeps the machines related. -/
structure ClearsAlike (config : MachineConfig) (instrumented otherwise : Bool)
    (related : Machine α → Machine α → Prop) (paired : Ordinals → Ordinals → Prop)
    (law : Nat → BasicBlock α → Prop) : Prop where
  remaining : ∀ {left right}, related left right → left.remaining = right.remaining
  get : ∀ index, Lockstep related (Action.get index) (Action.get index)
  spend : Lockstep related Action.spend Action.spend
  read : ∀ target, Lockstep related (Action.read target) (Action.read target)
  write : ∀ address value,
    Lockstep related (Action.write address value) (Action.write address value)
  note : ∀ {next otherNext}, paired next otherNext →
    Lockstep related (Action.note (if instrumented then some next.blocks else none))
      (Action.note (if otherwise then some otherNext.blocks else none))
  basic : ∀ {next otherNext code compiled cleared}, paired next otherNext →
    law next.basicBlocks code →
    Setting.basic ⟨config, instrumented⟩ code next.basicBlocks = .ok compiled →
    Setting.basic ⟨config, otherwise⟩ ⟨code.nodes, none⟩ otherNext.basicBlocks = .ok cleared →
      Lockstep related compiled.run cleared.run
  past_block : ∀ {next otherNext}, paired next otherNext →
    paired { next with blocks := next.blocks + 1 } { otherNext with blocks := otherNext.blocks + 1 }
  past_basic : ∀ {next otherNext}, paired next otherNext →
    paired { next with basicBlocks := next.basicBlocks + 1 }
      { otherNext with basicBlocks := otherNext.basicBlocks + 1 }

namespace ClearsAlike

mutual

/-- A statement and the one without its specialized forms run in lockstep, and the numbers that
follow them are paired again.

The induction follows the tree. Both sides make the same choices, since the condition of a loop
reads alike and the budgets are the same. -/
theorem statement (alike : ClearsAlike config instrumented otherwise related paired law)
    (tree : Tree α) (next otherNext : Ordinals) {compiled cleared : Statement α × Ordinals}
    (pairs : paired next otherNext) (obey : ObeyFrom law next.basicBlocks tree.basicBlocks)
    (accepted : Tree.statement ⟨config, instrumented⟩ next tree = .ok compiled)
    (acceptedCleared :
      Tree.statement ⟨config, otherwise⟩ otherNext tree.clearSpecialized = .ok cleared) :
    Lockstep related compiled.1.run cleared.1.run ∧ paired compiled.2 cleared.2 := by
  cases tree with
  | skip =>
    obtain rfl := Except.ok.inj accepted
    obtain rfl := Except.ok.inj acceptedCleared
    exact ⟨Lockstep.pure (), pairs⟩
  | block children =>
    rw [clear_block] at acceptedCleared
    obtain ⟨parts, inside, rfl⟩ := (statement_block_iff _ _ _ _).mp accepted
    obtain ⟨clearedParts, clearedInside, rfl⟩ := (statement_block_iff _ _ _ _).mp acceptedCleared
    obtain ⟨continued, follow⟩ :=
      alike.statements children next otherNext pairs obey inside clearedInside
    exact ⟨(alike.note follow).bind fun _ => continued, alike.past_block follow⟩
  | loop condition body =>
    obtain ⟨_, inner, inside, rfl⟩ := (statement_loop_iff _ _ _ _ _).mp accepted
    obtain ⟨_, clearedInner, clearedInside, rfl⟩ :=
      (statement_loop_iff _ condition body.clearSpecialized _ _).mp acceptedCleared
    obtain ⟨repeated, follow⟩ :=
      alike.statement body next otherNext pairs obey inside clearedInside
    refine ⟨fun left right start => ?_, follow⟩
    have looped := Lockstep.repeat_while condition.toNat (alike.get _) alike.spend repeated
      left.remaining left right start
    simp only [Statement.run, get_bind, ← alike.remaining start]
    exact looped
  | read target =>
    obtain ⟨_, rfl⟩ := (statement_read_iff _ _ _ _).mp accepted
    obtain ⟨_, rfl⟩ := (statement_read_iff _ target _ _).mp acceptedCleared
    exact ⟨alike.read target.toNat, pairs⟩
  | write address value =>
    obtain ⟨_, _, rfl⟩ := (statement_write_iff _ _ _ _ _).mp accepted
    obtain ⟨_, _, rfl⟩ := (statement_write_iff _ address value _ _).mp acceptedCleared
    exact ⟨alike.write address.toNat value.toNat, pairs⟩
  | basic code =>
    obtain ⟨block, inside, rfl⟩ := (statement_basic_iff _ _ _ _).mp accepted
    obtain ⟨clearedBlock, clearedInside, rfl⟩ :=
      (statement_basic_iff _ ⟨code.nodes, none⟩ _ _).mp acceptedCleared
    exact ⟨alike.basic pairs (obey 0 code rfl) inside clearedInside, alike.past_basic pairs⟩

/-- Statements and those without their specialized forms run in lockstep, one after another. The
same statements are empty on both sides. -/
theorem statements (alike : ClearsAlike config instrumented otherwise related paired law)
    (trees : List (Tree α)) (next otherNext : Ordinals)
    {compiled cleared : List (Statement α) × Ordinals} (pairs : paired next otherNext)
    (obey : ObeyFrom law next.basicBlocks (basicBlocksOf trees))
    (accepted : Tree.statements ⟨config, instrumented⟩ next trees = .ok compiled)
    (acceptedCleared :
      Tree.statements ⟨config, otherwise⟩ otherNext (trees.map clearSpecialized) = .ok cleared) :
    Lockstep related (Statement.runAll compiled.1) (Statement.runAll cleared.1) ∧
      paired compiled.2 cleared.2 := by
  cases trees with
  | nil =>
    obtain rfl := Except.ok.inj accepted
    obtain rfl := Except.ok.inj acceptedCleared
    exact ⟨Lockstep.pure (), pairs⟩
  | cons tree rest =>
    rw [List.map_cons] at acceptedCleared
    have clearedEmpty := is_skip_clear tree
    cases empty : tree.isSkip with
    | true =>
      rw [empty] at clearedEmpty
      simp only [Tree.statements, clearedEmpty, empty, if_true] at accepted acceptedCleared
      cases tree with
      | skip => exact alike.statements rest next otherNext pairs obey accepted acceptedCleared
      | block | loop | read | write | basic => cases empty
    | false =>
      rw [empty] at clearedEmpty
      obtain ⟨first, others, acceptedFirst, remaining, rfl⟩ :=
        (statements_cons_iff _ empty _ _ _).mp accepted
      obtain ⟨clearedFirst, clearedOthers, acceptedClearedFirst, clearedRemaining, rfl⟩ :=
        (statements_cons_iff _ clearedEmpty _ _ _).mp acceptedCleared
      obtain ⟨start, pairs⟩ := alike.statement tree next otherNext pairs obey.left acceptedFirst
        acceptedClearedFirst
      have behind : ObeyFrom law first.2.basicBlocks (basicBlocksOf rest) := by
        rw [statement_numbers _ _ _ acceptedFirst, past_basic_blocks]
        exact obey.right
      obtain ⟨continued, follow⟩ := alike.statements rest first.2 clearedFirst.2 pairs behind
        remaining clearedRemaining
      exact ⟨start.bind fun _ => continued, follow⟩

end

end ClearsAlike

end Lockstep

end ProgramSearch.Tree
