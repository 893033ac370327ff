import ProgramSearch.Proofs.Program.Editing
import ProgramSearch.Proofs.Tree.Evolution
import ProgramSearch.Proofs.Tree.Speculation

/-!
# Mutating trees of any origin

A mutator knows how many slots its own basic blocks have, and it protects the slots that hold the
outputs of such a block. Compiling takes the outputs from the end of each basic block instead. For a
tree that comes from elsewhere the two need not agree: in a basic block with fewer slots, a mutation
may remove an output that nothing reads, and the tree is refused from then on.

An empty output is all that can go wrong, and it cannot where every basic block has as many slots as
the mutator expects, or more.
-/

namespace ProgramSearch

variable {α : Type}

/-- The baseline can be edited, and the specialized form fits the variables. -/
structure BasicBlock.Editable (count start least : Nat) (code : BasicBlock α) : Prop where
  baseline : code.nodes.Editable count start least
  specialized : ∀ nodes, code.specialized = some nodes → nodes.Fits count

namespace BasicBlock

variable {count start least : Nat} {code : BasicBlock α}

/-- A basic block that fits the variables can be edited. -/
theorem Fits.editable (fits : code.Fits count) (enough : least ≤ code.nodes.size) :
    code.Editable count start least where
  baseline :=
    { leading := fits.baseline.ready.leading
      valid := fits.baseline.ready.valid
      bounded := fits.baseline.arguments
      enough := enough
      present := fun slot _ output inside => fits.baseline.ready.present slot output inside }
  specialized := fits.specialized

/-- A basic block that can be edited fits the variables if the protected slots are the outputs of the
smallest ones. -/
theorem Editable.fits (editable : code.Editable count (least - count) least) (takes : 0 < count)
    (outputs : count ≤ least) : code.Fits count := by
  -- In a larger basic block the outputs lie later, so they are protected too.
  have enough := editable.baseline.enough
  have protects : least - count ≤ code.nodes.size - count := by omega
  exact
    { baseline := ⟨editable.baseline.ready takes outputs protects, editable.baseline.bounded⟩
      specialized := editable.specialized }

end BasicBlock

/-- A machine that is accepted has no more variables than there are numbers for. -/
theorem MachineConfig.numbered {machine : MachineConfig} (valid : machine.validate = .ok ()) :
    machine.variableCount ≤ variableLimit := by
  unfold validate at valid
  split at valid
  · cases valid
  · split at valid
    · cases valid
    · split at valid
      · cases valid
      · omega

namespace Tree

variable {setting : Setting}

/-- A basic block that can be edited and has slots for its outputs is refused because of an empty
output only. -/
theorem basic_refused {start least ordinal : Nat} {code : BasicBlock α} {fault : Fault}
    (takes : 0 < setting.config.variableCount) (outputs : setting.config.variableCount ≤ least)
    (editable : code.Editable setting.config.variableCount start least)
    (refused : setting.basic code ordinal = .error fault) :
    ∃ slot, fault = .absentOutput slot := by
  unfold Setting.basic at refused
  rcases (Refusal.bind_refused_iff _ _ _).mp refused with first | ⟨_, _, others⟩
  · unfold Setting.scalar at first
    rcases (Refusal.bind_refused_iff _ _ _).mp first with refused | ⟨program, compiled, rest⟩
    · exact Program.refused_for_output takes (Nat.le_trans outputs editable.baseline.enough)
        editable.baseline.leading editable.baseline.valid refused
    · obtain ⟨_, _, linked⟩ := Program.linked_of_compile compiled
      have within := linked.least _ editable.baseline.bounded
      simp only [Nat.not_lt_of_le within, if_false] at rest
      cases rest
  · rcases (Refusal.bind_refused_iff _ _ _).mp others with second | ⟨_, _, done⟩
    · cases given : code.specialized with
      | none =>
        rw [given] at second
        cases second
      | some nodes =>
        obtain ⟨program, accepted⟩ :=
          (scalar_accepted_iff setting nodes none).mpr (editable.specialized nodes given)
        rw [given] at second
        change setting.scalar nodes none >>= _ = _ at second
        rw [accepted] at second
        cases second
    · cases done

mutual

/-- A tree whose basic blocks can be edited and have slots for their outputs is refused because of
an empty output only. -/
theorem statement_refused {start least : Nat} (takes : 0 < setting.config.variableCount)
    (outputs : setting.config.variableCount ≤ least) (tree : Tree α) (next : Ordinals)
    (respects : tree.Respects setting.config.variableCount
      (BasicBlock.Editable setting.config.variableCount start least))
    {fault : Fault} (refused : statement setting next tree = .error fault) :
    ∃ slot, fault = .absentOutput slot := by
  cases tree with
  | skip => cases refused
  | block children =>
    rcases (Refusal.bind_refused_iff _ _ _).mp refused with inner | ⟨_, _, done⟩
    · exact statements_refused takes outputs children next respects inner
    · cases done
  | loop condition body =>
    simp only [statement, Setting.position, respects.1, if_true, Refusal.ok_bind] at refused
    rcases (Refusal.bind_refused_iff _ _ _).mp refused with inner | ⟨_, _, done⟩
    · exact statement_refused takes outputs body next respects.2 inner
    · cases done
  | read target =>
    have inside : target.toNat < setting.config.variableCount := respects
    simp only [statement, Setting.position, inside, if_true, Refusal.ok_bind] at refused
    cases refused
  | write address value =>
    simp only [statement, Setting.position, respects.1, respects.2, if_true, Refusal.ok_bind]
      at refused
    cases refused
  | basic code =>
    rcases (Refusal.bind_refused_iff _ _ _).mp refused with inner | ⟨_, _, done⟩
    · exact basic_refused takes outputs respects inner
    · cases done

/-- Trees whose basic blocks can be edited and have slots for their outputs are refused because of
an empty output only. -/
theorem statements_refused {start least : Nat} (takes : 0 < setting.config.variableCount)
    (outputs : setting.config.variableCount ≤ least) (trees : List (Tree α)) (next : Ordinals)
    (respects : RespectsAll setting.config.variableCount
      (BasicBlock.Editable setting.config.variableCount start least) trees)
    {fault : Fault} (refused : statements setting next trees = .error fault) :
    ∃ slot, fault = .absentOutput slot := by
  cases trees with
  | nil => cases refused
  | cons tree rest =>
    cases empty : tree.isSkip with
    | true =>
      simp only [statements, empty, if_true] at refused
      exact statements_refused takes outputs rest next respects.2 refused
    | false =>
      simp only [statements, empty, Bool.false_eq_true, if_false] at refused
      rcases (Refusal.bind_refused_iff _ _ _).mp refused with first | ⟨_, _, others⟩
      · exact statement_refused takes outputs tree next respects.1 first
      · rcases (Refusal.bind_refused_iff _ _ _).mp others with second | ⟨_, _, done⟩
        · exact statements_refused takes outputs rest _ respects.2 second
        · cases done

end

end Tree

/-- The passes leave basic blocks that can be edited, if the protected slots are the outputs of the
smallest ones. -/
theorem BasicBlock.editable_specializable [Number α] {count least : Nat} (takes : 0 < count)
    (outputs : count ≤ least) :
    Specializable (α := α) (Editable count (least - count) least) where
  committed offset sides editable :=
    ⟨editable.baseline.trimmed (Program.prune_trims offset sides editable.baseline.valid _), nofun⟩
  guarded editable copied := by
    have fits := editable.fits takes outputs
    exact ⟨editable.baseline, fun _ given => Option.some.inj given ▸ fits.baseline.copied copied⟩
  cleared editable := ⟨editable.baseline, nofun⟩

namespace Mutator

variable [Number α] {mutator : Mutator} {least : Nat} {allowed : Failure → Prop}

/-- A fresh basic block fits the variables, unless its slots have no addresses. -/
theorem fresh_editable (takes : 0 < mutator.variableCount)
    (more : mutator.variableCount < mutator.blockComplexity)
    (fits : least ≤ mutator.blockComplexity) (crash : allowed .crash)
    (addressable : mutator.blockComplexity ≤ Node.slotLimit ∨
      allowed (.fault (.misfit (.slotCount mutator.blockComplexity)))) :
    Draw.Ensures allowed
      (BasicBlock.Editable mutator.variableCount mutator.outputsStart least)
      (mutator.randomBasicBlock : Draw (BasicBlock α)) := by
  apply (Program.generated_ensures takes more addressable).bind
  intro nodes fresh
  have plain : nodes.Plain mutator.variableCount mutator.blockComplexity
      mutator.outputsStart := fresh.relax (Nat.zero_le _)
  apply (Program.Plain.repairable.repair_ensures plain (.inr crash)).bind
  rintro ⟨repaired, _⟩ plain
  have shaped := BasicBlock.shaped_baseline plain
  exact Draw.ensures_pure ((shaped.fits takes more).editable (plain.sized ▸ fits))

/-- A mutated basic block can be edited again. -/
theorem edited_editable {code : BasicBlock α}
    (editable : code.Editable mutator.variableCount mutator.outputsStart least)
    (crash : allowed .crash) :
    Draw.Ensures allowed
      (BasicBlock.Editable mutator.variableCount mutator.outputsStart least)
      (mutator.mutateBasicBlock code) := by
  apply (editable.baseline.mutate_ensures _ (.inr crash)).bind
  rintro ⟨mutated, _⟩ ⟨editable, _⟩
  apply (Program.Editable.repairable.repair_ensures editable (.inr crash)).bind
  rintro ⟨repaired, _⟩ editable
  exact Draw.ensures_pure ⟨editable, fun _ given => nomatch given⟩

/-- Whatever a mutator that was made does to a tree for a machine, its basic blocks can be edited
again. -/
theorem keeps_editable {count complexity : Nat} {odds : MutationOdds}
    (made : make count complexity odds = .ok mutator)
    (numbered : count ≤ MachineConfig.variableLimit) (fits : least ≤ complexity)
    (crash : allowed .crash)
    (addressable : complexity ≤ Node.slotLimit ∨
      allowed (.fault (.misfit (.slotCount complexity)))) :
    mutator.Keeps (α := α) allowed
      (BasicBlock.Editable count (complexity - count) least) := by
  obtain ⟨takes, more, accepted, rfl⟩ := (make_ok_iff count complexity odds mutator).mp made
  exact ⟨accepted, variable_ensures takes numbered,
    fresh_editable takes more fits crash addressable,
    fun _ editable => edited_editable editable crash⟩

end Mutator

end ProgramSearch
