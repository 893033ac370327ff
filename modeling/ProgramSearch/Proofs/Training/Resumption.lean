import ProgramSearch.Number.Double
import ProgramSearch.Proofs.Number.Small
import ProgramSearch.Proofs.Training.Control
import ProgramSearch.Proofs.Tree.Resumption

/-!
# Resuming a training

A training may start from a tree of any origin that is accepted. As long as its basic blocks have as
many slots as the trainer expects, or more, all that evolves from it is accepted as well, and the
training fails only where its environment does, or where the trainer expects more slots than there
are addresses. A mutation that runs out of material only costs its worker the candidate. In a shorter
basic block a mutation may remove an output, so the tree is refused from then on.
-/

namespace ProgramSearch

variable {α : Type}

namespace ControlTrainer

variable [Number α] {allowed : Failure → Prop} {config : ControlConfig} {environment : Trial α}
  {trainer : ControlTrainer α}

/-- A trainer that was made is equipped for trees whose basic blocks have as many slots as it
expects, or more. -/
theorem editable_of_make (made : make config environment = .ok trainer)
    (fair : environment.Fair allowed)
    (addressable : config.blockComplexity ≤ Node.slotLimit ∨
      allowed (.fault (.misfit (.slotCount config.blockComplexity)))) :
    trainer.Equipped allowed (BasicBlock.Editable config.variableCount
      (config.blockComplexity - config.variableCount) config.blockComplexity) := by
  obtain ⟨rfl, rfl, valid, chosen⟩ := parts_of_make made
  obtain ⟨takes, more, _, _⟩ := (Mutator.make_ok_iff _ _ _ _).mp chosen
  have same := Mutator.count_of_make chosen
  exact
    { keeps := Mutator.keeps_editable chosen (MachineConfig.numbered valid) (Nat.le_refl _)
        (.inl rfl) (addressable.imp_right .inr)
      specializable := BasicBlock.editable_specializable takes (Nat.le_of_lt more)
      fits := fun _ editable => same ▸ editable.fits takes (Nat.le_of_lt more)
      same := same.symm
      valid := valid
      fair := fair }

end ControlTrainer

namespace Tree

section Acceptance

variable {machine : MachineConfig} {complexity least : Nat} {tree : Tree α}

/-- The basic blocks of an accepted tree can be edited, however long they are. -/
theorem editable_of_fits {count start : Nat} (fits : tree.Respects count (BasicBlock.Fits count))
    (long : ∀ code ∈ tree.basicBlocks, least ≤ code.nodes.size) :
    tree.Respects count (BasicBlock.Editable count start least) :=
  respects_mono (fun _ both => both.1.editable both.2) tree (respects_and tree fits long)

/-- A tree whose basic blocks can be edited is accepted if the slots that are protected hold their
outputs. -/
theorem accepted_of_editable (valid : machine.validate = .ok ()) (takes : 0 < machine.variableCount)
    (more : machine.variableCount < complexity)
    (editable : tree.Respects machine.variableCount (BasicBlock.Editable machine.variableCount
      (complexity - machine.variableCount) complexity)) (instrumented : Bool) :
    ∃ program, tree.compile machine instrumented = .ok program := by
  refine (compile_accepted_iff tree machine instrumented).mpr ⟨valid, ?_⟩
  exact respects_mono (fun _ editable => editable.fits takes (Nat.le_of_lt more)) tree editable

/-- A tree whose basic blocks can be edited and have slots for their outputs is refused because of
an empty output only. -/
theorem refused_for_output {start : Nat} (valid : machine.validate = .ok ())
    (takes : 0 < machine.variableCount)
    (editable : tree.Respects machine.variableCount
      (BasicBlock.Editable machine.variableCount start machine.variableCount))
    {instrumented : Bool} {fault : Fault}
    (refused : tree.compile machine instrumented = .error fault) :
    ∃ slot, fault = .absentOutput slot := by
  rw [compile, valid, Refusal.ok_bind] at refused
  rcases (Refusal.bind_refused_iff _ _ _).mp refused with inner | ⟨_, _, done⟩
  · exact statement_refused takes (Nat.le_refl _) tree _ editable inner
  · cases done

end Acceptance

variable [Number α]

/-- A mutation of an accepted tree leaves one that is refused because of an empty output only. If
every basic block has as many slots as the mutator expects, or more, then it leaves an accepted tree,
and a training that starts from the tree ends with an accepted one, whatever is drawn. Such a
training fails only for a reason that its environment may have to fail, or because the mutator
expects more slots than there are addresses. -/
theorem mutation_keeps_long_blocks_compilable {count complexity : Nat} {odds : MutationOdds}
    {mutator : Mutator} (made : Mutator.make count complexity odds = .ok mutator)
    {machine : MachineConfig} (same : machine.variableCount = count) {tree : Tree α}
    {instrumented : Bool} {program : Executable α}
    (accepted : tree.compile machine instrumented = .ok program) :
    (∀ stream changed rest, mutator.mutate tree stream = .ok changed rest →
      ∀ instrumented fault, changed.compile machine instrumented = .error fault →
        ∃ slot, fault = .absentOutput slot) ∧
    ((∀ code ∈ tree.basicBlocks, complexity ≤ code.nodes.size) →
      (∀ stream changed rest, mutator.mutate tree stream = .ok changed rest →
        ∀ instrumented, ∃ program, changed.compile machine instrumented = .ok program) ∧
      ∀ (config : ControlConfig) (environment : Trial α) (trainer : ControlTrainer α)
        (allowed : Failure → Prop),
        config.machine = machine → config.blockComplexity = complexity →
        ControlTrainer.make config environment = .ok trainer → environment.Fair allowed →
        (Node.slotLimit < complexity → allowed (.fault (.misfit (.slotCount complexity)))) →
        ∀ entropy : Entropy, Answers allowed
          (fun outcome => ∀ instrumented,
            ∃ program, outcome.program.compile machine instrumented = .ok program)
          (trainer.train entropy (some tree)).result) := by
  subst same
  obtain ⟨valid, fits⟩ := (compile_accepted_iff tree machine instrumented).mp ⟨program, accepted⟩
  obtain ⟨takes, more, _, _⟩ := (Mutator.make_ok_iff _ complexity odds mutator).mp made
  have edits : ∀ least stream changed rest, least ≤ complexity →
      (∀ code ∈ tree.basicBlocks, least ≤ code.nodes.size) →
      mutator.mutate tree stream = .ok changed rest →
      changed.Respects machine.variableCount (BasicBlock.Editable machine.variableCount
        (complexity - machine.variableCount) least) := by
    intro least stream changed rest small long drawn
    -- Why a mutation may fail does not matter here.
    have keeps : mutator.Keeps (α := α) (fun _ => True) (BasicBlock.Editable machine.variableCount
        (complexity - machine.variableCount) least) :=
      Mutator.keeps_editable made (machine.numbered valid) small trivial (.inr trivial)
    have counted := Mutator.count_of_make made
    have mutates := keeps.mutate_ensures tree
    rw [counted] at mutates
    exact (mutates (editable_of_fits fits long)).drawn drawn
  refine ⟨?_, fun long => ⟨?_, ?_⟩⟩
  · intro stream changed rest drawn instrumented fault refused
    have enough := respects_blocks tree (respects_mono
      (fun _ fits => fits.baseline.ready.enough) tree fits)
    exact refused_for_output valid takes
      (edits _ stream changed rest (Nat.le_of_lt more) enough drawn) refused
  · intro stream changed rest drawn
    exact accepted_of_editable valid takes more
      (edits _ stream changed rest (Nat.le_refl _) long drawn)
  · rintro config environment trainer allowed rfl rfl trained fair oversized entropy
    have equipped := ControlTrainer.editable_of_make trained fair
      ((Nat.lt_or_ge Node.slotLimit config.blockComplexity).symm.imp_right oversized)
    have counted := Mutator.count_of_make (ControlTrainer.parts_of_make trained).2.2.2
    have answers := equipped.train_answers entropy (some tree)
    rw [counted] at answers
    apply (answers (editable_of_fits fits long)).weaken
    intro outcome editable
    exact accepted_of_editable valid takes more editable

open Draw (isDrawn drawn_of_test)

/-- A machine with one variable. -/
def solitary : MachineConfig := ⟨1, 1, 1000, 4⟩

/-- Adds one to the variable, in a basic block with an unused slot. -/
def counting : Tree Small :=
  .block [.basic { nodes := #[some (.argument 0), some (.constant Number.one),
    some (.constant Number.zero), some (.binary .add 0 1)] }]

/-- A trainer for the machine with one variable, whose basic blocks have three slots. -/
def modest : ControlConfig where
  variableCount := 1
  arguments := 1
  blockComplexity := 3
  loopBudget := 1000
  maxPages := 4

/-- Answers one with the number that is expected. -/
def answering : Trial Small :=
  .act #[Number.one] #[Number.zero] fun outputs => .score (outputs.getD 0 Number.zero)

/-- Counting still compiles when it is mutated by a mutator that expects three slots, and so does
what a training makes of it, which cannot fail. -/
theorem counting_stays_compilable :
    ∃ (mutator : Mutator) (program : Executable Small) (changed : Tree Small) (rest : Stream)
      (trainer : ControlTrainer Small),
      Mutator.make 1 3 {} = .ok mutator ∧ solitary.variableCount = 1 ∧
      counting.compile solitary false = .ok program ∧
      (∀ code ∈ counting.basicBlocks, 3 ≤ code.nodes.size) ∧
      mutator.mutate counting (Stream.cyclic #[0]) = .ok changed rest ∧
      (∃ program, changed.compile solitary true = .ok program) ∧
      modest.machine = solitary ∧ modest.blockComplexity = 3 ∧
      ControlTrainer.make modest answering = .ok trainer ∧
      answering.Fair (fun _ => False) ∧
      ∀ entropy : Entropy, ∃ outcome, (trainer.train entropy (some counting)).result = .ok outcome ∧
        ∀ instrumented, ∃ program, outcome.program.compile solitary instrumented = .ok program := by
  have drawable : isDrawn (Mutator.mutate ⟨1, 3, {}⟩ counting) (Stream.cyclic #[0])
      (!·.isSkip) = true := by decide +kernel
  obtain ⟨changed, rest, drawn, _⟩ := drawn_of_test drawable
  have long : ∀ code ∈ counting.basicBlocks, 3 ≤ code.nodes.size := by
    simp [counting, basicBlocks, basicBlocksOf]
  obtain ⟨program, accepted⟩ : ∃ program, counting.compile solitary false = .ok program :=
    ⟨_, rfl⟩
  have made : Mutator.make 1 3 {} = .ok ⟨1, 3, {}⟩ := by rfl
  have trained : ControlTrainer.make modest answering =
      .ok ⟨modest, answering, ⟨1, 3, {}⟩⟩ := by rfl
  have fair : answering.Fair fun _ => False := fun _ _ => trivial
  obtain ⟨_, stays⟩ := mutation_keeps_long_blocks_compilable made rfl accepted
  obtain ⟨mutates, trains⟩ := stays long
  refine ⟨_, program, changed, rest, _, made, rfl, accepted, long, drawn,
    mutates _ _ _ drawn true, rfl, rfl, trained, fair, fun entropy => ?_⟩
  have answers := trains modest answering _ _ rfl rfl trained fair
    (fun beyond => absurd beyond (by decide)) entropy
  generalize (ControlTrainer.train ⟨modest, answering, ⟨1, 3, {}⟩⟩ entropy (some counting)).result =
    result at answers ⊢
  cases result with
  | ok outcome => exact ⟨outcome, rfl, answers⟩
  | error failure => exact answers.elim

/-- A basic block of two slots is accepted, but not after a mutation by a mutator that expects twelve
slots. The mutated slot holds the only output, and it lies before the slots that are protected. -/
theorem short_block_loses_output :
    ∃ (mutator : Mutator) (tree changed : Tree Float) (rest : Stream),
      Mutator.make 1 12 {} = .ok mutator ∧
      (∃ program, tree.compile solitary false = .ok program) ∧
      mutator.mutate tree (Stream.cyclic #[0]) = .ok changed rest ∧
      changed.compile solitary false = .error (.absentOutput 1) := by
  let doubling : Tree Float := .basic { nodes := #[some (.argument 0), some (.binary .add 0 0)] }
  have loses : isDrawn (Mutator.mutate ⟨1, 12, {}⟩ doubling) (Stream.cyclic #[0])
      (fun changed => match changed.compile solitary false with
        | .ok _ => false
        | .error fault => fault = .absentOutput 1) = true := by decide +kernel
  obtain ⟨changed, rest, drawn, refused⟩ := drawn_of_test loses
  refine ⟨_, doubling, changed, rest, rfl, ⟨_, rfl⟩, drawn, ?_⟩
  cases compiled : changed.compile solitary false with
  | ok program => simp [compiled] at refused
  | error fault =>
    simp only [compiled, decide_eq_true_eq] at refused
    rw [refused]

end Tree

end ProgramSearch
