import ProgramSearch.Proofs.Program.Acceptance
import ProgramSearch.Proofs.Tree.Shape
import ProgramSearch.Tree.Compilation

/-!
# Which control trees compile

A control tree compiles exactly when its machine is valid, its statements name only variables
that exist, and both forms of every basic block fit the variables. A program fits a number of
variables when it is ready to produce as many outputs and reads no other arguments. Numbering and
instrumentation play no part in this.
-/

namespace ProgramSearch

variable {α : Type}

/-- A program turns a number of variables into new ones: it is ready for as many outputs and its
arguments are variables. -/
structure Program.Fits (nodes : Program α) (count : Nat) : Prop where
  ready : nodes.Ready count
  arguments : ∀ slot parameter, nodes.node? slot = some (.argument parameter) →
    parameter.toNat < count

/-- Both forms of a basic block turn a number of variables into new ones. -/
structure BasicBlock.Fits (count : Nat) (code : BasicBlock α) : Prop where
  baseline : code.nodes.Fits count
  specialized : ∀ nodes, code.specialized = some nodes → nodes.Fits count

namespace Tree

/-- A variable has a position exactly when it exists, and the position is its number. -/
theorem position_ok_iff (setting : Setting) (index : UInt16) (position : Nat) :
    setting.position index = .ok position ↔
      index.toNat < setting.config.variableCount ∧ index.toNat = position := by
  by_cases inside : index.toNat < setting.config.variableCount <;>
    simp [Setting.position, inside]

/-- A straight-line program is accepted with a result exactly when it compiles to the result and
the result needs no more inputs than there are variables. -/
theorem scalar_ok_iff (setting : Setting) (nodes : Program α) (profile : Option Nat)
    (program : Compiled α) :
    setting.scalar nodes profile = .ok program ↔
      nodes.compile setting.config.variableCount { checked := false, profile } = .ok program ∧
        program.arity ≤ setting.config.variableCount := by
  unfold Setting.scalar
  rw [Refusal.bind_ok_iff]
  constructor
  · rintro ⟨found, compiled, remaining⟩
    by_cases excess : setting.config.variableCount < found.arity
    · simp only [excess, if_true] at remaining
      exact nomatch remaining
    · simp only [excess, if_false] at remaining
      obtain rfl := Except.ok.inj remaining
      exact ⟨compiled, Nat.le_of_not_lt excess⟩
  · rintro ⟨compiled, within⟩
    refine ⟨program, compiled, ?_⟩
    simp only [Nat.not_lt_of_le within, if_false]
    rfl

/-- A straight-line program is accepted exactly when it fits the variables. -/
theorem scalar_accepted_iff (setting : Setting) (nodes : Program α) (profile : Option Nat) :
    (∃ program, setting.scalar nodes profile = .ok program) ↔
      nodes.Fits setting.config.variableCount := by
  constructor
  · rintro ⟨program, accepted⟩
    obtain ⟨compiled, within⟩ := (scalar_ok_iff setting nodes profile program).mp accepted
    obtain ⟨ready, _, linked⟩ := Program.linked_of_compile compiled
    exact ⟨ready, fun slot parameter held =>
      Nat.lt_of_lt_of_le (linked.covers slot parameter held) within⟩
  · rintro ⟨ready, arguments⟩
    obtain ⟨program, compiled⟩ := Program.compile_of_ready ready { checked := false, profile }
    obtain ⟨_, _, linked⟩ := Program.linked_of_compile compiled
    exact ⟨program, (scalar_ok_iff setting nodes profile program).mpr
      ⟨compiled, linked.least _ arguments⟩⟩

/-- A basic block becomes a statement that tries its specialized form before its baseline. -/
theorem basic_ok_iff (setting : Setting) (code : BasicBlock α) (ordinal : Nat)
    (result : Statement α) :
    setting.basic code ordinal = .ok result ↔
      ∃ baseline specialized, result = .basic baseline specialized ∧
        setting.scalar code.nodes (if setting.instrumented then some ordinal else none) =
          .ok baseline ∧
        code.specialized.mapM (setting.scalar · none) = .ok specialized := by
  unfold Setting.basic
  simp only [Refusal.bind_ok_iff]
  constructor
  · rintro ⟨baseline, first, specialized, second, same⟩
    exact ⟨baseline, specialized, (Except.ok.inj same).symm, first, second⟩
  · rintro ⟨baseline, specialized, rfl, first, second⟩
    exact ⟨baseline, first, specialized, second, rfl⟩

/-- A basic block is accepted exactly when both of its forms fit the variables. -/
theorem basic_accepted_iff (setting : Setting) (code : BasicBlock α) (ordinal : Nat) :
    (∃ result, setting.basic code ordinal = .ok result) ↔
      code.Fits setting.config.variableCount := by
  constructor
  · rintro ⟨result, accepted⟩
    obtain ⟨baseline, specialized, _, first, second⟩ :=
      (basic_ok_iff setting code ordinal result).mp accepted
    refine ⟨(scalar_accepted_iff setting code.nodes _).mp ⟨baseline, first⟩, ?_⟩
    intro nodes given
    rw [given, Refusal.mapM_ok_iff] at second
    obtain ⟨program, found, _⟩ := second
    exact (scalar_accepted_iff setting nodes none).mp ⟨program, found⟩
  · rintro ⟨fits, specialized⟩
    obtain ⟨baseline, first⟩ := (scalar_accepted_iff setting code.nodes
      (if setting.instrumented then some ordinal else none)).mpr fits
    have second : ∃ program, code.specialized.mapM (setting.scalar · none) = .ok program := by
      cases given : code.specialized with
      | none => exact ⟨none, rfl⟩
      | some nodes =>
        obtain ⟨program, found⟩ :=
          (scalar_accepted_iff setting nodes none).mpr (specialized nodes given)
        exact ⟨some program, (Refusal.mapM_ok_iff _ _ _).mpr ⟨program, found, rfl⟩⟩
    obtain ⟨program, second⟩ := second
    exact ⟨.basic baseline program,
      (basic_ok_iff setting code ordinal _).mpr ⟨baseline, program, rfl, first, second⟩⟩

/-- An empty statement takes no number. -/
theorem statement_of_is_skip (setting : Setting) {tree : Tree α} (next : Ordinals)
    (empty : tree.isSkip = true) : statement setting next tree = .ok (.skip, next) := by
  cases tree with
  | skip => rfl
  | block | loop | read | write | basic => cases empty

/-- A block is accepted with its statements. It has the number that comes after theirs. -/
theorem statement_block_iff (setting : Setting) (children : List (Tree α)) (next : Ordinals)
    (result : Statement α × Ordinals) :
    statement setting next (.block children) = .ok result ↔
      ∃ parts, statements setting next children = .ok parts ∧
        result = (.block (if setting.instrumented then some parts.2.blocks else none) parts.1,
          { parts.2 with blocks := parts.2.blocks + 1 }) := by
  simp only [statement, Refusal.bind_ok_iff]
  constructor
  · rintro ⟨parts, accepted, same⟩
    exact ⟨parts, accepted, (Except.ok.inj same).symm⟩
  · rintro ⟨parts, accepted, rfl⟩
    exact ⟨parts, accepted, rfl⟩

/-- A loop is accepted with its body, if its condition is a variable. -/
theorem statement_loop_iff (setting : Setting) (condition : UInt16) (body : Tree α)
    (next : Ordinals) (result : Statement α × Ordinals) :
    statement setting next (.loop condition body) = .ok result ↔
      condition.toNat < setting.config.variableCount ∧
        ∃ inner, statement setting next body = .ok inner ∧
          result = (.loop condition.toNat inner.1, inner.2) := by
  simp only [statement, Refusal.bind_ok_iff, position_ok_iff]
  constructor
  · rintro ⟨_, ⟨inside, rfl⟩, inner, accepted, same⟩
    exact ⟨inside, inner, accepted, (Except.ok.inj same).symm⟩
  · rintro ⟨inside, inner, accepted, rfl⟩
    exact ⟨condition.toNat, ⟨inside, rfl⟩, inner, accepted, rfl⟩

/-- Memory is read into a variable. -/
theorem statement_read_iff (setting : Setting) (target : UInt16) (next : Ordinals)
    (result : Statement α × Ordinals) :
    statement setting next (.read target) = .ok result ↔
      target.toNat < setting.config.variableCount ∧ result = (.read target.toNat, next) := by
  simp only [statement, Refusal.bind_ok_iff, position_ok_iff]
  constructor
  · rintro ⟨_, ⟨inside, rfl⟩, same⟩
    exact ⟨inside, (Except.ok.inj same).symm⟩
  · rintro ⟨inside, rfl⟩
    exact ⟨target.toNat, ⟨inside, rfl⟩, rfl⟩

/-- Memory is written from a variable, at an address in a variable. -/
theorem statement_write_iff (setting : Setting) (address value : UInt16) (next : Ordinals)
    (result : Statement α × Ordinals) :
    statement setting next (.write address value) = .ok result ↔
      address.toNat < setting.config.variableCount ∧
        value.toNat < setting.config.variableCount ∧
          result = (.write address.toNat value.toNat, next) := by
  simp only [statement, Refusal.bind_ok_iff, position_ok_iff]
  constructor
  · rintro ⟨_, ⟨first, rfl⟩, _, ⟨second, rfl⟩, same⟩
    exact ⟨first, second, (Except.ok.inj same).symm⟩
  · rintro ⟨first, second, rfl⟩
    exact ⟨address.toNat, ⟨first, rfl⟩, value.toNat, ⟨second, rfl⟩, rfl⟩

/-- A basic block is accepted with its forms, and takes one number. -/
theorem statement_basic_iff (setting : Setting) (code : BasicBlock α) (next : Ordinals)
    (result : Statement α × Ordinals) :
    statement setting next (.basic code) = .ok result ↔
      ∃ compiled, setting.basic code next.basicBlocks = .ok compiled ∧
        result = (compiled, { next with basicBlocks := next.basicBlocks + 1 }) := by
  simp only [statement, Refusal.bind_ok_iff]
  constructor
  · rintro ⟨compiled, accepted, same⟩
    exact ⟨compiled, accepted, (Except.ok.inj same).symm⟩
  · rintro ⟨compiled, accepted, rfl⟩
    exact ⟨compiled, accepted, rfl⟩

/-- Statements are accepted one after another, and the first one takes its numbers first. -/
theorem statements_cons_iff (setting : Setting) {tree : Tree α} (filled : tree.isSkip = false)
    (rest : List (Tree α)) (next : Ordinals) (result : List (Statement α) × Ordinals) :
    statements setting next (tree :: rest) = .ok result ↔
      ∃ first others, statement setting next tree = .ok first ∧
        statements setting first.2 rest = .ok others ∧
          result = (first.1 :: others.1, others.2) := by
  simp only [statements, filled, Bool.false_eq_true, if_false, Refusal.bind_ok_iff]
  constructor
  · rintro ⟨first, accepted, others, remaining, same⟩
    exact ⟨first, others, accepted, remaining, (Except.ok.inj same).symm⟩
  · rintro ⟨first, others, accepted, remaining, rfl⟩
    exact ⟨first, accepted, others, remaining, rfl⟩

mutual

/-- A statement is accepted, whatever the numbers of its parts are, exactly when it names variables
that exist and its basic blocks fit them. -/
theorem statement_accepted_iff (setting : Setting) (tree : Tree α) (next : Ordinals) :
    (∃ result, statement setting next tree = .ok result) ↔
      tree.Respects setting.config.variableCount
        (BasicBlock.Fits setting.config.variableCount) := by
  cases tree with
  | skip => exact ⟨fun _ => trivial, fun _ => ⟨_, rfl⟩⟩
  | block children =>
    rw [Respects, ← statements_accepted_iff setting children next]
    simp only [statement_block_iff]
    constructor
    · rintro ⟨_, parts, accepted, _⟩
      exact ⟨parts, accepted⟩
    · rintro ⟨parts, accepted⟩
      exact ⟨_, parts, accepted, rfl⟩
  | loop condition body =>
    rw [Respects, ← statement_accepted_iff setting body next]
    simp only [statement_loop_iff]
    constructor
    · rintro ⟨_, inside, inner, accepted, _⟩
      exact ⟨inside, inner, accepted⟩
    · rintro ⟨inside, inner, accepted⟩
      exact ⟨_, inside, inner, accepted, rfl⟩
  | read target =>
    simp only [statement_read_iff, Respects]
    constructor
    · rintro ⟨_, inside, _⟩
      exact inside
    · intro inside
      exact ⟨_, inside, rfl⟩
  | write address value =>
    simp only [statement_write_iff, Respects]
    constructor
    · rintro ⟨_, first, second, _⟩
      exact ⟨first, second⟩
    · rintro ⟨first, second⟩
      exact ⟨_, first, second, rfl⟩
  | basic code =>
    rw [Respects, ← basic_accepted_iff setting code next.basicBlocks]
    simp only [statement_basic_iff]
    constructor
    · rintro ⟨_, compiled, accepted, _⟩
      exact ⟨compiled, accepted⟩
    · rintro ⟨compiled, accepted⟩
      exact ⟨_, compiled, accepted, rfl⟩

/-- Statements are accepted exactly when each of them is. The empty ones, which are left out, always
would be. -/
theorem statements_accepted_iff (setting : Setting) (trees : List (Tree α)) (next : Ordinals) :
    (∃ result, statements setting next trees = .ok result) ↔
      RespectsAll setting.config.variableCount
        (BasicBlock.Fits setting.config.variableCount) trees := by
  cases trees with
  | nil => exact ⟨fun _ => trivial, fun _ => ⟨_, rfl⟩⟩
  | cons tree rest =>
    cases empty : tree.isSkip with
    | true =>
      have idle : tree = .skip := by
        cases tree with
        | skip => rfl
        | block | loop | read | write | basic => cases empty
      simp only [statements, empty, if_true, RespectsAll]
      rw [statements_accepted_iff setting rest next, idle]
      exact ⟨fun others => ⟨trivial, others⟩, fun both => both.2⟩
    | false =>
      simp only [statements_cons_iff setting empty, RespectsAll]
      constructor
      · rintro ⟨_, first, others, accepted, remaining, _⟩
        exact ⟨(statement_accepted_iff setting tree next).mp ⟨first, accepted⟩,
          (statements_accepted_iff setting rest first.2).mp ⟨others, remaining⟩⟩
      · rintro ⟨fits, remainingFit⟩
        obtain ⟨first, accepted⟩ := (statement_accepted_iff setting tree next).mpr fits
        obtain ⟨others, remaining⟩ :=
          (statements_accepted_iff setting rest first.2).mpr remainingFit
        exact ⟨_, first, others, accepted, remaining, rfl⟩

end

/-- A tree compiles, instrumented or not, exactly when the machine is valid, the statements name
variables that exist and the basic blocks fit them. -/
theorem compile_accepted_iff (tree : Tree α) (config : MachineConfig) (instrumented : Bool) :
    (∃ program, tree.compile config instrumented = .ok program) ↔
      config.validate = .ok () ∧
        tree.Respects config.variableCount (BasicBlock.Fits config.variableCount) := by
  simp only [compile, Refusal.bind_ok_iff]
  rw [← statement_accepted_iff ⟨config, instrumented⟩ tree ⟨0, 0⟩]
  constructor
  · rintro ⟨_, _, valid, compiled, accepted, _⟩
    exact ⟨valid, compiled, accepted⟩
  · rintro ⟨valid, compiled, accepted⟩
    exact ⟨_, (), valid, compiled, accepted, rfl⟩

end Tree

end ProgramSearch
