import ProgramSearch.Proofs.Number.Small
import ProgramSearch.Proofs.Tree.Adequacy
import ProgramSearch.Proofs.Tree.Speculation

/-!
# Executing control trees

Without specialized forms and guards, a basic block replaces the variables by the values that eager
evaluation gives to its last slots. Every accepted tree of such blocks is executed as it means to be,
whether it is instrumented or not, with a profile or without one, and whatever blank pages there are.
-/

namespace ProgramSearch

variable {α : Type} [Number α]

/-- The variables after a basic block: the eager values of its last slots, one for each variable, all
computed from the variables before it. -/
def BasicBlock.eagerly (count : Nat) (code : BasicBlock α) (values : Array α) : Array α :=
  Array.ofFn fun index : Fin count =>
    Program.eager values code.nodes (code.nodes.size - count + index)

omit [Number α] in
/-- Overwriting a buffer of the right size leaves nothing of it. -/
theorem Program.overwritten_whole (values : Nat → α) (start : Nat) (buffer : Array α) :
    Program.overwritten values start buffer.size buffer =
      Array.ofFn fun index : Fin buffer.size => values (start + index) := by
  apply Array.ext
  · rw [Program.overwritten_size, Array.size_ofFn]
  · intro index inside _
    rw [Program.overwritten_size] at inside
    simp [Program.overwritten, inside]

/-- A machine puts the eager values of a basic block in the place of all variables. -/
theorem Machine.Holds.successors_eq {machine : Machine α} {count : Nat}
    (holds : machine.Holds count) (code : BasicBlock α) :
    machine.successors code.nodes count = code.eagerly count machine.values := by
  obtain ⟨_, rfl⟩ := holds
  exact Program.overwritten_whole _ _ _

namespace Tree

/-- A basic block without a specialized form and without guards. -/
def IsPlain (code : BasicBlock α) : Prop := code.specialized = none ∧ code.nodes.Unguarded

/-- Plain basic blocks put the eager values of their last slots in the place of the variables. -/
theorem plain_effective (setting : Setting) :
    Effective setting (BasicBlock.eagerly setting.config.variableCount)
      (IsPlain : BasicBlock α → Prop) := by
  rintro code ordinal compiled ⟨bare, unguarded⟩ accepted machine holds
  obtain ⟨baseline, specialized, rfl, _, _⟩ := (basic_ok_iff setting code ordinal _).mp accepted
  have discardable : code.Discardable := ⟨unguarded, fun _ given => by simp [bare] at given⟩
  obtain ⟨profile, ran⟩ := basic_exact accepted discardable machine holds.values
  rw [holds.successors_eq] at ran
  exact ⟨Array.size_ofFn, profile, ran⟩

/-- Accepted trees are executed as they mean to be. Every tree without specialized forms and guards
has exactly one ending from the store that its inputs start it with. An execution of the compiled
tree puts the variables of that ending into the buffer, or stops by its signal and leaves the buffer
as it was. Neither the instrumentation nor the profile matters, nor how many blank pages there are;
and since the pages that are left are blank again, the next execution finds a fresh memory too. -/
theorem execution_follows_meaning (tree : Tree α) (config : MachineConfig) (instrumented : Bool)
    (program : Executable α) (accepted : tree.compile config instrumented = .ok program)
    (plain : ∀ code ∈ tree.basicBlocks, code.specialized = none ∧ code.nodes.Unguarded)
    (inputs : Array α) :
    ∃ ending : Ending α,
      (∀ other, Executes config (BasicBlock.eagerly config.variableCount) tree
        (Store.initial config inputs) other ↔ other = ending) ∧
      ∀ (buffer : Array α) (pool : PagePool α) (profile : Option TreeProfile), pool.Blank →
        (program.execute inputs buffer pool profile).answer = ending.answer buffer ∧
          (program.execute inputs buffer pool profile).pool.Blank := by
  obtain ⟨_, fits⟩ := (compile_accepted_iff tree config instrumented).mp ⟨program, accepted⟩
  have respects : tree.Respects config.variableCount IsPlain :=
    respects_mono (fun _ both => both.2) tree (respects_and tree fits plain)
  have adequate : ∀ (buffer : Array α) {pool : PagePool α}, pool.Blank →
      ∀ profile, ∃ ending, Executes config (BasicBlock.eagerly config.variableCount) tree
        (Store.initial config inputs) ending ∧
        (program.execute inputs buffer pool profile).answer = ending.answer buffer := by
    intro buffer pool blank profile
    obtain ⟨ending, executes, answers, _⟩ := Executable.execute_adequate accepted
      (plain_effective ⟨config, instrumented⟩) respects blank inputs buffer profile
    exact ⟨ending, executes, answers⟩
  obtain ⟨ending, executes, _⟩ := adequate #[] PagePool.blank_empty none
  refine ⟨ending, fun other => ⟨fun another => another.deterministic executes, ?_⟩, ?_⟩
  · rintro rfl
    exact executes
  · intro buffer pool profile blank
    obtain ⟨another, executesToo, answers⟩ := adequate buffer blank profile
    obtain rfl := executesToo.deterministic executes
    exact ⟨answers, program.execute_blank inputs buffer blank profile⟩

/-- Adds up the numbers from the first variable down, while it is positive, and takes the sum through
memory into both variables. -/
def accumulation : Tree Small :=
  .block [.loop 0 (.block [.skip, .basic { nodes := #[some (.argument 0), some (.argument 1),
    some (.constant Number.one), some (.binary .sub 0 2), some (.binary .add 1 0), some (.move 3),
    some (.move 4)] }]), .write 0 1, .read 0]

instance {ε β : Type} [DecidableEq ε] [DecidableEq β] : DecidableEq (Except ε β)
  | .ok x, .ok y => decidable_of_iff (x = y) (by simp)
  | .error x, .error y => decidable_of_iff (x = y) (by simp)
  | .ok _, .error _ | .error _, .ok _ => isFalse nofun

/-- What an execution of a tree answers, if the tree is accepted. -/
def answer? (tree : Tree α) (config : MachineConfig) (instrumented : Bool)
    (inputs buffer : Array α) : Option (Except Halt Unit × Array α) :=
  (tree.compile config instrumented).toOption.map fun program =>
    (program.execute inputs buffer PagePool.empty none).answer

/-- A tree that answers is accepted. -/
theorem accepted_of_answer {tree : Tree α} {config : MachineConfig} {instrumented : Bool}
    {inputs buffer : Array α} {answer : Except Halt Unit × Array α}
    (answers : tree.answer? config instrumented inputs buffer = some answer) :
    ∃ program, tree.compile config instrumented = .ok program ∧
      (program.execute inputs buffer PagePool.empty none).answer = answer := by
  obtain ⟨program, found, same⟩ := Option.map_eq_some_iff.mp answers
  cases accepted : tree.compile config instrumented with
  | ok other =>
    rw [accepted] at found
    obtain rfl := Option.some.inj found
    exact ⟨other, rfl, same⟩
  | error fault =>
    rw [accepted] at found
    cases found

/-- Three iterations are enough to add up three numbers. With a budget of two, the third iteration
would start and the execution is stopped, with nothing written to the buffer. -/
theorem accumulation_follows_meaning :
    ∃ program short, accumulation.compile ⟨2, 2, 3, 1⟩ true = .ok program ∧
      accumulation.compile ⟨2, 2, 2, 1⟩ false = .ok short ∧
      (∀ code ∈ accumulation.basicBlocks,
        code.specialized = none ∧ code.nodes.Unguarded) ∧
      (∃ ending : Ending Small, Executes ⟨2, 2, 3, 1⟩ (BasicBlock.eagerly 2) accumulation
          (Store.initial ⟨2, 2, 3, 1⟩ #[Small.ofInt 3]) ending ∧
        ending.answer #[.undefined, .undefined] = (.ok (), #[Small.ofInt 6, Small.ofInt 6])) ∧
      ∃ ending : Ending Small, Executes ⟨2, 2, 2, 1⟩ (BasicBlock.eagerly 2) accumulation
          (Store.initial ⟨2, 2, 2, 1⟩ #[Small.ofInt 3]) ending ∧
        ending.answer #[.undefined, .undefined] =
          (.error (.signal .loopBudgetExceeded), #[.undefined, .undefined]) := by
  have plain : ∀ code ∈ accumulation.basicBlocks,
      code.specialized = none ∧ code.nodes.Unguarded := by decide
  have sums : accumulation.answer? ⟨2, 2, 3, 1⟩ true #[Small.ofInt 3] #[.undefined, .undefined] =
      some (.ok (), #[Small.ofInt 6, Small.ofInt 6]) := by decide +kernel
  have stops : accumulation.answer? ⟨2, 2, 2, 1⟩ false #[Small.ofInt 3] #[.undefined, .undefined] =
      some (.error (.signal .loopBudgetExceeded), #[.undefined, .undefined]) := by decide +kernel
  obtain ⟨program, accepted, summed⟩ := accepted_of_answer sums
  obtain ⟨short, acceptedShort, stopped⟩ := accepted_of_answer stops
  obtain ⟨ending, only, same⟩ := execution_follows_meaning accumulation ⟨2, 2, 3, 1⟩ true program
    accepted plain #[Small.ofInt 3]
  obtain ⟨early, onlyEarly, sameEarly⟩ := execution_follows_meaning accumulation ⟨2, 2, 2, 1⟩ false
    short acceptedShort plain #[Small.ofInt 3]
  obtain ⟨answers, _⟩ := same #[.undefined, .undefined] _ none PagePool.blank_empty
  obtain ⟨answersEarly, _⟩ := sameEarly #[.undefined, .undefined] _ none PagePool.blank_empty
  exact ⟨program, short, accepted, acceptedShort, plain,
    ⟨ending, (only ending).mpr rfl, answers.symm.trans summed⟩,
    early, (onlyEarly early).mpr rfl, answersEarly.symm.trans stopped⟩

end Tree

end ProgramSearch
