import ProgramSearch.Proofs.Program.Execution
import ProgramSearch.Proofs.Tree.Acceptance
import ProgramSearch.Proofs.Tree.Action

/-!
# Compiled trees miss no input

A machine keeps as many variables as it has, and a basic block of an accepted tree reads no other
inputs. An execution of a compiled tree can therefore only be stopped by a signal, and a run always
has outputs.
-/

namespace ProgramSearch

variable {α : Type}

/-- A machine with a number of variables, and room for as many outputs. -/
structure Machine.Holds (count : Nat) (machine : Machine α) : Prop where
  values : machine.values.size = count
  scratch : machine.scratch.size = count

namespace Action

variable {β γ : Type} {count : Nat}

/-- An outcome that leaves a machine with its variables, or is a stop by a signal. -/
inductive Sound (count : Nat) : EStateM.Result Halt (Machine α) β → Prop where
  | ended (value : β) {after : Machine α} : after.Holds count → Sound count (.ok value after)
  | stopped (cause : Signal) (after : Machine α) : Sound count (.error (.signal cause) after)

/-- On a machine with the number of variables, an action is only stopped by signals and keeps the
number of variables otherwise. -/
def Safe (count : Nat) (action : Action α β) : Prop :=
  ∀ machine, machine.Holds count → Sound count (action machine)

namespace Safe

theorem pure (value : β) : Safe count (Pure.pure value : Action α β) :=
  fun _ holds => .ended value holds

theorem stop (cause : Signal) : Safe count (Action.stop cause : Action α β) :=
  fun machine _ => .stopped cause machine

/-- A sequence of safe parts is safe. -/
theorem bind {first : Action α β} {next : β → Action α γ} (start : Safe count first)
    (continued : ∀ value, Safe count (next value)) : Safe count (first >>= next) := by
  intro machine holds
  have reached := start machine holds
  change Sound count (EStateM.bind first next machine)
  simp only [EStateM.bind]
  generalize first machine = outcome at reached ⊢
  cases reached with
  | ended value holds => exact continued value _ holds
  | stopped cause after => exact .stopped cause after

/-- Being safe is a law that sequences keep. -/
theorem closed : Closed fun _ (action : Action α _) => Safe count action :=
  ⟨pure, stop, bind⟩

theorem note (block : Option Nat) : Safe count (Action.note block : Action α Unit) := by
  intro machine holds
  cases block with
  | none => exact .ended () holds
  | some block => exact .ended () ⟨holds.values, holds.scratch⟩

theorem spend : Safe count (Action.spend : Action α Unit) := by
  intro machine holds
  obtain ⟨rest, _, ran⟩ | ⟨_, ran⟩ := spend_cases machine <;> rw [ran]
  · exact .ended () ⟨holds.values, holds.scratch⟩
  · exact .stopped _ _

variable [Number α]

theorem get (index : Nat) : Safe count (Action.get index : Action α α) :=
  fun _ holds => .ended _ holds

theorem read (target : Nat) : Safe count (Action.read target : Action α Unit) :=
  fun _ holds => .ended () ⟨(Array.size_setIfInBounds ..).trans holds.values, holds.scratch⟩

theorem write (address value : Nat) : Safe count (Action.write address value : Action α Unit) := by
  intro machine holds
  obtain ⟨memory, pool, _, ran⟩ | ⟨cause, _, _, ran⟩ := write_cases address value machine <;> rw [ran]
  · exact .ended () ⟨holds.values, holds.scratch⟩
  · exact .stopped cause _

/-- A loop with a safe body is safe. -/
theorem repeat_while (condition : Nat) {body : Action α Unit} (safe : Safe count body)
    (fuel : Nat) : Safe count (repeatWhile condition body fuel) :=
  closed.repeat_while condition (get condition) spend safe fuel

end Safe

end Action

namespace Tree

variable [Number α] {setting : Setting}

/-- A straight-line program that was accepted has a result for every variable, or it is stopped by a
signal. -/
theorem scalar_sound {nodes : Program α} {profile : Option Nat} {program : Compiled α}
    (accepted : setting.scalar nodes profile = .ok program) {machine : Machine α}
    (holds : machine.Holds setting.config.variableCount) :
    match (program.run machine.values machine.scratch).result with
    | .ok outputs => outputs.size = setting.config.variableCount
    | .error halt => ∃ cause, halt = .signal cause := by
  obtain ⟨compiled, within⟩ := (scalar_ok_iff setting nodes profile program).mp accepted
  obtain ⟨ready, _, linked⟩ := Program.linked_of_compile compiled
  have settled := linked.run_settles (Program.eager_explains machine.values nodes ready.valid)
    (holds.values ▸ within) machine.scratch
  cases ran : (program.run machine.values machine.scratch).result with
  | ok outputs =>
    rw [ran] at settled
    have same : outputs = _ := settled
    simp only [same, Program.overwritten_size, holds.scratch]
  | error halt =>
    rw [ran] at settled
    cases settled with
    | guarded => exact ⟨_, rfl⟩
    | operator => exact ⟨_, rfl⟩

/-- Replacing the variables by the results of an accepted program is safe. -/
theorem replace_all_safe {nodes : Program α} {profile : Option Nat} {program : Compiled α}
    (accepted : setting.scalar nodes profile = .ok program) :
    Action.Safe setting.config.variableCount (Action.replaceAll program) := by
  intro machine holds
  have sound := scalar_sound accepted holds
  obtain ⟨outputs, ended, ran⟩ | ⟨halt, ended, ran⟩ := Action.replace_all_cases program machine
    <;> rw [ended] at sound <;> rw [ran]
  · exact .ended () ⟨sound, sound⟩
  · obtain ⟨cause, rfl⟩ := sound
    exact .stopped cause _

/-- A basic block that was accepted is safe, in both of its forms. -/
theorem basic_safe {code : BasicBlock α} {ordinal : Nat} {compiled : Statement α}
    (accepted : setting.basic code ordinal = .ok compiled) :
    Action.Safe setting.config.variableCount compiled.run := by
  obtain ⟨baseline, specialized, rfl, first, second⟩ :=
    (basic_ok_iff setting code ordinal compiled).mp accepted
  have fallback := replace_all_safe first
  cases given : code.specialized with
  | none =>
    rw [given, Refusal.mapM_ok_iff] at second
    subst second
    exact fallback
  | some nodes =>
    rw [given, Refusal.mapM_ok_iff] at second
    obtain ⟨program, found, rfl⟩ := second
    intro machine holds
    have sound := scalar_sound found holds
    simp only [Statement.run]
    obtain ⟨outputs, ended, ran⟩ | ⟨_, ran⟩ | ⟨halt, ended, _, ran⟩ :=
      Action.basic_cases baseline program machine <;> rw [ran]
    · rw [ended] at sound
      exact .ended () ⟨sound, sound⟩
    · exact fallback machine holds
    · rw [ended] at sound
      obtain ⟨cause, rfl⟩ := sound
      exact .stopped cause _

mutual

/-- A statement of an accepted tree is safe. -/
theorem statement_safe (setting : Setting) (tree : Tree α) (next : Ordinals)
    {compiled : Statement α × Ordinals} (accepted : statement setting next tree = .ok compiled) :
    Action.Safe setting.config.variableCount compiled.1.run := by
  cases tree with
  | skip =>
    obtain rfl := Except.ok.inj accepted
    exact .pure ()
  | block children =>
    obtain ⟨parts, inside, rfl⟩ := (statement_block_iff _ _ _ _).mp accepted
    exact (Action.Safe.note _).bind fun _ => statements_safe setting children next inside
  | loop condition body =>
    obtain ⟨_, inner, inside, rfl⟩ := (statement_loop_iff _ _ _ _ _).mp accepted
    intro machine
    exact (statement_safe setting body next inside).repeat_while condition.toNat
      machine.remaining machine
  | read target =>
    obtain ⟨_, rfl⟩ := (statement_read_iff _ _ _ _).mp accepted
    exact .read target.toNat
  | write address value =>
    obtain ⟨_, _, rfl⟩ := (statement_write_iff _ _ _ _ _).mp accepted
    exact .write address.toNat value.toNat
  | basic code =>
    obtain ⟨block, inside, rfl⟩ := (statement_basic_iff _ _ _ _).mp accepted
    exact basic_safe inside

/-- The statements of a block of an accepted tree are safe. -/
theorem statements_safe (setting : Setting) (trees : List (Tree α)) (next : Ordinals)
    {compiled : List (Statement α) × Ordinals}
    (accepted : statements setting next trees = .ok compiled) :
    Action.Safe setting.config.variableCount (Statement.runAll compiled.1) := by
  cases trees with
  | nil =>
    obtain rfl := Except.ok.inj accepted
    exact .pure ()
  | cons tree rest =>
    cases empty : tree.isSkip with
    | true =>
      simp only [statements, empty, if_true] at accepted
      exact statements_safe setting rest next accepted
    | false =>
      obtain ⟨first, others, start, remaining, rfl⟩ :=
        (statements_cons_iff setting empty rest next compiled).mp accepted
      exact (statement_safe setting tree next start).bind fun _ =>
        statements_safe setting rest first.2 remaining

end

/-- A machine starts with its variables. -/
theorem start_holds (program : Executable α) (inputs : Array α) (pool : PagePool α)
    (profile : Option TreeProfile) :
    (program.start inputs pool profile).Holds program.config.variableCount := by
  constructor
  · simp only [Executable.start, Array.size_append, Array.size_extract, Array.size_replicate]
    omega
  · exact Array.size_replicate

/-- A run of a compiled tree has an output for each cell of the buffer. -/
theorem run_outputs {tree : Tree α} {config : MachineConfig} {instrumented : Bool}
    {program : Executable α} (accepted : tree.compile config instrumented = .ok program)
    (inputs buffer : Array α) (profile : Option TreeProfile) :
    ∃ outputs noted, program.run inputs buffer profile = (some outputs, noted) ∧
      outputs.size = buffer.size := by
  simp only [compile, Refusal.bind_ok_iff] at accepted
  obtain ⟨_, _, root, inside, same⟩ := accepted
  obtain rfl := Except.ok.inj same
  have sound := statement_safe _ tree _ inside _
    (start_holds ⟨root.1, config, instrumented⟩ inputs PagePool.empty profile)
  simp only [Executable.run, Executable.execute]
  generalize root.1.run _ = outcome at sound ⊢
  cases sound with
  | @ended _ after holds =>
    refine ⟨_, _, rfl, ?_⟩
    simp only [Array.size_append, Array.size_extract]
    omega
  | stopped cause after => exact ⟨_, _, rfl, Array.size_map⟩

end Tree

end ProgramSearch
