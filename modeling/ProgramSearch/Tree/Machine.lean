import ProgramSearch.Memory.Paged
import ProgramSearch.Program.Compilation
import ProgramSearch.Tree.Profile

/-!
# Machines

A machine holds the variables, the memory and the remaining loop budget of one
execution. Compiling a control tree checks its variables and compiles its basic
blocks; running the result changes a machine or stops it by a signal. A machine that
is profiled keeps its notes also when it is stopped.

Every loop iteration takes one unit of the budget, over all loops together, so the
budget that remains bounds the number of iterations that can follow.
-/

namespace ProgramSearch

/-- Shape and limits of a machine. -/
structure MachineConfig where
  variableCount : Nat
  arguments : Nat
  /-- Loop iterations of one execution. -/
  loopBudget : Nat
  /-- Memory pages of one execution. -/
  maxPages : Nat
deriving DecidableEq, Repr

namespace MachineConfig

/-- One more than the greatest number of a variable. -/
def variableLimit : Nat := 2 ^ 16

def validate (config : MachineConfig) : Except Fault Unit :=
  if config.arguments = 0 then .error .noArguments
  else if config.variableCount < config.arguments then
    .error (.misfit (.argumentsBeyondVariables config.arguments config.variableCount))
  else if variableLimit < config.variableCount then
    .error (.misfit (.variableCount config.variableCount))
  else .ok ()

end MachineConfig

/-- The state of one execution. -/
structure Machine (α : Type) where
  /-- The values of the variables. -/
  values : Array α
  /-- Where a basic block puts its outputs before they replace the variables. A block that
  stops leaves it as it was. -/
  scratch : Array α
  memory : Memory α
  pool : PagePool α
  remaining : Nat
  profile : Option TreeProfile

/-- A computation on a machine. A machine that is stopped keeps what it had done. -/
abbrev Action (α : Type) := EStateM Halt (Machine α)

/-- A compiled control tree. -/
inductive Statement (α : Type) where
  | skip
  /-- A block with the number that it is noted by, if it is instrumented. -/
  | block (noted : Option Nat) (children : List (Statement α))
  | loop (condition : Nat) (body : Statement α)
  | read (target : Nat)
  | write (address value : Nat)
  | basic (baseline : Compiled α) (specialized : Option (Compiled α))

namespace Action

variable {α : Type} [Number α]

def stop {β : Type} (cause : Signal) : Action α β := throw (.signal cause)

def ofExcept {β : Type} : Except Halt β → Action α β
  | .ok value => pure value
  | .error halt => throw halt

/-- The value of a variable. -/
def get (index : Nat) : Action α α := do
  let machine ← getThe (Machine α)
  pure (machine.values.getD index Number.zero)

def set (index : Nat) (value : α) : Action α Unit :=
  modify fun machine =>
    { machine with values := machine.values.setIfInBounds index value }

/-- Note that a block was entered, if the machine is profiled. -/
def note (block : Option Nat) : Action α Unit :=
  match block with
  | none => pure ()
  | some ordinal =>
    modify fun machine =>
      { machine with profile := machine.profile.map (·.markReached ordinal) }

/-- Take one unit of the loop budget. -/
def spend : Action α Unit := do
  let machine ← getThe (Machine α)
  match machine.remaining with
  | 0 => stop .loopBudgetExceeded
  | rest + 1 => EStateM.set { machine with remaining := rest }

def read (target : Nat) : Action α Unit := do
  let machine ← getThe (Machine α)
  set target (machine.memory.read (machine.values.getD target Number.zero))

def write (address value : Nat) : Action α Unit := do
  let machine ← getThe (Machine α)
  let place := machine.values.getD address Number.zero
  let content := machine.values.getD value Number.zero
  match Memory.write place content (machine.memory, machine.pool) with
  | .ok _ (memory, pool) => EStateM.set { machine with memory, pool }
  | .error cause (memory, pool) =>
    EStateM.set { machine with memory, pool }
    stop cause

/-- Run a compiled basic block on the variables into the scratch space, and replace all
variables by it. Its reports go to the profile, if there is one, even when it stops. -/
def replaceAll (program : Compiled α) : Action α Unit := do
  let machine ← getThe (Machine α)
  let traced := program.run machine.values machine.scratch
  EStateM.set { machine with
    profile := machine.profile.map fun profile => traced.reports.foldl TreeProfile.record profile }
  let outputs ← ofExcept traced.result
  modify fun machine => { machine with values := outputs, scratch := outputs }

/-- Run a basic block: the specialized form first, and the baseline if that bails out or
there is none. The specialized form makes no reports and leaves the variables alone
when it bails out. -/
def basic (baseline : Compiled α) (specialized : Option (Compiled α)) : Action α Unit :=
  match specialized with
  | none => replaceAll baseline
  | some program => do
    let machine ← getThe (Machine α)
    match (program.run machine.values machine.scratch).result with
    | .ok outputs => EStateM.set { machine with values := outputs, scratch := outputs }
    | .error (.signal .bailout) => replaceAll baseline
    | .error halt => throw halt

/-- Repeat a body while a variable is positive. Each iteration first takes a unit of the
budget. The fuel is the budget that remains at the start: when it is used up, so is
the budget. -/
def repeatWhile (condition : Nat) (body : Action α Unit) : Nat → Action α Unit
  | 0 => do
    if Number.positive (← get condition) then stop .loopBudgetExceeded
  | fuel + 1 => do
    if Number.positive (← get condition) then
      spend
      body
      repeatWhile condition body fuel

end Action

namespace Statement

variable {α : Type} [Number α]

mutual

/-- Run a statement. -/
def run : Statement α → Action α Unit
  | .skip => pure ()
  | .block noted children => do
    Action.note noted
    runAll children
  | .loop condition body => do
    let machine ← getThe (Machine α)
    Action.repeatWhile condition body.run machine.remaining
  | .read target => Action.read target
  | .write address value => Action.write address value
  | .basic baseline specialized => Action.basic baseline specialized

/-- Run statements one after another. -/
def runAll : List (Statement α) → Action α Unit
  | [] => pure ()
  | statement :: rest => do
    statement.run
    runAll rest

end

end Statement

/-- A compiled control tree with the machine that it runs on. -/
structure Executable (α : Type) where
  root : Statement α
  config : MachineConfig
  instrumented : Bool

namespace Executable

variable {α : Type} [Number α]

/-- The machine at the start: the arguments are copied from the inputs as far as these
reach, and every other variable and the scratch space are zero. -/
def start (program : Executable α) (inputs : Array α) (pool : PagePool α)
    (profile : Option TreeProfile) : Machine α :=
  let config := program.config
  let given := inputs.extract 0 (min config.arguments config.variableCount)
  ⟨given ++ Array.replicate (config.variableCount - given.size) Number.zero,
    Array.replicate config.variableCount Number.zero,
    Memory.empty config.maxPages, pool, config.loopBudget, profile⟩

/-- What an execution leaves behind, whether it came to an end or was stopped. -/
structure Outcome (α : Type) where
  ending : Except Halt Unit
  /-- The buffer of the caller. -/
  outputs : Array α
  profile : Option TreeProfile
  pool : PagePool α

/-- What the caller sees: whether the execution came to an end, and the buffer. -/
def Outcome.answer (outcome : Outcome α) : Except Halt Unit × Array α :=
  (outcome.ending, outcome.outputs)

/-- Execute with the pages of a pool, which come back at the end. On success the
variables replace the leading values of the buffer; the rest of a longer buffer
stays. -/
def execute (program : Executable α) (inputs buffer : Array α) (pool : PagePool α)
    (profile : Option TreeProfile) : Outcome α :=
  match program.root.run (program.start inputs pool profile) with
  | .ok _ machine =>
    let values := machine.values
    ⟨.ok (), values.extract 0 buffer.size ++ buffer.extract values.size buffer.size,
      machine.profile, machine.memory.release machine.pool⟩
  | .error halt machine =>
    ⟨.error halt, buffer, machine.profile, machine.memory.release machine.pool⟩

/-- Execute with pages of its own. A signal makes every output "not a number"; reading an
input that is not there is still a failure. -/
def run (program : Executable α) (inputs buffer : Array α) (profile : Option TreeProfile) :
    Option (Array α) × Option TreeProfile :=
  let outcome := program.execute inputs buffer PagePool.empty profile
  match outcome.ending with
  | .ok _ => (some outcome.outputs, outcome.profile)
  | .error (.signal _) => (some (outcome.outputs.map fun _ => Number.nan), outcome.profile)
  | .error .missingInput => (none, outcome.profile)

end Executable

end ProgramSearch
