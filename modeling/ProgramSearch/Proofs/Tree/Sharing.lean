import ProgramSearch.Proofs.Tree.Action
import ProgramSearch.Proofs.Worker.Process

/-!
# Executions over a shared pool

An execution takes a page from the pool when it first writes to a page, and gives all its pages back
when it comes to an end, also when it is stopped. Between these steps others may take and give
pages. With blank pages, its answer is the one that it gives with pages of its own.
-/

namespace ProgramSearch

variable {α : Type}

/-- All pages of the machine are in its memory, and have the full size. -/
def Machine.Detached [Number α] (machine : Machine α) : Prop :=
  machine.pool = PagePool.empty ∧ machine.memory.Whole

/-- The machine without its pool. -/
def Machine.bare (machine : Machine α) : Machine α := { machine with pool := .empty }

namespace Shared

variable [Number α]

/-- Write with a page of the pool, if the write wants one. -/
def write (address value : Nat) : Shared α Halt (Machine α) Unit := fun machine =>
  match machine.memory.demand? (machine.values.getD address Number.zero) with
  | none => lift (Action.write address value) machine
  | some _ => .take fun page => lift (Action.write address value) { machine with pool := ⟨[page]⟩ }

/-- A write that takes no page. -/
theorem write_kept {machine : Machine α} {address : Nat}
    (wanted : machine.memory.demand? (machine.values.getD address Number.zero) = none)
    (value : Nat) :
    write address value machine = .pause (.done (Action.write address value machine)) := by
  rw [write, wanted]
  rfl

/-- A write that takes a page. -/
theorem write_grown {machine : Machine α} {address : Nat} {number : Int}
    (wanted : machine.memory.demand? (machine.values.getD address Number.zero) = some number)
    (value : Nat) :
    write address value machine = .take fun page =>
      .pause (.done (Action.write address value { machine with pool := ⟨[page]⟩ })) := by
  rw [write, wanted]
  rfl

/-- Repeat a body while a variable is positive. -/
def repeatWhile (condition : Nat) (body : Shared α Halt (Machine α) Unit) :
    Nat → Shared α Halt (Machine α) Unit
  | 0 => do
    if Number.positive (← lift (Action.get condition)) then lift (Action.stop .loopBudgetExceeded)
  | fuel + 1 => do
    if Number.positive (← lift (Action.get condition)) then
      lift Action.spend
      body
      repeatWhile condition body fuel

end Shared

namespace Statement

variable [Number α]

mutual

/-- Run a statement with pages of the pool. -/
def share : Statement α → Shared α Halt (Machine α) Unit
  | .skip => pure ()
  | .block noted children => do
    Shared.lift (Action.note noted)
    shareAll children
  | .loop condition body => do
    let machine ← Shared.lift (getThe (Machine α))
    Shared.repeatWhile condition body.share machine.remaining
  | .read target => Shared.lift (Action.read target)
  | .write address value => Shared.write address value
  | .basic baseline specialized => Shared.lift (Action.basic baseline specialized)

/-- Run statements one after another with pages of the pool. -/
def shareAll : List (Statement α) → Shared α Halt (Machine α) Unit
  | [] => pure ()
  | statement :: rest => do
    statement.share
    shareAll rest

end

end Statement

namespace Executable

variable [Number α]

/-- How an execution ends, its buffer and its profile, by what its root leaves. -/
def ending (buffer : Array α) :
    EStateM.Result Halt (Machine α) Unit → Except Halt Unit × Array α × Option TreeProfile
  | .ok _ machine =>
    let values := machine.values
    (.ok (), values.extract 0 buffer.size ++ buffer.extract values.size buffer.size,
      machine.profile)
  | .error halt machine => (.error halt, buffer, machine.profile)

/-- What an execution answers to a trainer. -/
def answer :
    Except Halt Unit × Array α × Option TreeProfile → Option (Array α) × Option TreeProfile
  | (.ok _, outputs, profile) => (some outputs, profile)
  | (.error (.signal _), outputs, profile) => (some (outputs.map fun _ => Number.nan), profile)
  | (.error .missingInput, _, profile) => (none, profile)

/-- Execute with pages of the pool, give them back and answer. -/
def share (program : Executable α) (inputs buffer : Array α) (profile : Option TreeProfile) :
    Process α (Option (Array α) × Option TreeProfile) :=
  (program.root.share (program.start inputs PagePool.empty profile)).bind fun result =>
    .give ((Shared.stateAfter result).memory.pages.toList.map (·.2))
      (.done (answer (ending buffer result)))

end Executable

namespace Action

variable {β : Type}

/-- An outcome without the pool. -/
def bareResult : EStateM.Result Halt (Machine α) β → EStateM.Result Halt (Machine α) β
  | .ok value machine => .ok value machine.bare
  | .error halt machine => .error halt machine.bare

/-- An action that leaves the pages alone and does not look at the pool, also when it fails. -/
def KeepsPages (action : Action α β) : Prop :=
  ∀ machine, (Shared.stateAfter (action machine)).memory = machine.memory ∧
    (Shared.stateAfter (action machine)).pool = machine.pool ∧
    action machine.bare = bareResult (action machine)

theorem stop_keeps (cause : Signal) : KeepsPages (stop cause : Action α β) :=
  fun _ => ⟨rfl, rfl, rfl⟩

theorem note_keeps (block : Option Nat) : KeepsPages (note block : Action α Unit) := by
  intro machine
  cases block <;> exact ⟨rfl, rfl, rfl⟩

theorem spend_keeps : KeepsPages (spend : Action α Unit) := by
  rintro ⟨values, scratch, memory, pool, remaining, profile⟩
  cases remaining <;> exact ⟨rfl, rfl, rfl⟩

variable [Number α]

theorem get_keeps (index : Nat) : KeepsPages (get index : Action α α) :=
  fun _ => ⟨rfl, rfl, rfl⟩

theorem read_keeps (target : Nat) : KeepsPages (read target : Action α Unit) :=
  fun _ => ⟨rfl, rfl, rfl⟩

theorem replace_all_keeps (program : Compiled α) : KeepsPages (replaceAll program) := by
  intro machine
  obtain ⟨outputs, ended, ran⟩ | ⟨halt, ended, ran⟩ := replace_all_cases program machine
  · have bare : replaceAll program machine.bare = .ok () _ := replace_all_done ended
    rw [ran, bare]
    exact ⟨rfl, rfl, rfl⟩
  · have bare : replaceAll program machine.bare = .error halt _ := replace_all_stopped ended
    rw [ran, bare]
    exact ⟨rfl, rfl, rfl⟩

theorem basic_keeps (baseline : Compiled α) (specialized : Option (Compiled α)) :
    KeepsPages (basic baseline specialized) := by
  cases specialized with
  | none => exact replace_all_keeps baseline
  | some program =>
    intro machine
    obtain ⟨outputs, ended, ran⟩ | ⟨ended, ran⟩ | ⟨halt, ended, final, ran⟩ :=
      basic_cases baseline program machine
    · have bare : basic baseline (some program) machine.bare = .ok () _ := basic_done ended
      rw [ran, bare]
      exact ⟨rfl, rfl, rfl⟩
    · have bare : basic baseline (some program) machine.bare = replaceAll baseline machine.bare :=
        basic_bailed ended
      rw [ran, bare]
      exact replace_all_keeps baseline machine
    · have bare : basic baseline (some program) machine.bare = .error halt _ :=
        basic_stopped ended final
      rw [ran, bare]
      exact ⟨rfl, rfl, rfl⟩

end Action

namespace Shared.Follows

variable [Number α] {β : Type}

/-- An action that leaves the pages alone is done without the pool. -/
theorem kept {action : Action α β} (keeps : action.KeepsPages) :
    Follows Machine.Detached (Shared.lift action : Shared α Halt (Machine α) β) action := by
  apply lift
  intro machine detached
  obtain ⟨memory, pool, _⟩ := keeps machine
  exact ⟨pool.trans detached.1, memory ▸ detached.2⟩

/-- A write with a blank page of the pool is a write with a page of its own. -/
theorem write (address value : Nat) :
    Follows Machine.Detached (Shared.write address value : Shared α Halt (Machine α) Unit)
      (Action.write address value) := by
  rintro ⟨values, scratch, memory, pool, remaining, profile⟩ ⟨rfl, whole⟩
  cases wanted : memory.demand? (values.getD address Number.zero) with
  | none =>
    rw [write_kept wanted]
    refine ⟨⟨1, .pause (.done _)⟩, ?_⟩
    rcases Memory.write_of_none wanted (values.getD value Number.zero) with
      ⟨after, writes, _, keeps⟩ | ⟨cause, fails⟩
    · rw [Action.write_done (writes _)]
      exact ⟨rfl, keeps whole⟩
    · rw [Action.write_refused (fails _)]
      exact ⟨rfl, whole⟩
  | some number =>
    obtain ⟨after, writes, _, keeps⟩ :=
      Memory.write_of_some wanted Page.blank (values.getD value Number.zero)
    rw [write_grown wanted, Action.write_done (writes .empty rfl)]
    refine ⟨⟨2, .take (.pause ?_)⟩, rfl, keeps Array.size_replicate whole⟩
    rw [Action.write_done (writes ⟨[Page.blank]⟩ rfl)]
    exact .done _

/-- A loop comes to the same if its body does. The induction is on the fuel. -/
theorem repeat_while (condition : Nat) {body : Shared α Halt (Machine α) Unit}
    {plain : Action α Unit} (follows : Follows Machine.Detached body plain) (fuel : Nat) :
    Follows Machine.Detached (Shared.repeatWhile condition body fuel)
      (Action.repeatWhile condition plain fuel) := by
  have reads : Follows Machine.Detached
      (Shared.lift (Action.get condition) : Shared α Halt (Machine α) α) (Action.get condition) :=
    kept (Action.get_keeps condition)
  induction fuel with
  | zero =>
    apply bind reads
    intro value
    split
    · exact kept (Action.stop_keeps _)
    · exact pure ()
  | succ fuel inductionHypothesis =>
    apply bind reads
    intro value
    split
    · exact bind (kept Action.spend_keeps) fun _ => bind follows fun _ => inductionHypothesis
    · exact pure ()

end Shared.Follows

section Executions

variable [Number α]

mutual

/-- A statement comes to the same over a shared pool. -/
theorem Statement.share_follows : ∀ statement : Statement α,
    Shared.Follows Machine.Detached statement.share statement.run
  | .skip => .pure ()
  | .block noted children =>
    .bind (.kept (Action.note_keeps noted)) fun _ => share_all_follows children
  | .loop condition body =>
    .bind (.lift fun _ detached => detached) fun machine =>
      .repeat_while condition body.share_follows machine.remaining
  | .read target => .kept (Action.read_keeps target)
  | .write address value => .write address value
  | .basic baseline specialized => .kept (Action.basic_keeps baseline specialized)

theorem Statement.share_all_follows : ∀ statements : List (Statement α),
    Shared.Follows Machine.Detached (Statement.shareAll statements) (Statement.runAll statements)
  | [] => .pure ()
  | statement :: rest => .bind statement.share_follows fun _ => share_all_follows rest

end

/-- An execution ends with what its root leaves, and gives all pages back. -/
theorem Executable.execute_ending (program : Executable α) (inputs buffer : Array α)
    (pool : PagePool α) (profile : Option TreeProfile) :
    let result := program.root.run (program.start inputs pool profile)
    let left := Shared.stateAfter result
    program.execute inputs buffer pool profile =
      ⟨(ending buffer result).1, (ending buffer result).2.1, (ending buffer result).2.2,
        left.memory.release left.pool⟩ := by
  rw [execute]
  cases program.root.run (program.start inputs pool profile) <;> rfl

/-- A run answers what an execution with pages of its own answers. -/
theorem Executable.run_answers (program : Executable α) (inputs buffer : Array α)
    (profile : Option TreeProfile) :
    program.run inputs buffer profile =
      answer (ending buffer (program.root.run (program.start inputs PagePool.empty profile))) := by
  rw [run, execute_ending]
  generalize ending buffer _ = ended
  obtain ⟨ending, outputs, profile⟩ := ended
  cases ending with
  | ok _ => rfl
  | error halt => cases halt <;> rfl

/-- An execution over a shared pool gives the answer of one with pages of its own. -/
theorem Executable.share_yields (program : Executable α) (inputs buffer : Array α)
    (profile : Option TreeProfile) :
    (program.share inputs buffer profile).Yields (program.run inputs buffer profile) := by
  obtain ⟨yields, _, whole⟩ := program.root.share_follows
    (program.start inputs PagePool.empty profile) ⟨rfl, Memory.whole_empty _⟩
  rw [run_answers]
  apply yields.bind
  refine ⟨_, .give ?_ (.done _)⟩
  intro page member
  obtain ⟨⟨number, _⟩, held, rfl⟩ := List.mem_map.mp member
  exact whole number _ (Std.TreeMap.mem_toList_iff_getElem?_eq_some.mp held)

end Executions

end ProgramSearch
