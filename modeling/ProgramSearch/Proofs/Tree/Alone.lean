import ProgramSearch.Proofs.Tree.Sharing

/-!
# Executions that are alone with a pool

While nobody else uses the pool, a thread does with it what an execution does: it gives the same
answer, and leaves the same pages in the same order. This holds of every pool, whatever its pages
contain.
-/

namespace ProgramSearch

variable {α : Type} [Number α]

namespace Process

variable {β γ : Type} {process after : Process α β} {pool rest last : PagePool α} {value : β}

/-- A process comes to its end while nobody else uses the pool. -/
inductive Runs : Process α β → PagePool α → β → PagePool α → Prop
  | done (value : β) (pool : PagePool α) : Runs (.done value) pool value pool
  | step {process after : Process α β} {pool rest last : PagePool α} {value : β} :
      process.Step pool after rest → Runs after rest value last → Runs process pool value last

/-- What follows a process does not keep it from its steps. -/
theorem Step.bind (steps : process.Step pool after rest) (next : β → Process α γ) :
    (process.bind next).Step pool (after.bind next) rest := by
  cases steps with
  | pause => exact .pause _ _
  | take => exact .take _ _
  | give before others page => exact .give before others page _ _
  | given => exact .given _ _

/-- What follows a process starts with its value and the pool that it leaves. -/
theorem Runs.bind {next : β → Process α γ} {final : γ} (runs : process.Runs pool value rest)
    (goesOn : (next value).Runs rest final last) : (process.bind next).Runs pool final last := by
  induction runs with
  | done => exact goesOn
  | step steps _ inductionHypothesis => exact .step (steps.bind next) (inductionHypothesis goesOn)

/-- Pages can be given back in the order in which they are listed. -/
theorem Runs.give (pages : List (Page α))
    (runs : process.Runs (pages.foldl PagePool.give pool) value last) :
    (Process.give pages process).Runs pool value last := by
  induction pages generalizing pool with
  | nil => exact .step (.given _ _) runs
  | cons page others inductionHypothesis =>
    exact .step (.give [] others page _ _) (inductionHypothesis runs)

end Process

namespace Shared

open ProgramSearch.Action

variable {β γ : Type}

/-- With the pool for itself, a shared action does what an action does with the pool of its
machine. -/
def Alone (shared : Shared α Halt (Machine α) β) (plain : Action α β) : Prop :=
  ∀ machine, (shared machine.bare).Runs machine.pool (bareResult (plain machine))
    (stateAfter (plain machine)).pool

namespace Alone

theorem pure (value : β) :
    Alone (Pure.pure value : Shared α Halt (Machine α) β) (Pure.pure value) :=
  fun _ => .done _ _

theorem lift {action : Action α β} (keeps : action.KeepsPages) :
    Alone (Shared.lift action) action := by
  intro machine
  obtain ⟨_, pool, bare⟩ := keeps machine
  rw [Shared.lift, bare, pool]
  exact .step (.pause _ _) (.done _ _)

theorem bind {shared : Shared α Halt (Machine α) β} {plain : Action α β}
    {next : β → Shared α Halt (Machine α) γ} {plainNext : β → Action α γ}
    (first : Alone shared plain) (second : ∀ value, Alone (next value) (plainNext value)) :
    Alone (shared >>= next) (plain >>= plainNext) := by
  intro machine
  have runs := first machine
  change Process.Runs ((shared machine.bare).bind _) _
    (bareResult (EStateM.bind plain plainNext machine))
    (stateAfter (EStateM.bind plain plainNext machine)).pool
  unfold EStateM.bind
  cases ran : plain machine with
  | ok value after =>
    rw [ran] at runs
    exact runs.bind (second value after)
  | error halt after =>
    rw [ran] at runs
    exact runs.bind (.done _ _)

/-- A write takes the page that the memory takes. -/
theorem write (address value : Nat) :
    Alone (Shared.write address value : Shared α Halt (Machine α) Unit)
      (Action.write address value) := by
  rintro ⟨values, scratch, memory, pool, remaining, profile⟩
  cases wanted : memory.demand? (values.getD address Number.zero) with
  | none =>
    rw [write_kept wanted]
    apply Process.Runs.step (.pause _ _)
    rcases Memory.write_of_none wanted (values.getD value Number.zero) with
      ⟨after, writes, _⟩ | ⟨cause, fails⟩
    · rw [write_done (writes _), write_done (writes _)]
      exact .done _ _
    · rw [write_refused (fails _), write_refused (fails _)]
      exact .done _ _
  | some number =>
    obtain ⟨after, writes, _⟩ :=
      Memory.write_of_some wanted pool.take.1 (values.getD value Number.zero)
    rw [write_grown wanted, write_done (writes pool rfl)]
    apply Process.Runs.step (.take _ _)
    apply Process.Runs.step (.pause _ _)
    rw [write_done (writes ⟨[pool.take.1]⟩ rfl)]
    exact .done _ _

/-- A loop is alone if its body is. The induction is on the fuel. -/
theorem repeat_while (condition : Nat) {body : Shared α Halt (Machine α) Unit}
    {plain : Action α Unit} (alone : Alone body plain) (fuel : Nat) :
    Alone (Shared.repeatWhile condition body fuel) (Action.repeatWhile condition plain fuel) := by
  induction fuel with
  | zero =>
    apply bind (lift (get_keeps condition))
    intro value
    split
    · exact lift (stop_keeps _)
    · exact pure ()
  | succ fuel inductionHypothesis =>
    apply bind (lift (get_keeps condition))
    intro value
    split
    · exact bind (lift spend_keeps) fun _ => bind alone fun _ => inductionHypothesis
    · exact pure ()

end Alone

end Shared

mutual

/-- A statement that is alone with the pool does what it does with the pool of its machine. -/
theorem Statement.share_alone : ∀ statement : Statement α,
    Shared.Alone statement.share statement.run
  | .skip => .pure ()
  | .block noted children =>
    .bind (.lift (Action.note_keeps noted)) fun _ => share_all_alone children
  | .loop condition body =>
    fun machine => .step (.pause _ _)
      (Shared.Alone.repeat_while condition body.share_alone machine.remaining machine)
  | .read target => .lift (Action.read_keeps target)
  | .write address value => .write address value
  | .basic baseline specialized => .lift (Action.basic_keeps baseline specialized)

theorem Statement.share_all_alone : ∀ statements : List (Statement α),
    Shared.Alone (Statement.shareAll statements) (Statement.runAll statements)
  | [] => .pure ()
  | statement :: rest => .bind statement.share_alone fun _ => share_all_alone rest

end

/-- An execution that is alone with the pool answers and leaves the pool like an execution with this
pool. -/
theorem Executable.share_alone (program : Executable α) (inputs buffer : Array α)
    (profile : Option TreeProfile) (pool : PagePool α) :
    let outcome := program.execute inputs buffer pool profile
    (program.share inputs buffer profile).Runs pool
      (answer (outcome.ending, outcome.outputs, outcome.profile)) outcome.pool := by
  rw [execute_ending]
  apply (program.root.share_alone (program.start inputs pool profile)).bind
  generalize program.root.run (program.start inputs pool profile) = result
  have pages : (Shared.stateAfter (Action.bareResult result)).memory =
      (Shared.stateAfter result).memory := by
    cases result <;> rfl
  have same : ending buffer (Action.bareResult result) = ending buffer result := by
    cases result <;> rfl
  rw [pages, same, Memory.release]
  apply Process.Runs.give
  rw [List.foldl_map]
  exact .done _ _

end ProgramSearch
