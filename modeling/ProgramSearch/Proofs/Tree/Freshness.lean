import ProgramSearch.Proofs.Tree.Lockstep
import ProgramSearch.Proofs.Tree.Progress
import ProgramSearch.Proofs.Tree.Sharing

/-!
# Every execution finds a fresh memory

A pool that is blank when an execution starts is blank again when the execution is over, whether that
comes to an end or is stopped: the pages that it took are cleared when they come back. And how many
blank pages there are never shows: from any two blank pools, executions end in the same way, with
the same outputs and the same notes. So one execution after another finds a fresh memory.
-/

namespace ProgramSearch

variable {α : Type} [Number α]

section Tidiness

/-- A machine whose pages are whole and whose pool is blank. -/
structure Machine.Tidy (machine : Machine α) : Prop where
  whole : machine.memory.Whole
  blank : machine.pool.Blank

/-- A write that succeeds keeps the pages whole and the pool blank, whether it takes a page or
not. -/
theorem Memory.write_tidy {memory changed : Memory α} {pool rest : PagePool α} {place value : α}
    (written : write place value (memory, pool) = .ok () (changed, rest)) (whole : memory.Whole)
    (blank : pool.Blank) : changed.Whole ∧ rest.Blank := by
  cases wanted : memory.demand? place with
  | none =>
    obtain ⟨after, writes, _, keeps⟩ | ⟨cause, fails⟩ := write_of_none wanted value
    · rw [writes pool] at written
      cases written
      exact ⟨keeps whole, blank⟩
    · rw [fails pool] at written
      cases written
  | some number =>
    obtain ⟨after, writes, _, keeps⟩ := write_of_some wanted pool.take.1 value
    obtain ⟨taken, others⟩ := blank.take
    rw [writes pool rfl] at written
    cases written
    exact ⟨keeps (taken ▸ Array.size_replicate) whole, others⟩

/-- Whatever a statement does to a machine keeps it tidy. -/
theorem tidy_progress :
    Machine.Progress fun before after : Machine α => before.Tidy → after.Tidy where
  refl _ := id
  trans first second tidy := second (first tidy)
  assigned _ _ _ tidy := ⟨tidy.whole, tidy.blank⟩
  spent _ _ _ tidy := ⟨tidy.whole, tidy.blank⟩
  entered _ _ tidy := ⟨tidy.whole, tidy.blank⟩
  reported _ _ tidy := ⟨tidy.whole, tidy.blank⟩
  written _ _ _ _ _ written tidy :=
    have ⟨whole, blank⟩ := Memory.write_tidy written tidy.whole tidy.blank
    ⟨whole, blank⟩

/-- An execution leaves a blank pool if it found one. -/
theorem Executable.execute_blank (program : Executable α) (inputs buffer : Array α)
    {pool : PagePool α} (blank : pool.Blank) (profile : Option TreeProfile) :
    (program.execute inputs buffer pool profile).pool.Blank := by
  have started : (program.start inputs pool profile).Tidy := ⟨Memory.whole_empty _, blank⟩
  have leaves := program.root.run_relates tidy_progress (program.start inputs pool profile)
  simp only [execute]
  generalize program.root.run _ = outcome at leaves ⊢
  cases leaves with
  | ended _ tidy => exact (tidy started).whole.release (tidy started).blank
  | stopped _ tidy => exact (tidy started).whole.release (tidy started).blank

end Tidiness

section Exchange

/-- Machines that differ in their pools at most, and these are blank. -/
structure Machine.Exchanged (left right : Machine α) : Prop where
  same : left.bare = right.bare
  blank : left.pool.Blank
  otherBlank : right.pool.Blank

namespace Machine.Exchanged

variable {left right : Machine α} (exchanged : left.Exchanged right)

include exchanged

theorem remaining : left.remaining = right.remaining := by
  have same := congrArg Machine.remaining exchanged.same
  exact same

theorem values : left.values = right.values := by
  have same := congrArg Machine.values exchanged.same
  exact same

theorem profile : left.profile = right.profile := by
  have same := congrArg Machine.profile exchanged.same
  exact same

end Machine.Exchanged

namespace Action

variable {β : Type}

/-- An action that leaves the pages alone does the same with another pool. -/
theorem KeepsPages.exchanges {action : Action α β} (keeps : KeepsPages action) :
    Lockstep Machine.Exchanged action action := by
  rintro left right ⟨same, blank, otherBlank⟩
  obtain ⟨_, pool, bare⟩ := keeps left
  obtain ⟨_, otherPool, otherBare⟩ := keeps right
  rw [same, otherBare] at bare
  generalize action left = outcome at pool bare ⊢
  generalize action right = other at otherPool bare ⊢
  cases outcome with
  | ok value after =>
    cases other with
    | ok otherValue otherAfter =>
      simp only [bareResult, EStateM.Result.ok.injEq] at bare
      obtain ⟨rfl, bare⟩ := bare
      exact .ended _ ⟨bare.symm, pool ▸ blank, otherPool ▸ otherBlank⟩
    | error => cases bare
  | error halt after =>
    cases other with
    | ok => cases bare
    | error otherHalt otherAfter =>
      simp only [bareResult, EStateM.Result.error.injEq] at bare
      obtain ⟨rfl, bare⟩ := bare
      exact .stopped _ ⟨bare.symm, pool ▸ blank, otherPool ▸ otherBlank⟩

/-- A write takes a blank page from either pool. -/
theorem write_exchanges (address value : Nat) :
    Lockstep Machine.Exchanged (write address value : Action α Unit) (write address value) := by
  rintro ⟨values, scratch, memory, pool, remaining, profile⟩ ⟨_, _, _, other, _, _⟩
    ⟨same, blank, otherBlank⟩
  cases same
  cases wanted : memory.demand? (values.getD address Number.zero) with
  | none =>
    obtain ⟨after, writes, _⟩ | ⟨cause, fails⟩ :=
      Memory.write_of_none wanted (values.getD value Number.zero)
    · rw [write_done (writes _), write_done (writes _)]
      exact .ended () ⟨rfl, blank, otherBlank⟩
    · rw [write_refused (fails _), write_refused (fails _)]
      exact .stopped _ ⟨rfl, blank, otherBlank⟩
  | some number =>
    obtain ⟨after, writes, _⟩ :=
      Memory.write_of_some wanted Page.blank (values.getD value Number.zero)
    obtain ⟨taken, rest⟩ := PagePool.Blank.take blank
    obtain ⟨otherTaken, otherRest⟩ := PagePool.Blank.take otherBlank
    rw [write_done (writes _ taken), write_done (writes _ otherTaken)]
    exact .ended () ⟨rfl, rest, otherRest⟩

end Action

namespace Statement

open ProgramSearch.Action

mutual

/-- A statement does the same with another blank pool. -/
theorem run_exchanges (statement : Statement α) :
    Lockstep Machine.Exchanged statement.run statement.run := by
  cases statement with
  | skip => exact .pure ()
  | block noted children => exact (note_keeps noted).exchanges.bind fun _ => runAll_exchanges children
  | loop condition body =>
    intro left right exchanged
    have repeated := Lockstep.repeat_while condition (get_keeps condition).exchanges
      spend_keeps.exchanges body.run_exchanges left.remaining left right exchanged
    simp only [run, get_bind, ← exchanged.remaining]
    exact repeated
  | read target => exact (read_keeps target).exchanges
  | write address value => exact write_exchanges address value
  | basic baseline specialized => exact (basic_keeps baseline specialized).exchanges

/-- Statements do the same with another blank pool. -/
theorem runAll_exchanges (statements : List (Statement α)) :
    Lockstep Machine.Exchanged (runAll statements) (runAll statements) := by
  cases statements with
  | nil => exact .pure ()
  | cons statement rest => exact statement.run_exchanges.bind fun _ => runAll_exchanges rest

end

end Statement

/-- From two blank pools, executions end alike, with the same outputs and the same profile. -/
theorem Executable.execute_fresh (program : Executable α) (inputs buffer : Array α)
    {pool other : PagePool α} (blank : pool.Blank) (otherBlank : other.Blank)
    (profile : Option TreeProfile) :
    (program.execute inputs buffer pool profile).answer =
        (program.execute inputs buffer other profile).answer ∧
      (program.execute inputs buffer pool profile).profile =
        (program.execute inputs buffer other profile).profile := by
  have started : (program.start inputs pool profile).Exchanged
      (program.start inputs other profile) := ⟨rfl, blank, otherBlank⟩
  have same := program.root.run_exchanges _ _ started
  simp only [execute, Outcome.answer]
  generalize program.root.run _ = outcome at same ⊢
  generalize program.root.run _ = otherOutcome at same ⊢
  cases same with
  | ended _ exchanged => exact ⟨by simp only [exchanged.values], exchanged.profile⟩
  | stopped halt exchanged => exact ⟨rfl, exchanged.profile⟩

end Exchange

end ProgramSearch
