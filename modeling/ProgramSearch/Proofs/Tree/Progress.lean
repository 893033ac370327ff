import ProgramSearch.Proofs.Tree.Action

/-!
# How a machine progresses

A statement changes a machine in a few ways only: it replaces variables, takes a unit of the budget,
notes a block that is entered or what a basic block reports, and writes to memory. A relation that
holds across each of these changes, and across nothing and across two changes in turn, holds between
the machine that a statement starts from and the one that it leaves, also when it is stopped.
-/

namespace ProgramSearch

variable {α : Type}

namespace Action

variable {β : Type}

/-- An outcome leaves a machine of which something holds. -/
inductive Leaves (holds : Machine α → Prop) : EStateM.Result Halt (Machine α) β → Prop where
  | ended (value : β) {after : Machine α} : holds after → Leaves holds (.ok value after)
  | stopped (halt : Halt) {after : Machine α} : holds after → Leaves holds (.error halt after)

/-- Whether it comes to an end or not, the action leaves a machine that is related to the one that
it started from. -/
def Relates (related : Machine α → Machine α → Prop) (action : Action α β) : Prop :=
  ∀ machine, Leaves (related machine) (action machine)

end Action

variable [Number α]

/-- A relation that holds across everything that a statement does to a machine. -/
structure Machine.Progress (related : Machine α → Machine α → Prop) : Prop where
  refl : ∀ machine, related machine machine
  trans : ∀ {first middle last}, related first middle → related middle last → related first last
  assigned : ∀ machine values scratch, related machine { machine with values, scratch }
  spent : ∀ machine rest, machine.remaining = rest + 1 →
    related machine { machine with remaining := rest }
  entered : ∀ machine block,
    related machine { machine with profile := machine.profile.map (·.markReached block) }
  reported : ∀ machine program, related machine { machine with profile := machine.noting program }
  written : ∀ machine place content memory pool,
    Memory.write place content (machine.memory, machine.pool) = .ok () (memory, pool) →
      related machine { machine with memory, pool }

namespace Action.Relates

variable {β γ : Type} {related : Machine α → Machine α → Prop}
  (progress : Machine.Progress related)

include progress

theorem pure (value : β) : Relates related (Pure.pure value : Action α β) :=
  fun machine => .ended value (progress.refl machine)

theorem stop (cause : Signal) : Relates related (Action.stop cause : Action α β) :=
  fun machine => .stopped _ (progress.refl machine)

/-- Sequences keep the relation when their parts do. -/
theorem bind {first : Action α β} {next : β → Action α γ} (start : Relates related first)
    (continued : ∀ value, Relates related (next value)) :
    Relates related (first >>= next) := by
  intro machine
  have early := start machine
  change Leaves (related machine) (EStateM.bind first next machine)
  simp only [EStateM.bind]
  generalize first machine = outcome at early ⊢
  cases early with
  | stopped halt reached => exact .stopped halt reached
  | @ended value middle reached =>
    have late := continued value middle
    simp only
    generalize next value middle = result at late ⊢
    cases late with
    | ended value further => exact .ended value (progress.trans reached further)
    | stopped halt further => exact .stopped halt (progress.trans reached further)

/-- The relation is a law that sequences and loops keep. -/
theorem closed : Closed fun _ (action : Action α _) => Relates related action :=
  ⟨pure progress, stop progress, bind progress⟩

theorem note (block : Option Nat) : Relates related (Action.note block : Action α Unit) := by
  intro machine
  cases block with
  | none => exact .ended () (progress.refl machine)
  | some block => exact .ended () (progress.entered machine block)

theorem spend : Relates related (Action.spend : Action α Unit) := by
  intro machine
  obtain ⟨rest, more, ran⟩ | ⟨_, ran⟩ := spend_cases machine <;> rw [ran]
  · exact .ended () (progress.spent machine rest more)
  · exact .stopped _ (progress.refl machine)

theorem get (index : Nat) : Relates related (Action.get index : Action α α) :=
  fun machine => .ended _ (progress.refl machine)

theorem read (target : Nat) : Relates related (Action.read target : Action α Unit) :=
  fun machine => .ended () (progress.assigned machine _ machine.scratch)

theorem write (address value : Nat) :
    Relates related (Action.write address value : Action α Unit) := by
  intro machine
  obtain ⟨memory, pool, done, ran⟩ | ⟨cause, _, _, ran⟩ := write_cases address value machine <;>
    rw [ran]
  · exact .ended () (progress.written machine _ _ memory pool done)
  · exact .stopped _ (progress.refl machine)

/-- A compiled program adds its reports, also when it stops, and replaces the variables only when it
comes to an end. -/
theorem replace_all (program : Compiled α) : Relates related (Action.replaceAll program) := by
  intro machine
  have noted := progress.reported machine program
  obtain ⟨outputs, _, ran⟩ | ⟨halt, _, ran⟩ := replace_all_cases program machine <;> rw [ran]
  · exact .ended () (progress.trans noted (progress.assigned _ outputs outputs))
  · exact .stopped halt noted

theorem basic (baseline : Compiled α) (specialized : Option (Compiled α)) :
    Relates related (Action.basic baseline specialized) := by
  cases specialized with
  | none => exact replace_all progress baseline
  | some program =>
    intro machine
    obtain ⟨outputs, _, ran⟩ | ⟨_, ran⟩ | ⟨halt, _, _, ran⟩ := basic_cases baseline program machine
      <;> rw [ran]
    · exact .ended () (progress.assigned machine outputs outputs)
    · exact replace_all progress baseline machine
    · exact .stopped halt (progress.refl machine)

/-- A loop keeps the relation when its body does. -/
theorem repeat_while (condition : Nat) {body : Action α Unit} (keeps : Relates related body)
    (fuel : Nat) : Relates related (repeatWhile condition body fuel) :=
  (closed progress).repeat_while condition (get progress condition) (spend progress) keeps fuel

end Action.Relates

namespace Statement

variable {related : Machine α → Machine α → Prop}

mutual

/-- Running a statement leaves a related machine. -/
theorem run_relates (progress : Machine.Progress related) (statement : Statement α) :
    Action.Relates related statement.run := by
  cases statement with
  | skip => exact .pure progress _
  | block noted children =>
    exact .bind progress (.note progress noted) fun _ => runAll_relates progress children
  | loop condition body =>
    intro machine
    exact (body.run_relates progress).repeat_while progress condition machine.remaining machine
  | read target => exact .read progress target
  | write address value => exact .write progress address value
  | basic baseline specialized => exact .basic progress baseline specialized

/-- Running statements leaves a related machine. -/
theorem runAll_relates (progress : Machine.Progress related) (statements : List (Statement α)) :
    Action.Relates related (Statement.runAll statements) := by
  cases statements with
  | nil => exact .pure progress _
  | cons statement rest =>
    exact .bind progress (statement.run_relates progress) fun _ => runAll_relates progress rest

end

end Statement

end ProgramSearch
