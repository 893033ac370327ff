import ProgramSearch.Proofs.Tree.Action

/-!
# Machines in lockstep

Two actions run in lockstep when machines that are related lead to the same result, or to a stop
for the same reason, and leave machines that are related again. Sequences and loops of actions in
lockstep are in lockstep, over any number of iterations: both sides take their units of the loop
budget together.

Machines are aligned when they differ in their profile at most and hold a fixed number of
variables. Every action that does not look at the profile keeps machines aligned.
-/

namespace ProgramSearch.Action

variable {α β γ : Type}

/-- Two outcomes agree, and the machines they leave are related. -/
inductive Matches (related : Machine α → Machine α → Prop) :
    EStateM.Result Halt (Machine α) β → EStateM.Result Halt (Machine α) β → Prop where
  | ended (value : β) {left right : Machine α} :
      related left right → Matches related (.ok value left) (.ok value right)
  | stopped (halt : Halt) {left right : Machine α} :
      related left right → Matches related (.error halt left) (.error halt right)

/-- From related machines, two actions have outcomes that agree. -/
def Lockstep (related : Machine α → Machine α → Prop) (first second : Action α β) : Prop :=
  ∀ left right, related left right → Matches related (first left) (second right)

namespace Lockstep

variable {related : Machine α → Machine α → Prop}

theorem pure (value : β) : Lockstep related (pure value) (pure value) := by
  intro left right aligned
  exact .ended value aligned

theorem stop (cause : Signal) :
    Lockstep related (stop cause : Action α β) (Action.stop cause) := by
  intro left right aligned
  exact .stopped (.signal cause) aligned

/-- Sequences are in lockstep when their parts are. If the first parts stop, both sequences stop
there. -/
theorem bind {first second : Action α β} {next following : β → Action α γ}
    (start : Lockstep related first second)
    (continued : ∀ value, Lockstep related (next value) (following value)) :
    Lockstep related (first >>= next) (second >>= following) := by
  intro left right aligned
  have reached := start left right aligned
  change Matches related (EStateM.bind first next left) (EStateM.bind second following right)
  simp only [EStateM.bind]
  generalize first left = one at reached ⊢
  generalize second right = other at reached ⊢
  cases reached with
  | ended value aligned => exact continued value _ _ aligned
  | stopped halt aligned => exact .stopped halt aligned

variable [Number α]

/-- Loops are in lockstep when their bodies are, provided that the condition reads alike and a unit
of the budget is taken alike. The induction is on the fuel, which both sides use up together. -/
theorem repeat_while {first second : Action α Unit} (condition : Nat)
    (reads : Lockstep related (get condition) (get condition))
    (spends : Lockstep related spend spend) (body : Lockstep related first second) (fuel : Nat) :
    Lockstep related (repeatWhile condition first fuel) (repeatWhile condition second fuel) := by
  induction fuel with
  | zero =>
    refine reads.bind fun value => ?_
    by_cases positive : Number.positive value = true
    · simp only [positive, if_true]
      exact stop .loopBudgetExceeded
    · simp only [positive, Bool.false_eq_true, if_false]
      exact pure ()
  | succ fuel inductionHypothesis =>
    refine reads.bind fun value => ?_
    by_cases positive : Number.positive value = true
    · simp only [positive, if_true]
      exact spends.bind fun _ => body.bind fun _ => inductionHypothesis
    · simp only [positive, Bool.false_eq_true, if_false]
      exact pure ()

end Lockstep

end ProgramSearch.Action

namespace ProgramSearch

variable {α : Type}

/-- Machines that differ in their profile at most and hold the given number of variables. -/
structure Aligned (count : Nat) (left right : Machine α) : Prop where
  same : ∃ profile, right = { left with profile }
  values : left.values.size = count
  scratch : left.scratch.size = count

namespace Aligned

open ProgramSearch.Action

variable {count : Nat}

theorem set (index : Nat) (value : α) :
    Lockstep (Aligned count) (Action.set index value) (Action.set index value) := by
  rintro left right ⟨⟨profile, rfl⟩, values, scratch⟩
  exact .ended () ⟨⟨profile, rfl⟩, (Array.size_setIfInBounds ..).trans values, scratch⟩

/-- Aligned machines note blocks in their own profiles, each under its own number or not at all. -/
theorem note (first second : Option Nat) :
    Lockstep (Aligned (α := α) count) (Action.note first) (Action.note second) := by
  rintro left right ⟨⟨profile, rfl⟩, values, scratch⟩
  cases first <;> cases second <;> exact .ended () ⟨⟨_, rfl⟩, values, scratch⟩

theorem spend : Lockstep (Aligned (α := α) count) Action.spend Action.spend := by
  rintro ⟨values, scratch, memory, pool, remaining, noted⟩ right ⟨⟨profile, rfl⟩, sized, covered⟩
  cases remaining with
  | zero => exact .stopped _ ⟨⟨profile, rfl⟩, sized, covered⟩
  | succ rest => exact .ended () ⟨⟨profile, rfl⟩, sized, covered⟩

variable [Number α]

theorem get (index : Nat) :
    Lockstep (Aligned (α := α) count) (Action.get index) (Action.get index) := by
  rintro left right ⟨⟨profile, rfl⟩, values, scratch⟩
  exact .ended _ ⟨⟨profile, rfl⟩, values, scratch⟩

theorem read (target : Nat) :
    Lockstep (Aligned (α := α) count) (Action.read target) (Action.read target) := by
  rintro left right ⟨⟨profile, rfl⟩, values, scratch⟩
  exact set target _ left _ ⟨⟨profile, rfl⟩, values, scratch⟩

/-- Aligned machines write the same memory at the same place, or fail to for the same reason. -/
theorem write (address value : Nat) :
    Lockstep (Aligned (α := α) count) (Action.write address value)
      (Action.write address value) := by
  rintro left right ⟨⟨profile, rfl⟩, values, scratch⟩
  obtain ⟨memory, pool, written, ran⟩ | ⟨cause, _, refused, ran⟩ := write_cases address value left
  · have other : Action.write address value { left with profile } = .ok () _ := write_done written
    rw [ran, other]
    exact .ended () ⟨⟨profile, rfl⟩, values, scratch⟩
  · have other : Action.write address value { left with profile } = .error _ _ :=
      write_refused refused
    rw [ran, other]
    exact .stopped _ ⟨⟨profile, rfl⟩, values, scratch⟩

end Aligned

end ProgramSearch
