import ProgramSearch.Proofs.Memory.Writing
import ProgramSearch.Tree.Machine

/-!
# Laws of actions

What an action on a machine does follows from what its parts do. A sequence comes to an end exactly
when both of its parts do, and a loop with fuel left does its body once and goes on as a loop with
less fuel. A law that sequences and stops obey is therefore a law of loops, provided that reading
the condition, taking a unit of the budget and the body obey it.

An action that may stop has one lemma that lists its outcomes, each with the reason for it. Whatever
is proved about such an action starts from that list.
-/

namespace ProgramSearch

/-- The notes of a machine, if it takes any, after a compiled program has reported there. -/
def Machine.noting {α : Type} [Number α] (machine : Machine α) (program : Compiled α) :
    Option TreeProfile :=
  machine.profile.map fun profile =>
    (program.run machine.values machine.scratch).reports.foldl TreeProfile.record profile

namespace Action

variable {α β γ : Type}

theorem get_bind (next : Machine α → Action α β) (machine : Machine α) :
    (getThe (Machine α) >>= next) machine = next machine machine :=
  rfl

theorem set_bind (left : Machine α) (next : Unit → Action α β) (machine : Machine α) :
    (EStateM.set left >>= next) machine = next () left :=
  rfl

/-- A sequence comes to an end exactly when its parts do. -/
theorem bind_ended_iff (first : Action α β) (next : β → Action α γ) (machine after : Machine α)
    (value : γ) :
    (first >>= next) machine = .ok value after ↔
      ∃ early middle, first machine = .ok early middle ∧ next early middle = .ok value after := by
  change EStateM.bind first next machine = _ ↔ _
  simp only [EStateM.bind]
  cases first machine with
  | ok early middle =>
    constructor
    · intro ran
      exact ⟨early, middle, rfl, ran⟩
    · rintro ⟨_, _, same, ran⟩
      cases same
      exact ran
  | error halt middle =>
    constructor
    · intro ran
      cases ran
    · rintro ⟨_, _, same, _⟩
      cases same

/-- A law that holds of doing nothing, of stopping, and of sequences whose parts obey it. -/
structure Closed (law : ∀ β, Action α β → Prop) : Prop where
  pure : ∀ {β : Type} (value : β), law β (pure value)
  stop : ∀ {β : Type} (cause : Signal), law β (stop cause)
  bind : ∀ {β γ : Type} {first : Action α β} {next : β → Action α γ},
    law β first → (∀ value, law γ (next value)) → law γ (first >>= next)

section Outcomes

/-- Taking a unit of the budget leaves one unit less, or stops when there is none. -/
theorem spend_cases (machine : Machine α) :
    (∃ rest, machine.remaining = rest + 1 ∧
      spend machine = .ok () { machine with remaining := rest }) ∨
    machine.remaining = 0 ∧ spend machine = .error (.signal .loopBudgetExceeded) machine := by
  simp only [spend, get_bind]
  cases machine.remaining with
  | zero => exact .inr ⟨rfl, rfl⟩
  | succ rest => exact .inl ⟨rest, rfl, rfl⟩

variable [Number α]

section Write

variable {address value : Nat} {machine : Machine α}

/-- A write to a memory that is written. -/
theorem write_done {after : Memory α} {rest : PagePool α}
    (written : Memory.write (machine.values.getD address Number.zero)
      (machine.values.getD value Number.zero) (machine.memory, machine.pool) =
        .ok () (after, rest)) :
    write address value machine = .ok () { machine with memory := after, pool := rest } := by
  simp only [write, get_bind, written]
  rfl

/-- A write that is refused has not touched the memory or the pool, so the whole machine is as it
was. -/
theorem write_refused {cause : Signal} {left : Memory α × PagePool α}
    (refused : Memory.write (machine.values.getD address Number.zero)
      (machine.values.getD value Number.zero) (machine.memory, machine.pool) =
        .error cause left) :
    write address value machine = .error (.signal cause) machine := by
  simp only [write, get_bind, refused]
  obtain rfl := Memory.write_refused refused
  rfl

/-- A write changes the memory and the pool as a write of the memory does, or stops for the same
reason and changes nothing. -/
theorem write_cases (address value : Nat) (machine : Machine α) :
    (∃ after rest, Memory.write (machine.values.getD address Number.zero)
        (machine.values.getD value Number.zero) (machine.memory, machine.pool) =
          .ok () (after, rest) ∧
      write address value machine = .ok () { machine with memory := after, pool := rest }) ∨
    ∃ cause left, Memory.write (machine.values.getD address Number.zero)
        (machine.values.getD value Number.zero) (machine.memory, machine.pool) =
          .error cause left ∧
      write address value machine = .error (.signal cause) machine := by
  cases outcome : Memory.write (machine.values.getD address Number.zero)
      (machine.values.getD value Number.zero) (machine.memory, machine.pool) with
  | ok _ left => exact .inl ⟨left.1, left.2, rfl, write_done outcome⟩
  | error cause left => exact .inr ⟨cause, left, rfl, write_refused outcome⟩

end Write

section Blocks

variable {baseline program : Compiled α} {machine : Machine α} {outputs : Array α} {halt : Halt}

theorem replace_all_done
    (ended : (program.run machine.values machine.scratch).result = .ok outputs) :
    replaceAll program machine = .ok ()
      { machine with values := outputs, scratch := outputs, profile := machine.noting program } := by
  simp only [replaceAll, get_bind, set_bind, ended]
  rfl

theorem replace_all_stopped
    (ended : (program.run machine.values machine.scratch).result = .error halt) :
    replaceAll program machine = .error halt { machine with profile := machine.noting program } := by
  simp only [replaceAll, get_bind, set_bind, ended]
  rfl

/-- A compiled program replaces all variables by its results, or stops for its own reason. It adds
its reports to the profile either way. -/
theorem replace_all_cases (program : Compiled α) (machine : Machine α) :
    (∃ outputs, (program.run machine.values machine.scratch).result = .ok outputs ∧
      replaceAll program machine = .ok ()
        { machine with values := outputs, scratch := outputs, profile := machine.noting program }) ∨
    ∃ halt, (program.run machine.values machine.scratch).result = .error halt ∧
      replaceAll program machine = .error halt
        { machine with profile := machine.noting program } := by
  cases ended : (program.run machine.values machine.scratch).result with
  | ok outputs => exact .inl ⟨outputs, rfl, replace_all_done ended⟩
  | error halt => exact .inr ⟨halt, rfl, replace_all_stopped ended⟩

theorem basic_done (ended : (program.run machine.values machine.scratch).result = .ok outputs) :
    basic baseline (some program) machine = .ok ()
      { machine with values := outputs, scratch := outputs } := by
  simp only [basic, get_bind, ended]
  rfl

/-- The baseline of a specialized form that bails out finds the machine as it was. -/
theorem basic_bailed
    (ended : (program.run machine.values machine.scratch).result = .error (.signal .bailout)) :
    basic baseline (some program) machine = replaceAll baseline machine := by
  simp only [basic, get_bind, ended]

theorem basic_stopped (ended : (program.run machine.values machine.scratch).result = .error halt)
    (final : halt ≠ .signal .bailout) :
    basic baseline (some program) machine = .error halt machine := by
  simp only [basic, get_bind, ended]
  rfl

/-- A specialized form replaces all variables by its results and reports nothing. If it bails out,
its baseline runs instead; any other reason to stop is final. -/
theorem basic_cases (baseline program : Compiled α) (machine : Machine α) :
    (∃ outputs, (program.run machine.values machine.scratch).result = .ok outputs ∧
      basic baseline (some program) machine = .ok ()
        { machine with values := outputs, scratch := outputs }) ∨
    ((program.run machine.values machine.scratch).result = .error (.signal .bailout) ∧
      basic baseline (some program) machine = replaceAll baseline machine) ∨
    ∃ halt, (program.run machine.values machine.scratch).result = .error halt ∧
      halt ≠ .signal .bailout ∧ basic baseline (some program) machine = .error halt machine := by
  cases ended : (program.run machine.values machine.scratch).result with
  | ok outputs => exact .inl ⟨outputs, rfl, basic_done ended⟩
  | error halt =>
    by_cases bailed : halt = .signal .bailout
    · exact .inr (.inl ⟨congrArg Except.error bailed, basic_bailed (bailed ▸ ended)⟩)
    · exact .inr (.inr ⟨halt, rfl, bailed, basic_stopped ended bailed⟩)

end Blocks

end Outcomes

section Loops

variable [Number α]

/-- What is left of a loop without fuel. -/
theorem repeat_while_zero (condition : Nat) (body : Action α Unit) (machine : Machine α) :
    repeatWhile condition body 0 machine =
      if Number.positive (machine.values.getD condition Number.zero) then
        (stop .loopBudgetExceeded : Action α Unit) machine
      else .ok () machine := by
  change (if _ then _ else _ : Action α Unit) machine = _
  split <;> rfl

/-- A loop with fuel takes a unit of the budget, does its body once and goes on, if its condition is
positive. -/
theorem repeat_while_succ (condition : Nat) (body : Action α Unit) (fuel : Nat)
    (machine : Machine α) :
    repeatWhile condition body (fuel + 1) machine =
      if Number.positive (machine.values.getD condition Number.zero) then
        (spend >>= fun _ => body >>= fun _ => repeatWhile condition body fuel) machine
      else .ok () machine := by
  change (if _ then _ else _ : Action α Unit) machine = _
  split <;> rfl

/-- A loop whose condition is not positive does nothing, whatever fuel is left. -/
theorem repeat_while_idle (condition : Nat) (body : Action α Unit) (fuel : Nat)
    (machine : Machine α)
    (idle : Number.positive (machine.values.getD condition Number.zero) = false) :
    repeatWhile condition body fuel machine = .ok () machine := by
  cases fuel with
  | zero => rw [repeat_while_zero, idle, if_neg Bool.false_ne_true]
  | succ fuel => rw [repeat_while_succ, idle, if_neg Bool.false_ne_true]

/-- A loop obeys a closed law that its parts obey. The induction is on the fuel. -/
theorem Closed.repeat_while {law : ∀ β, Action α β → Prop} (closed : Closed law) (condition : Nat)
    (reads : law α (get condition)) (spends : law Unit spend) {body : Action α Unit}
    (obeys : law Unit body) (fuel : Nat) : law Unit (repeatWhile condition body fuel) := by
  induction fuel with
  | zero =>
    apply closed.bind reads
    intro value
    split
    · exact closed.stop _
    · exact closed.pure ()
  | succ fuel inductionHypothesis =>
    apply closed.bind reads
    intro value
    split
    · exact closed.bind spends fun _ => closed.bind obeys fun _ => inductionHypothesis
    · exact closed.pure ()

end Loops

end Action

end ProgramSearch
