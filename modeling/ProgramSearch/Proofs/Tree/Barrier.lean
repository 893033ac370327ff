import ProgramSearch.Proofs.Program.Execution
import ProgramSearch.Proofs.Tree.Lockstep

/-!
# Stops in front of a loop

An iteration takes a unit of the loop budget before its body is entered, and a block is noted when
it is entered. So a loop can end an execution without a note of its body: its condition is positive,
but nothing of the budget is left. The execution is then barred in front of the loop.

Whatever an execution does, it does alike with any notes. Whether it is barred by a loop with an
unreached body therefore depends on the variables, the memory and the budget only.
-/

namespace ProgramSearch

variable {α : Type} [Number α]

namespace Compiled

/-- As many values are read as there are places to read. -/
theorem read_all_length {frame : Frame α} {leaves : List (Value α)} {fresh : List α}
    (read : readAll frame leaves = .ok fresh) : fresh.length = leaves.length := by
  induction leaves generalizing fresh with
  | nil =>
    cases read
    rfl
  | cons leaf rest inductionHypothesis =>
    simp only [readAll] at read
    split at read
    · cases read
    · obtain ⟨others, remaining, rfl⟩ := (Refusal.map_ok_iff _ _ _).mp read
      simp only [List.length_cons, inductionHypothesis remaining]

/-- A run leaves a buffer of the same size. -/
theorem run_size {program : Compiled α} {inputs buffer results : Array α}
    (ended : (program.run inputs buffer).result = .ok results) : results.size = buffer.size := by
  simp only [run, Traced.result_bind, Refusal.bind_ok_iff] at ended
  obtain ⟨temporaries, _, fresh, read, same⟩ := ended
  obtain rfl := Except.ok.inj same
  have length := (read_all_length read).trans List.length_take
  simp only [Array.size_append, Array.size_extract, List.size_toArray]
  omega

end Compiled

namespace Aligned

open ProgramSearch.Action

variable {count : Nat}

/-- Programs with the same results replace the variables of aligned machines alike. Their reports
may differ. -/
theorem replace_all {program other : Compiled α}
    (alike : ∀ inputs buffer,
      (program.run inputs buffer).result = (other.run inputs buffer).result) :
    Lockstep (Aligned count) (Action.replaceAll program) (Action.replaceAll other) := by
  rintro left right ⟨⟨profile, rfl⟩, values, scratch⟩
  obtain ⟨results, ended, ran⟩ | ⟨halt, ended, ran⟩ := replace_all_cases program left
  · have same : Action.replaceAll other { left with profile } = .ok () _ :=
      replace_all_done ((alike _ _).symm.trans ended)
    have sized := (Compiled.run_size ended).trans scratch
    rw [ran, same]
    exact .ended () ⟨⟨_, rfl⟩, sized, sized⟩
  · have same : Action.replaceAll other { left with profile } = .error _ _ :=
      replace_all_stopped ((alike _ _).symm.trans ended)
    rw [ran, same]
    exact .stopped halt ⟨⟨_, rfl⟩, values, scratch⟩

/-- A basic block replaces the variables of aligned machines alike, with either of its forms. -/
theorem basic (baseline : Compiled α) (specialized : Option (Compiled α)) :
    Lockstep (Aligned count) (Action.basic baseline specialized)
      (Action.basic baseline specialized) := by
  have fallback : Lockstep (Aligned count) (Action.replaceAll baseline)
      (Action.replaceAll baseline) := replace_all fun _ _ => rfl
  cases specialized with
  | none => exact fallback
  | some program =>
    rintro left right ⟨⟨profile, rfl⟩, values, scratch⟩
    obtain ⟨results, ended, ran⟩ | ⟨ended, ran⟩ | ⟨halt, ended, final, ran⟩ :=
      basic_cases baseline program left
    · have same : Action.basic baseline (some program) { left with profile } = .ok () _ :=
        basic_done ended
      have sized := (Compiled.run_size ended).trans scratch
      rw [ran, same]
      exact .ended () ⟨⟨_, rfl⟩, sized, sized⟩
    · have same : Action.basic baseline (some program) { left with profile } =
          Action.replaceAll baseline { left with profile } := basic_bailed ended
      rw [ran, same]
      exact fallback left _ ⟨⟨_, rfl⟩, values, scratch⟩
    · have same : Action.basic baseline (some program) { left with profile } = .error _ _ :=
        basic_stopped ended final
      rw [ran, same]
      exact .stopped halt ⟨⟨_, rfl⟩, values, scratch⟩

mutual

/-- A statement does the same on aligned machines, whatever they have noted. -/
theorem run (statement : Statement α) :
    Lockstep (Aligned count) statement.run statement.run := by
  cases statement with
  | skip => exact .pure ()
  | block noted parts => exact (note noted noted).bind fun _ => run_all parts
  | loop condition body =>
    rintro left right ⟨⟨profile, rfl⟩, values, scratch⟩
    exact Lockstep.repeat_while condition (get _) spend (run body) left.remaining left _
      ⟨⟨profile, rfl⟩, values, scratch⟩
  | read target => exact read target
  | write address value => exact write address value
  | basic baseline specialized => exact basic baseline specialized

/-- Statements do the same on aligned machines, one after another. -/
theorem run_all (statements : List (Statement α)) :
    Lockstep (Aligned count) (Statement.runAll statements) (Statement.runAll statements) := by
  cases statements with
  | nil => exact .pure ()
  | cons statement rest => exact (run statement).bind fun _ => run_all rest

end

end Aligned

namespace Action

omit [Number α] in
/-- Whether an action comes to an end on a machine of which something holds. -/
def leadsTo (action : Action α Unit) (holds : Machine α → Bool) (machine : Machine α) : Bool :=
  match action machine with
  | .ok _ after => holds after
  | .error _ _ => false

/-- Whether some iteration of a loop is barred, given which runs of the body are. -/
def barredWhile (condition : Nat) (barred : Machine α → Bool) (body : Action α Unit) :
    Nat → Machine α → Bool
  | 0, _ => false
  | fuel + 1, machine =>
    Number.positive (machine.values.getD condition Number.zero) &&
      spend.leadsTo
        (fun machine => barred machine ||
          body.leadsTo (barredWhile condition barred body fuel) machine) machine

end Action

namespace Statement

/-- A block with a number that was not reached. -/
def isUnreached (reached : Nat → Bool) : Statement α → Bool
  | .block (some number) _ => !reached number
  | _ => false

mutual

/-- Whether a run is barred in front of a loop with an unreached body: its condition is positive
there, and nothing of the loop budget is left. -/
def barred (reached : Nat → Bool) : Statement α → Machine α → Bool
  | .block noted parts, machine => (Action.note noted).leadsTo (barredAll reached parts) machine
  | .loop condition body, machine =>
    if body.isUnreached reached then
      Number.positive (machine.values.getD condition Number.zero) && machine.remaining == 0
    else Action.barredWhile condition (body.barred reached) body.run machine.remaining machine
  | .skip, _ | .read _, _ | .write .., _ | .basic .., _ => false

/-- Whether a run of statements, one after another, is barred in one of them. -/
def barredAll (reached : Nat → Bool) : List (Statement α) → Machine α → Bool
  | [], _ => false
  | statement :: rest, machine =>
    statement.barred reached machine || statement.run.leadsTo (barredAll reached rest) machine

end

end Statement

namespace Action

variable {β γ : Type}

/-- The action is stopped on a machine because the loop budget is used up. -/
def Exhausts (action : Action α β) (machine : Machine α) : Prop :=
  ∃ after, action machine = .error (.signal .loopBudgetExceeded) after

namespace Exhausts

omit [Number α] in
/-- A sequence exhausts the budget when its first part does. -/
theorem bind {first : Action α β} {next : β → Action α γ} {machine : Machine α}
    (exhausts : Exhausts first machine) : Exhausts (first >>= next) machine := by
  obtain ⟨after, stopped⟩ := exhausts
  refine ⟨after, ?_⟩
  change EStateM.bind first next machine = _
  simp only [EStateM.bind, stopped]

omit [Number α] in
/-- A sequence exhausts the budget when its first part leads to where the second one does. -/
theorem after {first : Action α Unit} {next : Unit → Action α γ} {holds : Machine α → Bool}
    (exhausts : ∀ machine, holds machine = true → Exhausts (next ()) machine) {machine : Machine α}
    (leads : first.leadsTo holds machine = true) : Exhausts (first >>= next) machine := by
  unfold leadsTo at leads
  split at leads
  · rename_i middle ended
    obtain ⟨after, stopped⟩ := exhausts middle leads
    refine ⟨after, ?_⟩
    change EStateM.bind first next machine = _
    simp only [EStateM.bind, ended, stopped]
  · cases leads

/-- A loop with a barred iteration exhausts the budget, if its body does where it is barred. The
induction is on the fuel. -/
theorem repeat_while (condition : Nat) {barred : Machine α → Bool} {body : Action α Unit}
    (exhausts : ∀ machine, barred machine = true → Exhausts body machine) (fuel : Nat)
    (machine : Machine α) (stops : barredWhile condition barred body fuel machine = true) :
    Exhausts (repeatWhile condition body fuel) machine := by
  induction fuel generalizing machine with
  | zero => cases stops
  | succ fuel inductionHypothesis =>
    obtain ⟨positive, iterates⟩ := Bool.and_eq_true_iff.mp stops
    have iteration : Exhausts
        (spend >>= fun _ => body >>= fun _ => repeatWhile condition body fuel) machine := by
      refine after (fun middle either => ?_) iterates
      rcases Bool.or_eq_true_iff.mp either with within | later
      · exact (exhausts middle within).bind
      · exact after inductionHypothesis later
    simpa only [Exhausts, repeat_while_succ, if_pos positive] using iteration

mutual

/-- A run that is barred is stopped because the loop budget is used up. -/
theorem barred (reached : Nat → Bool) (statement : Statement α) (machine : Machine α)
    (stops : statement.barred reached machine = true) : Exhausts statement.run machine := by
  cases statement with
  | block noted parts => exact after (barred_all reached parts) stops
  | loop condition body =>
    simp only [Statement.barred] at stops
    split at stops
    · obtain ⟨positive, spent⟩ := Bool.and_eq_true_iff.mp stops
      refine ⟨machine, ?_⟩
      change repeatWhile condition body.run machine.remaining machine = _
      rw [beq_iff_eq.mp spent, repeat_while_zero, if_pos positive]
      rfl
    · exact repeat_while condition (barred reached body) machine.remaining machine stops
  | skip | read | write | basic => cases stops

/-- Statements of which one is barred are stopped because the loop budget is used up. -/
theorem barred_all (reached : Nat → Bool) (statements : List (Statement α)) (machine : Machine α)
    (stops : Statement.barredAll reached statements machine = true) :
    Exhausts (Statement.runAll statements) machine := by
  cases statements with
  | nil => cases stops
  | cons statement rest =>
    rcases Bool.or_eq_true_iff.mp stops with first | later
    · exact (barred reached statement machine first).bind
    · exact after (barred_all reached rest) later

end

end Exhausts

end Action

/-- Aligned machines are judged alike. -/
def Machine.Invariant (count : Nat) (holds : Machine α → Bool) : Prop :=
  ∀ left right, Aligned count left right → holds left = holds right

namespace Machine.Invariant

open ProgramSearch.Action

variable {count : Nat}

omit [Number α] in
/-- Where an action leads does not depend on notes, if neither the action nor the judgement does. -/
theorem leads_to {action : Action α Unit} {holds : Machine α → Bool}
    (lockstep : Lockstep (Aligned count) action action) (invariant : Invariant count holds) :
    Invariant count (action.leadsTo holds) := by
  intro left right aligned
  have reached := lockstep left right aligned
  unfold Action.leadsTo
  generalize action left = one at reached ⊢
  generalize action right = other at reached ⊢
  cases reached with
  | ended _ aligned => exact invariant _ _ aligned
  | stopped => rfl

omit [Number α] in
/-- Either of two judgements does not depend on notes if neither does. -/
theorem either {holds other : Machine α → Bool} (first : Invariant count holds)
    (second : Invariant count other) :
    Invariant count fun machine => holds machine || other machine := by
  intro left right aligned
  simp only [first left right aligned, second left right aligned]

/-- Whether an iteration of a loop is barred does not depend on notes. The induction is on the
fuel. -/
theorem barred_while (condition : Nat) {barred : Machine α → Bool} {body : Action α Unit}
    (lockstep : Lockstep (Aligned count) body body) (invariant : Invariant count barred)
    (fuel : Nat) : Invariant count (Action.barredWhile condition barred body fuel) := by
  induction fuel with
  | zero => exact fun _ _ _ => rfl
  | succ fuel inductionHypothesis =>
    have rest := leads_to Aligned.spend (invariant.either (leads_to lockstep inductionHypothesis))
    rintro left right ⟨⟨profile, rfl⟩, values, scratch⟩
    exact congrArg (_ && ·) (rest _ _ ⟨⟨profile, rfl⟩, values, scratch⟩)

mutual

/-- Whether a run is barred does not depend on notes. -/
theorem barred (reached : Nat → Bool) (statement : Statement α) :
    Invariant count (statement.barred reached) := by
  cases statement with
  | block noted parts => exact leads_to (Aligned.note noted noted) (barred_all reached parts)
  | loop condition body =>
    rintro left right ⟨⟨profile, rfl⟩, values, scratch⟩
    simp only [Statement.barred]
    split
    · rfl
    · exact barred_while condition (Aligned.run body) (barred reached body) left.remaining _ _
        ⟨⟨profile, rfl⟩, values, scratch⟩
  | skip | read | write | basic => exact fun _ _ _ => rfl

/-- Whether a run of statements is barred does not depend on notes. -/
theorem barred_all (reached : Nat → Bool) (statements : List (Statement α)) :
    Invariant count (Statement.barredAll reached statements) := by
  cases statements with
  | nil => exact fun _ _ _ => rfl
  | cons statement rest =>
    exact (barred reached statement).either
      (leads_to (Aligned.run statement) (barred_all reached rest))

end

end Machine.Invariant

end ProgramSearch
