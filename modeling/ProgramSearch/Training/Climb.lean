import ProgramSearch.Random.Draw
import ProgramSearch.Training.Score

/-!
# Hill climbing

Training keeps one elite program. In each round every worker proposes a candidate, and
the best of them challenges the elite; then the elite may be refined, and the refined
program challenges it again. A challenger with a positive infinity ends the training,
a strictly better one replaces the elite, and any other one is dropped.

A worker that breaks off contributes nothing. A fault of any worker ends the training.
-/

namespace ProgramSearch

variable {P α : Type}

/-- The result of a training. -/
structure Outcome (P α : Type) where
  program : P
  score : α
  rounds : Nat
  improvements : Nat

/-- What is worth telling about a training while it runs. -/
inductive Notice (α : Type) where
  | solved (round : Nat)
  /-- Some kinds of programs also tell their size. -/
  | improved (round : Nat) (before after : α) (size : Option Nat)
  | solvedByRefinement (round : Nat)
  | refined (round : Nat) (before after : α)
  | exhausted (score : α)

/-- What a kind of training does in a round. -/
structure Rounds (P α : Type) where
  /-- The answers of all workers, in their order. -/
  propose : Nat → P → List (Except Failure (Candidate P α))
  /-- A refined elite, if there is one to try. -/
  refine : Nat → Candidate P α → Except Failure (Option (Candidate P α))
  /-- The size that an improvement tells. -/
  size : P → Option Nat

/-- The candidates of a round. The first fault, in the order of the workers, wins. -/
def joinRound : List (Except Failure (Candidate P α)) → Except Fault (List (Candidate P α))
  | [] => .ok []
  | .ok candidate :: rest => (joinRound rest).map (candidate :: ·)
  | .error .crash :: rest => joinRound rest
  | .error (.fault cause) :: _ => .error cause

/-- A training in progress. -/
structure Climb (P α : Type) where
  elite : Candidate P α
  improvements : Nat

/-- What a challenge comes to. -/
inductive Verdict where
  | solved
  | improved
  | unchanged
deriving DecidableEq, Repr

namespace Climb

variable [Number α]

/-- How a challenger fares against the elite. -/
def verdict (climb : Climb P α) (challenger : Candidate P α) : Verdict :=
  if Number.equal challenger.score Number.infinity then .solved
  else if Number.below climb.elite.score challenger.score then .improved
  else .unchanged

/-- The training after a challenge that did not end it. -/
def replace (climb : Climb P α) (challenger : Candidate P α) : Climb P α :=
  ⟨challenger, climb.improvements + 1⟩

/-- The result when a challenger solves the task in a round. -/
def solvedOutcome (climb : Climb P α) (round : Nat) (challenger : Candidate P α) : Outcome P α :=
  ⟨challenger.program, challenger.score, round + 1, climb.improvements + 1⟩

/-- What a phase of a round leaves: the notices it gave, and either the training that goes
on or its result. -/
structure Phase (P α : Type) where
  notices : List (Notice α)
  state : Except Failure (Climb P α ⊕ Outcome P α)

/-- Let the best candidate of a round challenge the elite. -/
def challenge (rounds : Rounds P α) (round : Nat) (climb : Climb P α)
    (challenger : Option (Candidate P α)) : Phase P α :=
  match challenger with
  | none => ⟨[], .ok (.inl climb)⟩
  | some challenger =>
    match climb.verdict challenger with
    | .solved => ⟨[.solved round], .ok (.inr (climb.solvedOutcome round challenger))⟩
    | .improved =>
      ⟨[.improved round climb.elite.score challenger.score (rounds.size challenger.program)],
        .ok (.inl (climb.replace challenger))⟩
    | .unchanged => ⟨[], .ok (.inl climb)⟩

/-- Let a refined elite challenge the elite. -/
def challengeRefined (round : Nat) (climb : Climb P α) (challenger : Option (Candidate P α)) :
    Phase P α :=
  match challenger with
  | none => ⟨[], .ok (.inl climb)⟩
  | some challenger =>
    match climb.verdict challenger with
    | .solved => ⟨[.solvedByRefinement round], .ok (.inr (climb.solvedOutcome round challenger))⟩
    | .improved =>
      ⟨[.refined round climb.elite.score challenger.score], .ok (.inl (climb.replace challenger))⟩
    | .unchanged => ⟨[], .ok (.inl climb)⟩

/-- The first half of a round. -/
def proposals (rounds : Rounds P α) (round : Nat) (climb : Climb P α) : Phase P α :=
  match joinRound (rounds.propose round climb.elite.program) with
  | .error cause => ⟨[], .error (.fault cause)⟩
  | .ok candidates => challenge rounds round climb (Candidate.best? candidates)

/-- The second half of a round. -/
def refinement (rounds : Rounds P α) (round : Nat) (climb : Climb P α) : Phase P α :=
  match rounds.refine round climb.elite with
  | .error failure => ⟨[], .error failure⟩
  | .ok challenger => challengeRefined round climb challenger

/-- A whole round. A training that ended in the first half is not refined. -/
def round (rounds : Rounds P α) (number : Nat) (climb : Climb P α) : Phase P α :=
  match proposals rounds number climb with
  | ⟨notices, .ok (.inl climb)⟩ =>
    let rest := refinement rounds number climb
    ⟨notices ++ rest.notices, rest.state⟩
  | phase => phase

/-- Train for the remaining rounds. Notices are collected in reverse. -/
def go (rounds : Rounds P α) : Nat → Nat → Climb P α → List (Notice α) →
    List (Notice α) × Except Failure (Outcome P α)
  | 0, number, climb, told =>
    ((.exhausted climb.elite.score :: told).reverse,
      .ok ⟨climb.elite.program, climb.elite.score, number, climb.improvements⟩)
  | remaining + 1, number, climb, told =>
    match round rounds number climb with
    | ⟨notices, .ok (.inl climb)⟩ =>
      go rounds remaining (number + 1) climb (notices.reverse ++ told)
    | ⟨notices, .ok (.inr outcome)⟩ => (told.reverse ++ notices, .ok outcome)
    | ⟨notices, .error failure⟩ => (told.reverse ++ notices, .error failure)

end Climb

/-- Train from a scored starting program. A start that already solves the task ends the
training before the first round. -/
def Rounds.run [Number α] (rounds : Rounds P α) (iterations : Nat) (start : Candidate P α) :
    List (Notice α) × Except Failure (Outcome P α) :=
  if Number.equal start.score Number.infinity then ([], .ok ⟨start.program, start.score, 0, 0⟩)
  else Climb.go rounds iterations 0 ⟨start, 0⟩ []

/-- The notices and the result of a whole training. -/
structure Training (P α : Type) where
  notices : List (Notice α)
  result : Except Failure (Outcome P α)

namespace Training

def failed (failure : Failure) : Training P α := ⟨[], .error failure⟩

/-- Score a starting program with a stream of its own and train from it. -/
def ofStart [Number α] (rounds : Rounds P α) (iterations : Nat) (stream : Stream)
    (start : Draw (Candidate P α)) : Training P α :=
  match start stream with
  | .error failure _ => failed failure
  | .ok candidate _ =>
    let (notices, result) := rounds.run iterations candidate
    ⟨notices, result⟩

end Training

/-- The answer of a draw, without the stream that is left. -/
def Draw.answer {β : Type} (request : Draw β) (stream : Stream) : Except Failure β :=
  match request stream with
  | .ok value _ => .ok value
  | .error failure _ => .error failure

end ProgramSearch
