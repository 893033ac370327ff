import ProgramSearch.Proofs.Worker.Batch

/-!
# Trainings with a crew of workers

The main thread of a training enqueues the proposals of a round, joins them, lets the best candidate
challenge the elite, and has the elite refined. What its workers do in a round is up to the kind of
training, but all of them use one pool of pages.

If the batches of a crew come to the answers that workers give one after the other, then the whole
training comes to the one with these answers, in whatever order the workers take their steps.
-/

namespace ProgramSearch

variable {P α T : Type}

/-- What the workers of a kind of training do in a round. -/
structure Crew (P α T : Type) where
  /-- One task for each worker. -/
  propose : Nat → P → List (Process α (Except Failure T))
  /-- The candidates that an answer reports. -/
  candidates : T → List (Candidate P α)
  refine : Nat → Candidate P α →
    Plan α (Except Failure T) (Except Failure (Option (Candidate P α)))
  /-- The size that an improvement tells. -/
  size : P → Option Nat

namespace Crew

variable [Number α] (crew : Crew P α T)

/-- The rounds without any work. They tell the same sizes. -/
def idle : Rounds P α where
  propose _ _ := []
  refine _ _ := .ok none
  size := crew.size

/-- The first half of a round. -/
def proposals (round : Nat) (climb : Climb P α) :
    Plan α (Except Failure T) (Climb.Phase P α) := do
  match ← Plan.batch crew.candidates (crew.propose round climb.elite.program) with
  | .error cause => pure ⟨[], .error (.fault cause)⟩
  | .ok candidates => pure (Climb.challenge crew.idle round climb (Candidate.best? candidates))

/-- The second half of a round. -/
def refinement (round : Nat) (climb : Climb P α) :
    Plan α (Except Failure T) (Climb.Phase P α) := do
  match ← crew.refine round climb.elite with
  | .error failure => pure ⟨[], .error failure⟩
  | .ok challenger => pure (Climb.challengeRefined round climb challenger)

/-- A whole round. A training that ended in the first half is not refined. -/
def round (number : Nat) (climb : Climb P α) : Plan α (Except Failure T) (Climb.Phase P α) := do
  match ← crew.proposals number climb with
  | ⟨notices, .ok (.inl climb)⟩ => do
    let rest ← crew.refinement number climb
    pure ⟨notices ++ rest.notices, rest.state⟩
  | phase => pure phase

/-- Train for the remaining rounds. Notices are collected in reverse. -/
def go : Nat → Nat → Climb P α → List (Notice α) → Plan α (Except Failure T) (Training P α)
  | 0, number, climb, told =>
    pure ⟨(.exhausted climb.elite.score :: told).reverse,
      .ok ⟨climb.elite.program, climb.elite.score, number, climb.improvements⟩⟩
  | remaining + 1, number, climb, told => do
    match ← crew.round number climb with
    | ⟨notices, .ok (.inl climb)⟩ => go remaining (number + 1) climb (notices.reverse ++ told)
    | ⟨notices, .ok (.inr outcome)⟩ => pure ⟨told.reverse ++ notices, .ok outcome⟩
    | ⟨notices, .error failure⟩ => pure ⟨told.reverse ++ notices, .error failure⟩

/-- Score a starting program and train from it. -/
def train (iterations : Nat) (start : Process α (Except Failure (Candidate P α))) :
    Plan α (Except Failure T) (Training P α) :=
  .perform start fun
    | .error failure => pure (.failed failure)
    | .ok start =>
      if Number.equal start.score Number.infinity then
        pure ⟨[], .ok ⟨start.program, start.score, 0, 0⟩⟩
      else crew.go iterations 0 ⟨start, 0⟩ []

/-- In every round, the crew comes to what workers come to one after the other. -/
structure Follows (crew : Crew P α T) (rounds : Rounds P α) : Prop where
  propose : ∀ round elite, ∃ answers, Process.AllYield (crew.propose round elite) answers ∧
    joined crew.candidates answers = joinRound (rounds.propose round elite)
  refine : ∀ round elite, (crew.refine round elite).Comes (rounds.refine round elite)
  size : crew.size = rounds.size

variable {crew} {rounds : Rounds P α}

/-- A challenge depends on the rounds only in the sizes that they tell. -/
theorem Follows.challenge_idle (follows : crew.Follows rounds) :
    Climb.challenge crew.idle = Climb.challenge rounds := by
  funext number climb challenger
  simp only [Climb.challenge, idle, follows.size]

theorem Follows.proposals (follows : crew.Follows rounds) (number : Nat) (climb : Climb P α) :
    (crew.proposals number climb).Comes (Climb.proposals rounds number climb) := by
  obtain ⟨answers, yield, same⟩ := follows.propose number climb.elite.program
  apply (Plan.batch_comes crew.candidates yield).bind
  rw [same, Climb.proposals]
  cases joinRound (rounds.propose number climb.elite.program) with
  | error cause => exact .pure _
  | ok candidates =>
    rw [follows.challenge_idle]
    exact .pure _

theorem Follows.refinement (follows : crew.Follows rounds) (number : Nat) (climb : Climb P α) :
    (crew.refinement number climb).Comes (Climb.refinement rounds number climb) := by
  apply (follows.refine number climb.elite).bind
  rw [Climb.refinement]
  cases rounds.refine number climb.elite with
  | error failure => exact .pure _
  | ok challenger => exact .pure _

theorem Follows.round (follows : crew.Follows rounds) (number : Nat) (climb : Climb P α) :
    (crew.round number climb).Comes (Climb.round rounds number climb) := by
  apply (follows.proposals number climb).bind
  rw [Climb.round]
  cases Climb.proposals rounds number climb with
  | mk notices state =>
    cases state with
    | error failure => exact .pure _
    | ok state =>
      cases state with
      | inl next => exact (follows.refinement number next).bind (.pure _)
      | inr outcome => exact .pure _

/-- All rounds that are left come to what they come to with workers one after the other. -/
theorem Follows.go (follows : crew.Follows rounds) (remaining number : Nat) (climb : Climb P α)
    (told : List (Notice α)) :
    (crew.go remaining number climb told).Comes
      ⟨(Climb.go rounds remaining number climb told).1,
        (Climb.go rounds remaining number climb told).2⟩ := by
  induction remaining generalizing number climb told with
  | zero => exact .pure _
  | succ remaining inductionHypothesis =>
    apply (follows.round number climb).bind
    rw [Climb.go]
    cases Climb.round rounds number climb with
    | mk notices state =>
      cases state with
      | error failure => exact .pure _
      | ok state =>
        cases state with
        | inl next => exact inductionHypothesis (number + 1) next _
        | inr outcome => exact .pure _

/-- The whole training comes to what it comes to with workers one after the other. -/
theorem Follows.train (follows : crew.Follows rounds) (iterations : Nat) (stream : Stream)
    {start : Draw (Candidate P α)} {process : Process α (Except Failure (Candidate P α))}
    (starts : process.Yields (start.answer stream)) :
    (crew.train iterations process).Comes (Training.ofStart rounds iterations stream start) := by
  apply Plan.Comes.perform starts
  rw [Draw.answer, Training.ofStart]
  cases start stream with
  | error failure rest => exact .pure _
  | ok candidate rest =>
    simp only [Rounds.run]
    by_cases solved : Number.equal candidate.score Number.infinity = true
    · rw [if_pos solved, if_pos solved]
      exact .pure _
    · rw [if_neg solved, if_neg solved]
      exact follows.go iterations 0 ⟨candidate, 0⟩ []

end Crew

end ProgramSearch
