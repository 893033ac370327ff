import ProgramSearch.Proofs.Random.Draw
import ProgramSearch.Training.Climb

/-!
# What hill climbing keeps

A climb only ever keeps programs that were proposed to it. If every worker and every refinement
turns a program that obeys a law into one that obeys it, then so does the whole training, and a
training fails only for a reason that one of them, or the start, may have to fail.

A worker that breaks off contributes nothing, so only faults of workers matter here. A training
itself breaks off only where its start or a refined program does.
-/

namespace ProgramSearch

variable {P α : Type}

/-- An answer is as promised, or it is a failure for an allowed reason. -/
def Answers {β : Type} (allowed : Failure → Prop) (promised : β → Prop) :
    Except Failure β → Prop
  | .ok value => promised value
  | .error failure => allowed failure

/-- An answer may promise less. -/
theorem Answers.weaken {β : Type} {allowed : Failure → Prop} {promised expected : β → Prop}
    {answer : Except Failure β} (answers : Answers allowed promised answer)
    (implies : ∀ value, promised value → expected value) :
    Answers allowed expected answer := by
  cases answer with
  | ok value => exact implies value answers
  | error failure => exact answers

/-- The answer to a request is as the request ensures. -/
theorem Draw.Ensures.answer {β : Type} {allowed : Failure → Prop} {promised : β → Prop}
    {request : Draw β} (ensures : Draw.Ensures allowed promised request) (stream : Stream) :
    Answers allowed promised (request.answer stream) := by
  have holds := ensures stream
  rw [Draw.answer]
  cases drawn : request stream with
  | ok value rest =>
    rw [drawn] at holds
    exact holds
  | error failure rest =>
    rw [drawn] at holds
    exact holds

/-- The failures that a worker may have: it may break off, for this goes unnoticed. -/
def Overlooking (allowed : Failure → Prop) (failure : Failure) : Prop :=
  failure = .crash ∨ allowed failure

/-- What is allowed to a training is allowed to its workers. -/
theorem Draw.Ensures.overlook {β : Type} {allowed : Failure → Prop} {promised : β → Prop}
    {request : Draw β} (ensures : Draw.Ensures allowed promised request) :
    Draw.Ensures (Overlooking allowed) promised request :=
  ensures.permit fun _ => .inr

/-- A fault of a worker is allowed to the training as well. -/
theorem Overlooking.fault {allowed : Failure → Prop} {cause : Fault}
    (overlooked : Overlooking allowed (.fault cause)) : allowed (.fault cause) :=
  overlooked.resolve_left nofun

/-- Everything that happens in a round keeps a law for programs, or fails for an allowed reason. A
worker may also break off. -/
structure Rounds.Keeps (rounds : Rounds P α) (allowed : Failure → Prop) (law : P → Prop) :
    Prop where
  propose : ∀ round elite, law elite → ∀ answer ∈ rounds.propose round elite,
    Answers (Overlooking allowed) (fun candidate => law candidate.program) answer
  refine : ∀ round elite, law elite.program →
    Answers allowed (fun challenger => ∀ candidate, challenger = some candidate →
      law candidate.program) (rounds.refine round elite)

section Join

variable {allowed : Failure → Prop} {law : P → Prop}

/-- The candidates of a round obey the law that all workers keep, and a round that fails has a
worker with that fault. -/
theorem join_round_answers {answers : List (Except Failure (Candidate P α))}
    (each : ∀ answer ∈ answers,
      Answers (Overlooking allowed) (fun candidate => law candidate.program) answer) :
    Answers allowed (fun candidates => ∀ candidate ∈ candidates, law candidate.program)
      ((joinRound answers).mapError .fault) := by
  induction answers with
  | nil =>
    intro candidate member
    cases member
  | cons answer rest inductionHypothesis =>
    have others := inductionHypothesis fun other member =>
      each other (List.mem_cons_of_mem answer member)
    have own := each answer List.mem_cons_self
    cases answer with
    | ok first =>
      rw [joinRound]
      generalize joinRound rest = joined at others ⊢
      cases joined with
      | ok found =>
        intro candidate member
        rcases List.mem_cons.mp member with rfl | later
        · exact own
        · exact others candidate later
      | error cause => exact others
    | error failure =>
      cases failure with
      | crash => exact others
      | fault cause => exact own.fault

end Join

variable [Number α]

/-- The better one of two candidates is one of the two. -/
theorem Candidate.better_cases {start : Option (Candidate P α)} {other candidate : Candidate P α}
    (chosen : Candidate.better start other = some candidate) :
    start = some candidate ∨ other = candidate := by
  unfold Candidate.better at chosen
  split at chosen
  · exact .inr (Option.some.inj chosen)
  · split at chosen
    · exact .inl chosen
    · exact .inr (Option.some.inj chosen)

/-- The best one of a start and some candidates is the start or one of them. -/
theorem Candidate.foldl_better_cases {start : Option (Candidate P α)}
    {candidates : List (Candidate P α)} {candidate : Candidate P α}
    (chosen : candidates.foldl Candidate.better start = some candidate) :
    start = some candidate ∨ candidate ∈ candidates := by
  induction candidates generalizing start with
  | nil => exact .inl chosen
  | cons first rest inductionHypothesis =>
    rcases inductionHypothesis chosen with kept | later
    · rcases Candidate.better_cases kept with before | rfl
      · exact .inl before
      · exact .inr List.mem_cons_self
    · exact .inr (List.mem_cons_of_mem first later)

/-- The best candidate is one of those that were there. -/
theorem Candidate.best_member {candidates : List (Candidate P α)} {candidate : Candidate P α}
    (best : Candidate.best? candidates = some candidate) : candidate ∈ candidates := by
  rcases Candidate.foldl_better_cases best with none | member
  · cases none
  · exact (List.mem_filter.mp member).1

namespace Climb

variable {allowed : Failure → Prop} {law : P → Prop}

/-- A phase of a round keeps a law: the elite that it goes on with and the result that it ends with
obey the law, or it fails for an allowed reason. -/
def Phase.Keeps (allowed : Failure → Prop) (law : P → Prop) (phase : Phase P α) : Prop :=
  Answers allowed (fun state => match state with
    | .inl climb => law climb.elite.program
    | .inr outcome => law outcome.program) phase.state

variable {rounds : Rounds P α} {number : Nat} {climb : Climb P α}
  {challenger : Option (Candidate P α)}

/-- A challenge ends with the elite or the challenger. -/
theorem challenge_keeps (holds : law climb.elite.program)
    (challenges : ∀ candidate, challenger = some candidate → law candidate.program) :
    (challenge rounds number climb challenger).Keeps allowed law := by
  unfold challenge
  split
  · exact holds
  · rename_i candidate
    split
    · exact challenges candidate rfl
    · exact challenges candidate rfl
    · exact holds

/-- So does the challenge of a refined elite. -/
theorem challenge_refined_keeps (holds : law climb.elite.program)
    (challenges : ∀ candidate, challenger = some candidate → law candidate.program) :
    (challengeRefined number climb challenger).Keeps allowed law := by
  unfold challengeRefined
  split
  · exact holds
  · rename_i candidate
    split
    · exact challenges candidate rfl
    · exact challenges candidate rfl
    · exact holds

/-- The first half of a round keeps what the workers keep. -/
theorem proposals_keeps (keeps : rounds.Keeps allowed law) (holds : law climb.elite.program) :
    (proposals rounds number climb).Keeps allowed law := by
  have answers := join_round_answers (keeps.propose number climb.elite.program holds)
  unfold proposals
  split
  · rename_i cause joined
    rw [joined] at answers
    exact answers
  · rename_i candidates joined
    rw [joined] at answers
    apply challenge_keeps holds
    intro candidate best
    exact answers candidate (Candidate.best_member best)

/-- The second half of a round keeps what refinement keeps. -/
theorem refinement_keeps (keeps : rounds.Keeps allowed law) (holds : law climb.elite.program) :
    (refinement rounds number climb).Keeps allowed law := by
  have refined := keeps.refine number climb.elite holds
  unfold refinement
  split
  · rename_i failure failed
    rw [failed] at refined
    exact refined
  · rename_i challenger answered
    rw [answered] at refined
    exact challenge_refined_keeps holds refined

/-- A whole round keeps what its halves keep. -/
theorem round_keeps (keeps : rounds.Keeps allowed law) (holds : law climb.elite.program) :
    (round rounds number climb).Keeps allowed law := by
  have first : (proposals rounds number climb).Keeps allowed law := proposals_keeps keeps holds
  unfold round
  split
  · rename_i notices next proposed
    rw [proposed] at first
    have second : (refinement rounds number next).Keeps allowed law := refinement_keeps keeps first
    exact second
  · exact first

/-- Any number of rounds keeps what one round keeps. -/
theorem go_keeps (keeps : rounds.Keeps allowed law) (remaining number : Nat) (climb : Climb P α)
    (told : List (Notice α)) (holds : law climb.elite.program) :
    Answers allowed (fun outcome => law outcome.program)
      (go rounds remaining number climb told).2 := by
  induction remaining generalizing number climb told with
  | zero => exact holds
  | succ remaining inductionHypothesis =>
    have once : (round rounds number climb).Keeps allowed law := round_keeps keeps holds
    rw [go]
    split
    · rename_i notices next done
      rw [done] at once
      exact inductionHypothesis _ next _ once
    · rename_i notices outcome done
      rw [done] at once
      exact once
    · rename_i notices failure done
      rw [done] at once
      exact once

end Climb

/-- A training whose start obeys a law that every round keeps has a result that obeys it, or it
fails for a reason that the start or a round may have. -/
theorem Training.of_start_keeps {rounds : Rounds P α} {allowed : Failure → Prop} {law : P → Prop}
    (keeps : rounds.Keeps allowed law) (iterations : Nat) (stream : Stream)
    {start : Draw (Candidate P α)}
    (starts : start.Ensures allowed fun candidate => law candidate.program) :
    Answers allowed (fun outcome => law outcome.program)
      (Training.ofStart rounds iterations stream start).result := by
  have begun := starts stream
  rw [Training.ofStart]
  cases drawn : start stream with
  | error failure rest =>
    rw [drawn] at begun
    exact begun
  | ok candidate rest =>
    rw [drawn] at begun
    simp only [Rounds.run]
    split
    · exact begun
    · exact Climb.go_keeps keeps iterations 0 ⟨candidate, 0⟩ [] begun

end ProgramSearch
