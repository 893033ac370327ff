import ProgramSearch.Proofs.Random.Agreement
import ProgramSearch.Proofs.Training.Climb

/-!
# Trainings that agree

Two kinds of training agree on a law when they propose and refine alike as long as the elite obeys
it. A climb that keeps the law never leaves the programs on which they agree, so from the same start
both climbs go the same way: they give the same notices in the same rounds and end with the same
result.
-/

namespace ProgramSearch

variable {P α : Type}

/-- From an elite that obeys the law, both kinds of training do the same in every round. -/
structure Rounds.Agree (rounds other : Rounds P α) (law : P → Prop) : Prop where
  propose : ∀ round elite, law elite → rounds.propose round elite = other.propose round elite
  refine : ∀ round elite, law elite.program →
    rounds.refine round elite = other.refine round elite
  size : rounds.size = other.size

variable [Number α] {rounds other : Rounds P α} {law : P → Prop}

namespace Climb

variable {climb : Climb P α}

/-- Climbs that agree have the same first half of a round. -/
theorem proposals_agree (agree : rounds.Agree other law) (number : Nat)
    (holds : law climb.elite.program) :
    proposals rounds number climb = proposals other number climb := by
  simp only [proposals, challenge, agree.propose number _ holds, agree.size]

/-- Climbs that agree have the same second half of a round. -/
theorem refinement_agree (agree : rounds.Agree other law) (number : Nat)
    (holds : law climb.elite.program) :
    refinement rounds number climb = refinement other number climb := by
  simp only [refinement, agree.refine number _ holds]

variable {allowed : Failure → Prop}

/-- Climbs that agree have the same rounds. The elite that a round refines obeys the law, because
the first half keeps it. -/
theorem round_agree (agree : rounds.Agree other law) (keeps : rounds.Keeps allowed law)
    (number : Nat) (holds : law climb.elite.program) :
    round rounds number climb = round other number climb := by
  have first : (proposals rounds number climb).Keeps allowed law := proposals_keeps keeps holds
  unfold round
  rw [← proposals_agree agree number holds]
  split
  · rename_i notices next proposed
    rw [proposed] at first
    rw [refinement_agree agree number first]
  · rfl

/-- Climbs that agree go the same way for any number of rounds. -/
theorem go_agree (agree : rounds.Agree other law) (keeps : rounds.Keeps allowed law)
    (remaining number : Nat) (climb : Climb P α) (told : List (Notice α))
    (holds : law climb.elite.program) :
    go rounds remaining number climb told = go other remaining number climb told := by
  induction remaining generalizing number climb told with
  | zero => rfl
  | succ remaining inductionHypothesis =>
    have once : (round rounds number climb).Keeps allowed law := round_keeps keeps holds
    rw [go, go, ← round_agree agree keeps number holds]
    split
    · rename_i notices next done
      rw [done] at once
      exact inductionHypothesis _ next _ once
    · rfl
    · rfl

end Climb

/-- Trainings that agree are the same from starts that agree in programs that obey the law. -/
theorem Training.of_start_agree {allowed : Failure → Prop} (agree : rounds.Agree other law)
    (keeps : rounds.Keeps allowed law) (iterations : Nat) (stream : Stream)
    {start otherStart : Draw (Candidate P α)}
    (starts : Draw.Alike (Draw.Shared fun candidate => law candidate.program) start otherStart) :
    ofStart rounds iterations stream start = ofStart other iterations stream otherStart := by
  have begun := starts.ensures stream
  rw [ofStart, ofStart, ← starts.same]
  cases drawn : start stream with
  | error failure rest => rfl
  | ok candidate rest =>
    rw [drawn] at begun
    simp only [Rounds.run, Climb.go_agree agree keeps iterations 0 ⟨candidate, 0⟩ [] begun]

end ProgramSearch
