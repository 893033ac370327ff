import ProgramSearch.Proofs.Number.Order
import ProgramSearch.Training.Climb

/-!
# Which candidate leads

Among the answers of one round the best candidate is the one with the highest rank, and of those that
share it, the last one. Over a whole training it is the other way round: the elite only gives way to
a candidate whose score is strictly higher, so it is the first one among all that were ever equal to
the best. The number of times it gave way is the number of scores that exceeded all scores before.

Scores that are not a number take no part in either choice.
-/

namespace ProgramSearch

variable {P α : Type}

/-- The candidates that workers returned, in the order of the workers. -/
def returned (answers : List (Except Failure (Candidate P α))) : List (Candidate P α) :=
  answers.filterMap Except.toOption

namespace Candidate

variable [Number α]

/-- A candidate with this score ends the training. -/
def hits (candidate : Candidate P α) : Bool := Number.equal candidate.score Number.infinity

/-- The score of the candidate can be compared. -/
def scored (candidate : Candidate P α) : Bool := !Number.isNaN candidate.score

/-- A candidate of the answers has the highest rank, and the ranks after it are lower. -/
def LastBest (answers : List (Except Failure (Candidate P α))) (best : Candidate P α) : Prop :=
  best.scored = true ∧ ∃ before after, answers = before ++ .ok best :: after ∧
    (∀ candidate, .ok candidate ∈ before → candidate.scored = true →
      Number.rank candidate.score ≤ Number.rank best.score) ∧
    ∀ candidate, .ok candidate ∈ after → candidate.scored = true →
      Number.rank candidate.score < Number.rank best.score

/-- A candidate of the list is not exceeded by any other one, and it exceeds those before it. -/
def FirstBest (candidates : List (Candidate P α)) (best : Candidate P α) : Prop :=
  ∃ before after, candidates = before ++ best :: after ∧
    (∀ candidate ∈ before, candidate.scored = true →
      Number.below candidate.score best.score = true) ∧
    ∀ candidate ∈ after, Number.below best.score candidate.score = false

/-- The elite after a number of challenges: every challenger with a higher score takes its place. -/
def leader (elite : Candidate P α) (challengers : List (Candidate P α)) : Candidate P α :=
  challengers.foldl
    (fun elite challenger =>
      if Number.below elite.score challenger.score then challenger else elite) elite

theorem leader_cons (elite challenger : Candidate P α) (rest : List (Candidate P α)) :
    leader elite (challenger :: rest) =
      leader (if Number.below elite.score challenger.score then challenger else elite) rest :=
  rfl

theorem leader_append (elite : Candidate P α) (first second : List (Candidate P α)) :
    leader elite (first ++ second) = leader (leader elite first) second :=
  List.foldl_append

/-- How many candidates of the list exceed every candidate before them. -/
def records (before : List (Candidate P α)) : List (Candidate P α) → Nat
  | [] => 0
  | candidate :: rest =>
    let exceeds := before.all fun earlier =>
      !earlier.scored || Number.below earlier.score candidate.score
    (if exceeds then 1 else 0) + records (before ++ [candidate]) rest

/-- Choosing the better one again and again leads to the last one with the highest rank. -/
theorem foldl_better (rest : List (Candidate P α)) (first : Candidate P α) :
    ∃ best, rest.foldl better (some first) = some best ∧
      ∃ before after, first :: rest = before ++ best :: after ∧
        (∀ candidate ∈ before, Number.rank candidate.score ≤ Number.rank best.score) ∧
        ∀ candidate ∈ after, Number.rank candidate.score < Number.rank best.score := by
  induction rest generalizing first with
  | nil => exact ⟨first, rfl, [], [], rfl, nofun, nofun⟩
  | cons second rest inductionHypothesis =>
    rw [List.foldl_cons, better]
    -- If the first one is better, the second one joins those behind the best one, or those before
    -- it. Otherwise the first one is dropped before the second one.
    by_cases lower : Number.rank second.score < Number.rank first.score
    · obtain ⟨best, chosen, before, after, split, earlier, later⟩ := inductionHypothesis first
      rw [if_pos lower]
      refine ⟨best, chosen, ?_⟩
      cases before with
      | nil =>
        obtain ⟨rfl, rfl⟩ := List.cons.inj split
        refine ⟨[], second :: rest, rfl, nofun, fun candidate member => ?_⟩
        rcases List.mem_cons.mp member with rfl | other
        · exact lower
        · exact later candidate other
      | cons start before =>
        obtain ⟨rfl, rfl⟩ := List.cons.inj split
        have bound := earlier first List.mem_cons_self
        refine ⟨first :: second :: before, after, rfl, fun candidate member => ?_, later⟩
        rcases List.mem_cons.mp member with rfl | member
        · exact bound
        · rcases List.mem_cons.mp member with rfl | other
          · omega
          · exact earlier candidate (List.mem_cons_of_mem _ other)
    · obtain ⟨best, chosen, before, after, split, earlier, later⟩ := inductionHypothesis second
      rw [if_neg lower]
      refine ⟨best, chosen, first :: before, after, congrArg (first :: ·) split, ?_, later⟩
      intro candidate member
      rcases List.mem_cons.mp member with rfl | other
      · cases before with
        | nil =>
          obtain ⟨rfl, rfl⟩ := List.cons.inj split
          omega
        | cons start before =>
          obtain ⟨rfl, rfl⟩ := List.cons.inj split
          have bound := earlier second List.mem_cons_self
          omega
      · exact earlier candidate other

/-- The answers from which the best one is chosen: those with a score that can be compared. -/
theorem returned_scored (answers : List (Except Failure (Candidate P α))) :
    (returned answers).filter scored =
      answers.filterMap fun answer => answer.toOption.filter scored := by
  rw [returned, List.filter_filterMap]

/-- An answer that takes part in the choice is a candidate that can be compared. -/
theorem answer_scored {answer : Except Failure (Candidate P α)} {candidate : Candidate P α} :
    answer.toOption.filter scored = some candidate ↔
      answer = .ok candidate ∧ candidate.scored = true := by
  rw [Option.filter_eq_some_iff]
  cases answer <;> simp [Except.toOption]

/-- The best candidate of a round is the last one with the highest rank. There is none exactly when
no worker returned a candidate that can be compared. -/
theorem best_last (answers : List (Except Failure (Candidate P α))) :
    (∀ best, best? (returned answers) = some best → LastBest answers best) ∧
      (best? (returned answers) = none →
        ∀ candidate, .ok candidate ∈ answers → candidate.scored = false) := by
  have chosen : best? (returned answers) =
      (answers.filterMap fun answer => answer.toOption.filter scored).foldl better none := by
    rw [← returned_scored]
    rfl
  rw [chosen]
  have members (part : List (Except Failure (Candidate P α))) (candidate : Candidate P α)
      (member : .ok candidate ∈ part) (comparable : candidate.scored = true) :
      candidate ∈ part.filterMap fun answer => answer.toOption.filter scored :=
    List.mem_filterMap.mpr ⟨_, member, answer_scored.mpr ⟨rfl, comparable⟩⟩
  cases found : answers.filterMap fun answer => answer.toOption.filter scored with
  | nil =>
    refine ⟨nofun, fun _ candidate member => ?_⟩
    rw [Bool.eq_false_iff]
    intro comparable
    have listed := members answers candidate member comparable
    rw [found] at listed
    cases listed
  | cons first rest =>
    obtain ⟨best, folded, before, after, split, earlier, later⟩ := foldl_better rest first
    rw [List.foldl_cons, show better none first = some first from rfl, folded]
    refine ⟨?_, nofun⟩
    rintro _ ⟨⟩
    rw [split, List.filterMap_eq_append_iff] at found
    obtain ⟨firstAnswers, others, rfl, rfl, found⟩ := found
    rw [List.filterMap_eq_cons_iff] at found
    obtain ⟨skipped, answer, lastAnswers, rfl, none, own, rfl⟩ := found
    obtain ⟨rfl, comparable⟩ := answer_scored.mp own
    refine ⟨comparable, firstAnswers ++ skipped, lastAnswers, by simp, ?_, ?_⟩
    · intro candidate member comparable
      rcases List.mem_append.mp member with old | beyond
      · exact earlier candidate (members _ candidate old comparable)
      · have dropped := none _ beyond
        rw [answer_scored.mpr ⟨rfl, comparable⟩] at dropped
        cases dropped
    · intro candidate member comparable
      exact later candidate (members _ candidate member comparable)

section Order

variable (order : Number.OrderLaws α) {elite : Candidate P α}

include order

/-- A candidate that exceeds another one can be compared. -/
theorem scored_of_below {candidate : Candidate P α} {score : α}
    (lower : Number.below score candidate.score = true) : candidate.scored = true := by
  rw [scored, (order.defined_of_below _ _ lower).2]
  rfl

/-- An elite that can be compared leads to one that can. -/
theorem leader_scored (comparable : elite.scored = true) (challengers : List (Candidate P α)) :
    (leader elite challengers).scored = true := by
  induction challengers generalizing elite with
  | nil => exact comparable
  | cons challenger rest inductionHypothesis =>
    rw [leader_cons]
    apply inductionHypothesis
    split
    · rename_i lower
      exact scored_of_below order lower
    · exact comparable

/-- The leader is the first one among the best of the elite and its challengers. -/
theorem leader_first (comparable : elite.scored = true) (challengers : List (Candidate P α)) :
    FirstBest (elite :: challengers) (leader elite challengers) := by
  induction challengers generalizing elite with
  | nil => exact ⟨[], [], rfl, nofun, nofun⟩
  | cons challenger rest inductionHypothesis =>
    rw [leader_cons]
    -- A challenger that is not higher than the elite may still come before the leader. It is
    -- exceeded there because the elite is.
    by_cases lower : Number.below elite.score challenger.score = true
    · rw [if_pos lower]
      obtain ⟨before, after, split, earlier, later⟩ :=
        inductionHypothesis (scored_of_below order lower)
      generalize leader challenger rest = best at split earlier later ⊢
      refine ⟨elite :: before, after, congrArg (elite :: ·) split, ?_, later⟩
      intro candidate member known
      rcases List.mem_cons.mp member with rfl | other
      · cases before with
        | nil =>
          obtain ⟨same, rfl⟩ := List.cons.inj split
          exact same ▸ lower
        | cons start before =>
          obtain ⟨rfl, rfl⟩ := List.cons.inj split
          exact order.below_trans lower
            (earlier challenger List.mem_cons_self (scored_of_below order lower))
      · exact earlier candidate other known
    · rw [if_neg lower]
      obtain ⟨before, after, split, earlier, later⟩ := inductionHypothesis comparable
      generalize leader elite rest = best at split earlier later ⊢
      cases before with
      | nil =>
        obtain ⟨same, rfl⟩ := List.cons.inj split
        subst same
        refine ⟨[], challenger :: rest, rfl, nofun, ?_⟩
        intro candidate member
        rcases List.mem_cons.mp member with rfl | other
        · exact Bool.eq_false_iff.mpr lower
        · exact later candidate other
      | cons start before =>
        obtain ⟨rfl, rfl⟩ := List.cons.inj split
        have exceeded := earlier elite List.mem_cons_self comparable
        refine ⟨elite :: challenger :: before, after, rfl, ?_, later⟩
        intro candidate member known
        rcases List.mem_cons.mp member with rfl | member
        · exact exceeded
        · rcases List.mem_cons.mp member with rfl | other
          · rw [scored, Bool.not_eq_true'] at known
            rcases order.below_split _ candidate.score _ exceeded known with above | above
            · exact absurd above lower
            · exact above
          · exact earlier candidate (List.mem_cons_of_mem _ other) known

/-- No challenger exceeds the leader. -/
theorem FirstBest.maximum {candidates : List (Candidate P α)} {best : Candidate P α}
    (first : FirstBest candidates best) :
    ∀ candidate ∈ candidates, Number.below best.score candidate.score = false := by
  obtain ⟨before, after, rfl, earlier, later⟩ := first
  intro candidate member
  rcases List.mem_append.mp member with old | beyond
  · rw [Bool.eq_false_iff]
    intro exceeds
    have lower := earlier candidate old (scored_of_below order exceeds)
    rw [order.below_asymm _ _ lower] at exceeds
    cases exceeds
  · rcases List.mem_cons.mp beyond with rfl | other
    · exact order.below_irrefl _
    · exact later candidate other

/-- A candidate exceeds the leader exactly when it exceeds the elite and all challengers. -/
theorem below_leader_iff (comparable : elite.scored = true) (challengers : List (Candidate P α))
    (candidate : Candidate P α) :
    Number.below (leader elite challengers).score candidate.score =
      (elite :: challengers).all fun earlier =>
        !earlier.scored || Number.below earlier.score candidate.score := by
  have first := leader_first order comparable challengers
  rw [Bool.eq_iff_iff, List.all_eq_true]
  constructor
  · intro exceeds earlier member
    rw [Bool.or_eq_true, Bool.not_eq_true', ← Bool.not_eq_true, ← Decidable.imp_iff_not_or]
    intro known
    rw [scored, Bool.not_eq_true'] at known
    rcases order.below_split _ earlier.score _ exceeds known with above | above
    · rw [first.maximum order earlier member] at above
      cases above
    · exact above
  · intro exceeds
    obtain ⟨before, after, split, _⟩ := first
    have own := exceeds (leader elite challengers) (by rw [split]; simp)
    rw [leader_scored order comparable challengers] at own
    exact own

end Order

end Candidate

end ProgramSearch
