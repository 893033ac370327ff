import ProgramSearch.Proofs.Number.Sum
import ProgramSearch.Proofs.Random.Draw
import ProgramSearch.Proofs.Training.Ranking
import ProgramSearch.Training.Control
import ProgramSearch.Training.Scalar

/-!
# The elite of a training

A training is decided by what its tasks answer: in every round the candidates of the workers, of
which the best one challenges the elite, and then the refined elite, if there is one. The history of
a training lists these answers. Whatever they are, the elite never gets worse, the training stops at
the first challenger that hits, and it returns the first one among the best of the start and all
challengers.

A worker that breaks off is no challenger. The training itself fails exactly when a worker answers
with a fault, or when the merged tree cannot be scored, before a challenger has hit.
-/

namespace ProgramSearch

variable {P α : Type}

/-- What the tasks of one round answer. -/
structure RoundAnswers (P α : Type) where
  /-- The answers of the workers, in their order. -/
  proposals : List (Except Failure (Candidate P α))
  refined : Except Failure (Option (Candidate P α))

/-- The refined elite, if there is one. -/
def RoundAnswers.improved (answers : RoundAnswers P α) : Option (Candidate P α) :=
  answers.refined.toOption.join

/-- The refined elite is the one that was answered. -/
theorem RoundAnswers.improved_of_refined {answers : RoundAnswers P α}
    {challenger : Option (Candidate P α)} (refined : answers.refined = .ok challenger) : answers.improved = challenger := by
  rw [improved, refined]
  rfl

/-- The answers of a training, by the number of the round. -/
abbrev History (P α : Type) := List (Nat × RoundAnswers P α)

/-- The candidates are joined when no worker answers with a fault, and the first fault otherwise. -/
theorem join_round_cases (answers : List (Except Failure (Candidate P α))) :
    ((∀ cause, .error (.fault cause) ∉ answers) ∧ joinRound answers = .ok (returned answers)) ∨
      ∃ cause, .error (.fault cause) ∈ answers ∧ joinRound answers = .error cause := by
  induction answers with
  | nil => exact .inl ⟨nofun, rfl⟩
  | cons answer rest inductionHypothesis =>
    cases answer with
    | ok candidate =>
      rcases inductionHypothesis with ⟨none, joined⟩ | ⟨cause, member, joined⟩
      · refine .inl ⟨fun cause member => ?_, by rw [joinRound, joined]; rfl⟩
        rcases List.mem_cons.mp member with same | other
        · cases same
        · exact none cause other
      · exact .inr ⟨cause, List.mem_cons_of_mem _ member, by rw [joinRound, joined]; rfl⟩
    | error failure =>
      cases failure with
      | crash =>
        rcases inductionHypothesis with ⟨none, joined⟩ | ⟨cause, member, joined⟩
        · refine .inl ⟨fun cause member => ?_, by rw [joinRound, joined]; rfl⟩
          rcases List.mem_cons.mp member with same | other
          · cases same
          · exact none cause other
        · exact .inr ⟨cause, List.mem_cons_of_mem _ member, by rw [joinRound, joined]⟩
      | fault cause => exact .inr ⟨cause, List.mem_cons_self, rfl⟩

variable [Number α]

namespace RoundAnswers

variable (answers : RoundAnswers P α)

/-- The candidate that challenges the elite for the workers. -/
def best : Option (Candidate P α) := Candidate.best? (returned answers.proposals)

/-- The challengers of the round in their order. -/
def challengers : List (Candidate P α) := answers.best.toList ++ answers.improved.toList

/-- No worker answers with a fault. -/
def Faultless : Prop := ∀ cause, .error (.fault cause) ∉ answers.proposals

end RoundAnswers

/-- What the tasks of a round answer when it starts with the given elite. The refinement is asked
for the elite that the best proposal leaves. -/
def Rounds.answers (rounds : Rounds P α) (number : Nat) (elite : Candidate P α) :
    RoundAnswers P α :=
  let proposals := rounds.propose number elite.program
  let challenged := elite.leader (Candidate.best? (returned proposals)).toList
  ⟨proposals, rounds.refine number challenged⟩

/-- What the tasks of a number of rounds answer, each of them asked for the leader so far. -/
def Rounds.history (rounds : Rounds P α) : Nat → Nat → Candidate P α → History P α
  | 0, _, _ => []
  | count + 1, number, elite =>
    let answers := rounds.answers number elite
    (number, answers) :: rounds.history count (number + 1) (elite.leader answers.challengers)

namespace History

/-- All challengers with the numbers of their rounds. -/
def challengers (history : History P α) : List (Nat × Candidate P α) :=
  history.flatMap fun (number, answers) => answers.challengers.map (number, ·)

/-- The first challenger that hits. -/
def hit? (history : History P α) : Option (Nat × Candidate P α) :=
  history.challengers.find? (·.2.hits)

/-- The challengers up to the first one that hits. -/
def upToHit : List (Candidate P α) → List (Candidate P α)
  | [] => []
  | challenger :: rest => challenger :: if challenger.hits then [] else upToHit rest

/-- The challengers that a training meets before it ends. -/
def faced (history : History P α) : List (Candidate P α) :=
  upToHit (history.challengers.map (·.2))

/-- Until a challenger hits, no worker answers with a fault, and every refinement has an answer. -/
def Undisturbed : History P α → Prop
  | [] => True
  | (_, answers) :: rest =>
    answers.Faultless ∧ (answers.best.any Candidate.hits = false →
      (∃ challenger, answers.refined = .ok challenger) ∧
        (answers.improved.any Candidate.hits = false → Undisturbed rest))

theorem undisturbed_cons (number : Nat) (answers : RoundAnswers P α) (rest : History P α) :
    Undisturbed ((number, answers) :: rest) ↔
      answers.Faultless ∧ (answers.best.any Candidate.hits = false →
        (∃ challenger, answers.refined = .ok challenger) ∧
          (answers.improved.any Candidate.hits = false → Undisturbed rest)) :=
  Iff.rfl

theorem challengers_cons (number : Nat) (answers : RoundAnswers P α) (rest : History P α) :
    challengers ((number, answers) :: rest) = answers.best.toList.map (number, ·) ++
      (answers.improved.toList.map (number, ·) ++ rest.challengers) := by
  simp only [challengers, List.flatMap_cons, RoundAnswers.challengers, List.map_append,
    List.append_assoc]

end History

namespace Climb

/-- What one challenge comes to: the climb that goes on, or its result. -/
def face (climb : Climb P α) (number : Nat) : Option (Candidate P α) → Climb P α ⊕ Outcome P α
  | none => .inl climb
  | some challenger =>
    match climb.verdict challenger with
    | .solved => .inr (climb.solvedOutcome number challenger)
    | .improved => .inl (climb.replace challenger)
    | .unchanged => .inl climb

/-- What a sequence of challenges comes to, when the training ends with the given round. -/
def conclude (last : Nat) : Climb P α → List (Nat × Candidate P α) → Outcome P α
  | climb, [] => ⟨climb.elite.program, climb.elite.score, last, climb.improvements⟩
  | climb, (number, challenger) :: rest =>
    match climb.face number (some challenger) with
    | .inl next => conclude last next rest
    | .inr outcome => outcome

variable {climb : Climb P α} {number : Nat}

/-- A challenge by a candidate that does not hit leaves the leader as the elite. -/
theorem face_missed (climb : Climb P α) (number : Nat) {challenger : Option (Candidate P α)}
    (missed : challenger.any Candidate.hits = false) :
    ∃ next, climb.face number challenger = .inl next ∧
      next.elite = climb.elite.leader challenger.toList := by
  cases challenger with
  | none => exact ⟨climb, rfl, rfl⟩
  | some challenger =>
    have different : Number.equal challenger.score Number.infinity = false := missed
    by_cases lower : Number.below climb.elite.score challenger.score = true
    · refine ⟨climb.replace challenger, ?_, ?_⟩
      · simp [face, verdict, different, lower]
      · simp [replace, Candidate.leader, lower]
    · refine ⟨climb, ?_, ?_⟩
      · simp [face, verdict, different, lower]
      · simp [Candidate.leader, lower]

/-- A challenge by a candidate that hits ends the training. -/
theorem face_hit (climb : Climb P α) (number : Nat) {challenger : Option (Candidate P α)}
    (hit : challenger.any Candidate.hits = true) :
    ∃ outcome, climb.face number challenger = .inr outcome := by
  cases challenger with
  | none => cases hit
  | some challenger =>
    have same : Number.equal challenger.score Number.infinity = true := hit
    exact ⟨climb.solvedOutcome number challenger, by simp [face, verdict, same]⟩

/-- Challenges go on after one that leaves an elite and end with one that hits. -/
theorem conclude_append (last : Nat) (challenger : Option (Candidate P α))
    (rest : List (Nat × Candidate P α)) :
    conclude last climb (challenger.toList.map (number, ·) ++ rest) =
      match climb.face number challenger with
      | .inl next => conclude last next rest
      | .inr outcome => outcome := by
  cases challenger <;> rfl

variable {rounds : Rounds P α}

/-- The first half of a round is a challenge by the best candidate. -/
theorem proposals_state (faultless : (rounds.answers number climb.elite).Faultless) :
    (proposals rounds number climb).state =
      .ok (climb.face number (rounds.answers number climb.elite).best) := by
  rcases join_round_cases (rounds.propose number climb.elite.program) with
    ⟨_, joined⟩ | ⟨cause, member, _⟩
  · rw [proposals, joined]
    simp only [challenge, RoundAnswers.best, Rounds.answers]
    cases Candidate.best? (returned (rounds.propose number climb.elite.program)) with
    | none => rfl
    | some challenger =>
      simp only [face]
      cases climb.verdict challenger <;> rfl
  · exact absurd member (faultless cause)

/-- The second half of a round is a challenge by the refined elite. -/
theorem refinement_state :
    (refinement rounds number climb).state =
      (rounds.refine number climb.elite).map (climb.face number) := by
  rw [refinement]
  cases rounds.refine number climb.elite with
  | error failure => rfl
  | ok challenger =>
    cases challenger with
    | none => rfl
    | some challenger =>
      simp only [challengeRefined, Except.map, face]
      cases climb.verdict challenger <;> rfl

/-- A round in which the best candidate hits. -/
theorem round_hit {outcome : Outcome P α}
    (faultless : (rounds.answers number climb.elite).Faultless)
    (solved : climb.face number (rounds.answers number climb.elite).best = .inr outcome) :
    (round rounds number climb).state = .ok (.inr outcome) := by
  have first := proposals_state faultless
  rw [solved] at first
  unfold round
  split
  · rename_i notices next proposed
    rw [proposed] at first
    cases first
  · exact first

/-- A round in which the best candidate does not hit goes on with the refinement. -/
theorem round_missed {next : Climb P α}
    (faultless : (rounds.answers number climb.elite).Faultless)
    (missed : climb.face number (rounds.answers number climb.elite).best = .inl next) :
    (round rounds number climb).state = (refinement rounds number next).state := by
  have first := proposals_state faultless
  rw [missed] at first
  unfold round
  split
  · rename_i notices other proposed
    rw [proposed] at first
    obtain rfl := Sum.inl.inj (Except.ok.inj first)
    rfl
  · rename_i notGoingOn
    cases proposed : proposals rounds number climb with
    | mk notices state =>
      rw [proposed] at first
      exact absurd (proposed.trans (congrArg (Phase.mk notices) first)) (notGoingOn _ _)

/-- A round in which a worker answers with a fault fails. -/
theorem round_fault (climb : Climb P α) (number : Nat) {cause : Fault}
    (member : .error (.fault cause) ∈ (rounds.answers number climb.elite).proposals) :
    ∃ failure, (round rounds number climb).state = .error failure := by
  rcases join_round_cases (rounds.propose number climb.elite.program) with
    ⟨none, _⟩ | ⟨first, _, joined⟩
  · exact absurd member (none cause)
  · refine ⟨.fault first, ?_⟩
    rw [round, proposals, joined]

/-- After a round, a climb goes on, ends with a result, or fails. -/
theorem go_succ (rounds : Rounds P α) (number : Nat) (climb : Climb P α) (remaining : Nat)
    (told : List (Notice α)) :
    match (round rounds number climb).state with
    | .ok (.inl next) => ∃ more,
      go rounds (remaining + 1) number climb told = go rounds remaining (number + 1) next more
    | .ok (.inr outcome) => (go rounds (remaining + 1) number climb told).2 = .ok outcome
    | .error failure => (go rounds (remaining + 1) number climb told).2 = .error failure := by
  rw [go]
  rcases round rounds number climb with ⟨notices, failure | next | outcome⟩
  · rfl
  · exact ⟨_, rfl⟩
  · rfl

/-- A climb comes to what its challengers come to if its history is undisturbed, and it fails
otherwise. -/
theorem go_cases (rounds : Rounds P α) (remaining number : Nat) (climb : Climb P α)
    (told : List (Notice α)) :
    ((rounds.history remaining number climb.elite).Undisturbed ∧
      (go rounds remaining number climb told).2 = .ok (conclude (number + remaining) climb
        (rounds.history remaining number climb.elite).challengers)) ∨
    ¬ (rounds.history remaining number climb.elite).Undisturbed ∧
      ∃ failure, (go rounds remaining number climb told).2 = .error failure := by
  induction remaining generalizing number climb told with
  | zero => exact .inl ⟨trivial, rfl⟩
  | succ remaining inductionHypothesis =>
    have after := go_succ rounds number climb remaining told
    rw [Rounds.history, History.undisturbed_cons, History.challengers_cons, conclude_append]
    -- A faulty proposal fails the round before anyone is judged. After that the best candidate is
    -- judged first, and only if it does not hit, the refinement is asked for.
    by_cases faultless : (rounds.answers number climb.elite).Faultless
    · cases best : (rounds.answers number climb.elite).best.any Candidate.hits with
      | true =>
        obtain ⟨outcome, solved⟩ := face_hit climb number best
        rw [round_hit faultless solved] at after
        rw [solved]
        exact .inl ⟨⟨faultless, nofun⟩, after⟩
      | false =>
        obtain ⟨next, missed, leads⟩ := face_missed climb number best
        rw [round_missed faultless missed, refinement_state] at after
        have asked : (rounds.answers number climb.elite).refined =
            rounds.refine number next.elite := by
          rw [leads]
          rfl
        rw [missed, asked]
        simp only [conclude_append]
        cases refined : rounds.refine number next.elite with
        | error failure =>
          rw [refined] at after
          refine .inr ⟨fun undisturbed => ?_, failure, after⟩
          obtain ⟨challenger, answered⟩ := (undisturbed.2 trivial).1
          cases answered
        | ok challenger =>
          have improved := RoundAnswers.improved_of_refined (asked.trans refined)
          rw [refined, Except.map] at after
          rw [improved]
          cases hit : challenger.any Candidate.hits with
          | true =>
            obtain ⟨outcome, solved⟩ := face_hit next number hit
            rw [solved] at after ⊢
            exact .inl ⟨⟨faultless, fun _ => ⟨⟨challenger, rfl⟩, nofun⟩⟩, after⟩
          | false =>
            obtain ⟨last, kept, leadsOn⟩ := face_missed next number hit
            rw [kept] at after ⊢
            obtain ⟨more, goes⟩ := after
            have leader : climb.elite.leader (rounds.answers number climb.elite).challengers =
                last.elite := by
              rw [leadsOn, leads, RoundAnswers.challengers, Candidate.leader_append, improved]
            have later : number + (remaining + 1) = number + 1 + remaining := by omega
            rw [goes, leader, later]
            rcases inductionHypothesis (number + 1) last more with
              ⟨undisturbed, concluded⟩ | ⟨disturbed, failed⟩
            · exact .inl ⟨⟨faultless, fun _ => ⟨⟨challenger, rfl⟩, fun _ => undisturbed⟩⟩,
                concluded⟩
            · exact .inr ⟨fun undisturbed => disturbed ((undisturbed.2 trivial).2 rfl), failed⟩
    · obtain ⟨cause, member⟩ := Classical.not_forall_not.mp faultless
      obtain ⟨failure, failed⟩ := round_fault climb number member
      rw [failed] at after
      exact .inr ⟨fun undisturbed => faultless undisturbed.1, failure, after⟩

section Challenges

variable {last : Nat} {challenger : Candidate P α} {rest : List (Nat × Candidate P α)}

/-- A challenger that hits ends the training. -/
theorem conclude_hit (hits : challenger.hits = true) :
    conclude last climb ((number, challenger) :: rest) =
      climb.solvedOutcome number challenger := by
  have same : Number.equal challenger.score Number.infinity = true := hits
  rw [conclude, face, verdict, if_pos same]

/-- A challenger with a higher score takes the place of the elite. -/
theorem conclude_higher (missed : challenger.hits = false)
    (higher : Number.below climb.elite.score challenger.score = true) :
    conclude last climb ((number, challenger) :: rest) =
      conclude last (climb.replace challenger) rest := by
  have different : Number.equal challenger.score Number.infinity = false := missed
  rw [conclude, face, verdict, different, if_neg Bool.false_ne_true, if_pos higher]

/-- Any other challenger is dropped. -/
theorem conclude_other (missed : challenger.hits = false)
    (other : Number.below climb.elite.score challenger.score = false) :
    conclude last climb ((number, challenger) :: rest) = conclude last climb rest := by
  have different : Number.equal challenger.score Number.infinity = false := missed
  rw [conclude, face, verdict, different, if_neg Bool.false_ne_true, other,
    if_neg Bool.false_ne_true]

end Challenges

/-- Challenges that start from a leader end with the leader of all that were met, and every strict
increase counts as an improvement. -/
theorem conclude_eq (order : Number.OrderLaws α) {start : Candidate P α}
    (comparable : start.scored = true) (last : Nat) (challengers : List (Nat × Candidate P α))
    (climb : Climb P α) (met : List (Candidate P α)) (leads : climb.elite = start.leader met)
    (missed : climb.elite.hits = false) :
    conclude last climb challengers =
      let faced := History.upToHit (challengers.map (·.2))
      ⟨(start.leader (met ++ faced)).program, (start.leader (met ++ faced)).score,
        match challengers.find? (·.2.hits) with
        | some (number, _) => number + 1
        | none => last,
        climb.improvements + Candidate.records (start :: met) faced⟩ := by
  induction challengers generalizing climb met with
  | nil => simp [conclude, History.upToHit, Candidate.records, leads]
  | cons entry rest inductionHypothesis =>
    obtain ⟨number, challenger⟩ := entry
    have record := Candidate.below_leader_iff order comparable met challenger
    have leadsOn : start.leader (met ++ [challenger]) =
        if Number.below climb.elite.score challenger.score then challenger else climb.elite := by
      rw [Candidate.leader_append, leads]
      rfl
    rw [← leads] at record
    -- A hit is higher than an elite that did not hit, so it is a record itself, and no challenger
    -- behind it is met.
    cases hits : challenger.hits with
    | true =>
      have known : Number.isNaN climb.elite.score = false := by
        have scored := Candidate.leader_scored order comparable met
        rw [← leads, Candidate.scored, Bool.not_eq_true'] at scored
        exact scored
      have higher := order.below_of_infinite climb.elite.score challenger.score hits known missed
      rw [higher] at record leadsOn
      rw [conclude_hit hits]
      simp only [List.map_cons, History.upToHit, hits, List.find?_cons, Candidate.records,
        ← record, leadsOn, if_true, Nat.add_zero]
      rfl
    | false =>
      have split : met ++ History.upToHit (((number, challenger) :: rest).map (·.2)) =
          met ++ [challenger] ++ History.upToHit (rest.map (·.2)) := by
        simp [History.upToHit, hits]
      have counted : Candidate.records (start :: met)
          (History.upToHit (((number, challenger) :: rest).map (·.2))) =
            (if Number.below climb.elite.score challenger.score then 1 else 0) +
              Candidate.records (start :: (met ++ [challenger]))
                (History.upToHit (rest.map (·.2))) := by
        rw [record]
        simp only [List.map_cons, History.upToHit, hits, Candidate.records]
        rfl
      simp only [split, counted, List.find?_cons, hits]
      cases higher : Number.below climb.elite.score challenger.score with
      | true =>
        rw [higher] at leadsOn
        rw [conclude_higher hits higher,
          inductionHypothesis (climb.replace challenger) (met ++ [challenger]) leadsOn.symm hits]
        simp only [replace, if_true, Nat.add_assoc]
      | false =>
        rw [higher] at leadsOn
        rw [conclude_other hits higher,
          inductionHypothesis climb (met ++ [challenger]) leadsOn.symm missed]
        simp only [Bool.false_eq_true, if_false, Nat.zero_add]

/-- The first challenger that hits is the result, with the number of rounds up to it. -/
theorem conclude_found (last : Nat) (challengers : List (Nat × Candidate P α)) (climb : Climb P α)
    {found : Nat × Candidate P α} (hit : challengers.find? (·.2.hits) = some found) :
    (conclude last climb challengers).program = found.2.program ∧
      (conclude last climb challengers).score = found.2.score := by
  induction challengers generalizing climb with
  | nil => cases hit
  | cons entry rest inductionHypothesis =>
    obtain ⟨number, challenger⟩ := entry
    rw [List.find?_cons] at hit
    cases hits : challenger.hits with
    | true =>
      simp only [hits] at hit
      obtain rfl := Option.some.inj hit
      rw [conclude_hit hits]
      exact ⟨rfl, rfl⟩
    | false =>
      simp only [hits] at hit
      cases higher : Number.below climb.elite.score challenger.score with
      | true =>
        rw [conclude_higher hits higher]
        exact inductionHypothesis _ hit
      | false =>
        rw [conclude_other hits higher]
        exact inductionHypothesis _ hit

end Climb

/-- What a history leads to. -/
structure History.Decides (history : History P α) (iterations : Nat) (start : Candidate P α)
    (outcome : Outcome P α) : Prop where
  /-- The first challenger that hits ends the training in its round. -/
  hit : ∀ number challenger, history.hit? = some (number, challenger) →
    outcome.program = challenger.program ∧ outcome.score = challenger.score ∧
      outcome.rounds = number + 1
  exhausted : history.hit? = none → outcome.rounds = iterations
  /-- The first one that reached the highest score is returned. -/
  first : ∃ best, Candidate.FirstBest (start :: history.faced) best ∧
    outcome.program = best.program ∧ outcome.score = best.score
  maximum : ∀ candidate ∈ start :: history.faced,
    Number.below outcome.score candidate.score = false
  improvements : outcome.improvements = Candidate.records [start] history.faced

/-- What a training from a scored start comes to, by the answers of its tasks. -/
structure Rounds.Elitist (rounds : Rounds P α) (iterations : Nat) (start : Candidate P α)
    (result : Except Failure (Outcome P α)) : Prop where
  /-- A start that hits is returned before the first round. -/
  at_once : start.hits = true → result = .ok ⟨start.program, start.score, 0, 0⟩
  /-- Otherwise there is a result exactly when no task that is asked fails. -/
  succeeds : start.hits = false →
    ((∃ outcome, result = .ok outcome) ↔ (rounds.history iterations 0 start).Undisturbed)
  decided : start.hits = false → ∀ outcome, result = .ok outcome →
    (rounds.history iterations 0 start).Decides iterations start outcome
  /-- The elite after fewer rounds is not better. -/
  never_worse : ∀ outcome, result = .ok outcome → ∀ fewer, fewer ≤ iterations → ∀ earlier,
    (rounds.run fewer start).2 = .ok earlier → Number.below outcome.score earlier.score = false

namespace History

/-- What is met before a hit is also met when more challengers follow. -/
theorem up_to_hit_append {first second : List (Candidate P α)} {candidate : Candidate P α}
    (member : candidate ∈ upToHit first) : candidate ∈ upToHit (first ++ second) := by
  induction first with
  | nil => cases member
  | cons challenger rest inductionHypothesis =>
    rw [List.cons_append, upToHit]
    rw [upToHit] at member
    rcases List.mem_cons.mp member with rfl | later
    · exact List.mem_cons_self
    · apply List.mem_cons_of_mem
      split at later
      · cases later
      · rename_i missed
        rw [if_neg missed]
        exact inductionHypothesis later

end History

/-- The history of fewer rounds is the beginning of the history of more rounds. -/
theorem Rounds.history_add (rounds : Rounds P α) (fewer more number : Nat)
    (elite : Candidate P α) :
    ∃ rest, rounds.history (fewer + more) number elite =
      rounds.history fewer number elite ++ rest := by
  induction fewer generalizing number elite with
  | zero => exact ⟨_, rfl⟩
  | succ fewer inductionHypothesis =>
    obtain ⟨rest, same⟩ := inductionHypothesis (number + 1)
      (elite.leader (rounds.answers number elite).challengers)
    refine ⟨rest, ?_⟩
    rw [Nat.add_right_comm, Rounds.history, Rounds.history, same]
    rfl

/-- What a training meets in fewer rounds it meets in more rounds as well. -/
theorem Rounds.faced_fewer (rounds : Rounds P α) {fewer iterations : Nat} (le : fewer ≤ iterations)
    (start : Candidate P α) {candidate : Candidate P α}
    (member : candidate ∈ (rounds.history fewer 0 start).faced) :
    candidate ∈ (rounds.history iterations 0 start).faced := by
  obtain ⟨rest, longer⟩ := rounds.history_add fewer (iterations - fewer) 0 start
  rw [Nat.add_sub_cancel' le] at longer
  rw [longer, History.faced, History.challengers, List.flatMap_append, List.map_append]
  exact History.up_to_hit_append member

/-- A result of a training that does not start with a hit is decided by its history. -/
theorem Rounds.run_decided (order : Number.OrderLaws α) (rounds : Rounds P α) (iterations : Nat)
    {start : Candidate P α} (comparable : start.scored = true) (missed : start.hits = false) :
    ((rounds.history iterations 0 start).Undisturbed ∧
      ∃ outcome, (rounds.run iterations start).2 = .ok outcome ∧
        (rounds.history iterations 0 start).Decides iterations start outcome) ∨
    ¬ (rounds.history iterations 0 start).Undisturbed ∧
      ∃ failure, (rounds.run iterations start).2 = .error failure := by
  have different : Number.equal start.score Number.infinity = false := missed
  rw [Rounds.run, different, if_neg Bool.false_ne_true]
  rcases Climb.go_cases rounds iterations 0 ⟨start, 0⟩ [] with
    ⟨undisturbed, concluded⟩ | disturbed
  · refine .inl ⟨undisturbed, _, concluded, ?_⟩
    have outcome := Climb.conclude_eq order comparable (0 + iterations)
      (rounds.history iterations 0 start).challengers ⟨start, 0⟩ [] rfl missed
    have first := Candidate.leader_first order comparable (rounds.history iterations 0 start).faced
    have found {entry : Nat × Candidate P α} := @Climb.conclude_found P α _ (0 + iterations)
      (rounds.history iterations 0 start).challengers ⟨start, 0⟩ entry
    simp only [List.nil_append, Nat.zero_add] at outcome found ⊢
    constructor
    case hit =>
      intro number challenger hit
      rw [History.hit?] at hit
      refine ⟨(found hit).1, (found hit).2, ?_⟩
      rw [outcome]
      simp only [hit]
    case exhausted =>
      intro none
      rw [History.hit?] at none
      rw [outcome]
      simp only [none]
    case first =>
      rw [outcome]
      exact ⟨_, first, rfl, rfl⟩
    case maximum =>
      rw [outcome]
      exact first.maximum order
    case improvements =>
      rw [outcome]
      rfl
  · exact .inr disturbed

/-- Every training from a scored start is elitist. -/
theorem Rounds.run_elitist (order : Number.OrderLaws α) (rounds : Rounds P α) (iterations : Nat)
    {start : Candidate P α} (comparable : start.scored = true) :
    rounds.Elitist iterations start (rounds.run iterations start).2 := by
  cases hits : start.hits with
  | true =>
    have same : Number.equal start.score Number.infinity = true := hits
    have stops (count : Nat) :
        (rounds.run count start).2 = .ok ⟨start.program, start.score, 0, 0⟩ := by
      rw [Rounds.run, if_pos same]
    have contrary : start.hits ≠ false := by simp [hits]
    refine ⟨fun _ => stops iterations, fun missed => absurd missed contrary,
      fun missed => absurd missed contrary, ?_⟩
    intro outcome ended fewer _ earlier endedEarlier
    rw [stops] at ended endedEarlier
    obtain rfl := Except.ok.inj ended
    obtain rfl := Except.ok.inj endedEarlier
    exact order.below_irrefl _
  | false =>
    have decides (count : Nat) {outcome : Outcome P α}
        (ended : (rounds.run count start).2 = .ok outcome) :
        (rounds.history count 0 start).Decides count start outcome := by
      rcases rounds.run_decided order count comparable hits with
        ⟨_, other, same, decided⟩ | ⟨_, failure, failed⟩
      · exact Except.ok.inj (same.symm.trans ended) ▸ decided
      · rw [failed] at ended
        cases ended
    have contrary : start.hits ≠ true := by simp [hits]
    refine ⟨fun hit => absurd hit contrary, fun _ => ?_,
      fun _ outcome ended => decides iterations ended, ?_⟩
    · rcases rounds.run_decided order iterations comparable hits with
        ⟨undisturbed, outcome, ended, _⟩ | ⟨disturbed, failure, failed⟩
      · exact ⟨fun _ => undisturbed, fun _ => ⟨outcome, ended⟩⟩
      · refine ⟨?_, fun undisturbed => absurd undisturbed disturbed⟩
        rintro ⟨outcome, ended⟩
        rw [failed] at ended
        cases ended
    · intro outcome ended fewer le earlier endedEarlier
      obtain ⟨best, ⟨before, after, split, _⟩, _, same⟩ := (decides fewer endedEarlier).first
      rw [same]
      apply (decides iterations ended).maximum
      have member : best ∈ start :: (rounds.history fewer 0 start).faced := by
        rw [split]
        simp
      rcases List.mem_cons.mp member with rfl | met
      · exact List.mem_cons_self
      · exact List.mem_cons_of_mem _ (rounds.faced_fewer le start met)

/-- The scored program that a training of straight-line programs starts from. -/
def ScalarTrainer.opening (trainer : ScalarTrainer α) (start : Option (Program α)) :
    Draw (Candidate (Program α) α) := do
  let nodes ←
    match start with
    | some nodes => Draw.ofExcept (trainer.accept nodes)
    | none => trainer.initial
  trainer.evaluate nodes

/-- The scored tree that a training of control trees starts from. -/
def ControlTrainer.opening (trainer : ControlTrainer α) (start : Option (Tree α)) :
    Draw (Candidate (Tree α) α) :=
  trainer.test (start.getD Tree.empty) true

/-- Straight-line programs score a number. -/
theorem ScalarTrainer.evaluate_scored (sums : Number.SumLaws α) (trainer : ScalarTrainer α)
    (nodes : Program α) :
    Draw.Ensures (fun _ => True) (fun candidate => candidate.scored = true)
      (trainer.evaluate nodes) := by
  apply (Draw.ensures_any _).bind
  intro nodes _
  apply (Draw.ensures_any _).bind
  intro profiled _
  cases profiled with
  | rejected nodes =>
    apply Draw.ensures_pure
    rw [Candidate.scored, sums.lowest_defined]
    rfl
  | complete nodes observations scores =>
    apply (Draw.ensures_any _).bind
    intro program _
    apply (Draw.ensures_any _).bind
    intro heavyScores _
    apply Draw.ensures_pure
    rw [Candidate.scored, trimmed_sum_defined sums]
    rfl

/-- A training of straight-line programs starts with a score. -/
theorem ScalarTrainer.opening_scored (sums : Number.SumLaws α) (trainer : ScalarTrainer α)
    (start : Option (Program α)) :
    Draw.Ensures (fun _ => True) (fun candidate => candidate.scored = true)
      (trainer.opening start) := by
  cases start with
  | some nodes => exact (Draw.ensures_any _).bind fun nodes _ => trainer.evaluate_scored sums nodes
  | none => exact (Draw.ensures_any _).bind fun nodes _ => trainer.evaluate_scored sums nodes

/-- Control trees score a number. -/
theorem ControlTrainer.test_scored (sums : Number.SumLaws α) (trainer : ControlTrainer α)
    (tree : Tree α) (clearing : Bool) :
    Draw.Ensures (fun _ => True) (fun candidate => candidate.scored = true)
      (trainer.test tree clearing) := by
  apply (Draw.ensures_any _).bind
  intro instrumented _
  apply (Draw.ensures_any _).bind
  intro profiled _
  apply (Draw.ensures_any _).bind
  intro program _
  apply (Draw.ensures_any _).bind
  intro heavyScores _
  apply Draw.ensures_pure
  rw [Candidate.scored, trimmed_sum_defined sums]
  rfl

/-- The elite of a training is the first one among the best of all programs that were scored. In a
round the best answer is the last one with the highest rank. Whatever the tasks of the rounds
answer, a start that hits is returned at once; otherwise the training has a result exactly when no
task fails before a challenger hits, it stops at the first challenger that hits, it returns the first
one that reached the highest score, and it counts the strict increases. More rounds never lead to a
lower score. This is what trainings of both kinds come to from the start that they scored, with
whatever streams. -/
theorem elite_is_first_best (order : Number.OrderLaws α) (sums : Number.SumLaws α) :
    (∀ answers : List (Except Failure (Candidate P α)),
      (∀ best, Candidate.best? (returned answers) = some best →
        Candidate.LastBest answers best) ∧
      (Candidate.best? (returned answers) = none →
        ∀ candidate, .ok candidate ∈ answers → candidate.scored = false)) ∧
    (∀ (rounds : Rounds P α) (iterations : Nat) (start : Candidate P α), start.scored = true →
      rounds.Elitist iterations start (rounds.run iterations start).2) ∧
    (∀ (trainer : ScalarTrainer α) (entropy : Entropy) (start : Option (Program α))
      (scored : Candidate (Program α) α) (rest : Stream),
      trainer.opening start
          (trainer.config.schedule.streamFor entropy 0 TrainingSchedule.startUser) =
        .ok scored rest →
      (trainer.rounds entropy).Elitist trainer.config.schedule.iterations scored
        (trainer.train entropy start).result) ∧
    ∀ (trainer : ControlTrainer α) (entropy : Entropy) (start : Option (Tree α))
      (scored : Candidate (Tree α) α) (rest : Stream),
      trainer.opening start
          (trainer.config.schedule.streamFor entropy 0 TrainingSchedule.startUser) =
        .ok scored rest →
      (trainer.rounds entropy).Elitist trainer.config.schedule.iterations scored
        (trainer.train entropy start).result := by
  refine ⟨Candidate.best_last, fun rounds iterations start comparable =>
    rounds.run_elitist order iterations comparable, ?_, ?_⟩
  · intro trainer entropy start scored rest opened
    have comparable : scored.scored = true := (trainer.opening_scored sums start).drawn opened
    have result : (trainer.train entropy start).result =
        ((trainer.rounds entropy).run trainer.config.schedule.iterations scored).2 := by
      change (Training.ofStart (trainer.rounds entropy) _ _ (trainer.opening start)).result = _
      rw [Training.ofStart, opened]
    rw [result]
    exact (trainer.rounds entropy).run_elitist order _ comparable
  · intro trainer entropy start scored rest opened
    have comparable : scored.scored = true := (trainer.test_scored sums _ true).drawn opened
    have result : (trainer.train entropy start).result =
        ((trainer.rounds entropy).run trainer.config.schedule.iterations scored).2 := by
      change (Training.ofStart (trainer.rounds entropy) _ _ (trainer.opening start)).result = _
      rw [Training.ofStart, opened]
    rw [result]
    exact (trainer.rounds entropy).run_elitist order _ comparable

/-- Rounds whose tasks answer what is written down for them, whatever the elite is. -/
def Rounds.scripted (script : List (RoundAnswers P α)) : Rounds P α where
  propose number _ := (script[number]?).elim [] (·.proposals)
  refine number _ := (script[number]?).elim (.ok none) (·.refined)
  size _ := none

/-- Rounds with workers that break off, scores that are not numbers, ties and a late hit. -/
def Rounds.eventful : Rounds Char Float :=
  scripted
    [⟨[.ok ⟨'a', -1.5⟩, .error .crash, .ok ⟨'b', 1.0⟩, .ok ⟨'c', 0.0 / 0.0⟩], .ok none⟩,
     ⟨[.error .crash, .error .crash], .ok (some ⟨'d', 1.0⟩)⟩,
     ⟨[.ok ⟨'e', -1.0 / 0.0⟩], .ok (some ⟨'f', 2.5⟩)⟩,
     ⟨[.ok ⟨'g', 1.0 / 0.0⟩, .ok ⟨'h', 3.0⟩], .error .crash⟩]

/-- A task for straight-line programs that every program with a positive output hits. -/
def ScalarTrainer.generous : ScalarTrainer Float where
  config := { schedule := ⟨2, 1, 1, 0, 2, 1, some 0⟩, arguments := 1, complexity := 2 }
  reward _ output := some (output / 0.0)
  data := ⟨1, fun buffer => pure (buffer.map fun _ => 1.0)⟩

/-- A task for control trees that is hit by whoever leaves the first variable alone. -/
def ControlTrainer.patient : ControlTrainer Float where
  config := { schedule := ⟨2, 1, 1, 0, 2, 1, some 0⟩, variableCount := 2, blockComplexity := 3 }
  environment := .act #[3.0, 0.0] #[0.0, 0.0] fun outputs => .score (outputs.getD 0 0.0 / 0.0)
  mutator := ⟨2, 3, {}⟩

/-- Whether a request has a candidate that hits. -/
def opensWithHit (request : Draw (Candidate P α)) (stream : Stream) : Bool :=
  match request stream with
  | .ok candidate _ => candidate.hits
  | .error _ _ => false

/-- A request that has a candidate that hits. -/
theorem of_opens_with_hit (request : Draw (Candidate P α)) (stream : Stream)
    (opens : opensWithHit request stream = true) :
    ∃ candidate rest, request stream = .ok candidate rest ∧ candidate.hits = true := by
  rw [opensWithHit] at opens
  split at opens
  · exact ⟨_, _, ‹_›, opens⟩
  · cases opens

/-- The eventful rounds stop at their hit, or at the first one of the best if there are too few of
them, and both trainers return a start that hits at once. -/
theorem eventful_elite_is_first_best :
    (∃ outcome, (Rounds.eventful.run 5 ⟨'s', -0.0⟩).2 = .ok outcome ∧
      outcome.program = 'g' ∧ outcome.rounds = 4 ∧ outcome.improvements = 3) ∧
    (∃ outcome, (Rounds.eventful.run 3 ⟨'s', -0.0⟩).2 = .ok outcome ∧ outcome.rounds = 3 ∧
      Number.below outcome.score 2.5 = false ∧ outcome.improvements = 2) ∧
    ∀ entropy,
      (∃ outcome, (ScalarTrainer.generous.train entropy
        (some #[some (.argument 0), some (.binary .add 0 0)])).result = .ok outcome ∧
          outcome.rounds = 0) ∧
      ∃ outcome, (ControlTrainer.patient.train entropy none).result = .ok outcome ∧
        outcome.rounds = 0 := by
  obtain ⟨_, rounds, scalar, control⟩ :=
    elite_is_first_best (P := Char) Double.order_laws Double.sum_laws
  refine ⟨?_, ?_, fun entropy => ⟨?_, ?_⟩⟩
  · have decided := (rounds .eventful 5 ⟨'s', -0.0⟩ rfl).decided rfl _ rfl
    have hit := decided.hit 3 ⟨'g', 1.0 / 0.0⟩ rfl
    exact ⟨_, rfl, hit.1, hit.2.2, decided.improvements⟩
  · have decided := (rounds .eventful 3 ⟨'s', -0.0⟩ rfl).decided rfl _ rfl
    refine ⟨_, rfl, decided.exhausted rfl, decided.maximum ⟨'f', 2.5⟩ ?_, decided.improvements⟩
    exact .tail _ (.tail _ (.tail _ (.tail _ (.head _))))
  · obtain ⟨scored, rest, opened, hits⟩ := of_opens_with_hit
      (ScalarTrainer.generous.opening (some #[some (.argument 0), some (.binary .add 0 0)]))
      (TrainingSchedule.seededStream 0 0 TrainingSchedule.startUser) (by decide +kernel)
    exact ⟨_, (scalar .generous entropy _ scored rest opened).at_once hits, rfl⟩
  · obtain ⟨scored, rest, opened, hits⟩ := of_opens_with_hit (ControlTrainer.patient.opening none)
      (TrainingSchedule.seededStream 0 0 TrainingSchedule.startUser) (by decide +kernel)
    exact ⟨_, (control .patient entropy _ scored rest opened).at_once hits, rfl⟩

end ProgramSearch
