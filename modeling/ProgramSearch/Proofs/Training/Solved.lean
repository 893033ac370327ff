import ProgramSearch.Proofs.Number.Overflow
import ProgramSearch.Proofs.Training.Elite
import ProgramSearch.Proofs.Training.Passes
import ProgramSearch.Proofs.Training.Score

/-!
# When a training reports that it is solved

The infinity stands for an exact trial, and a training is solved when the score of its program is
the infinity. But the same infinity is also what a sum comes to that overflows. So a score is the
infinity exactly when a trial is exact or the kept trials, all of them finite, overflow; and without
an exact trial it is the negative infinity exactly when no trials are kept, more of the worst ones
are there than are removed, or the kept ones overflow downward.

Rewards that are never positive without being exact do not overflow upward, so they leave no doubt;
nor do scores whose number and magnitudes are not extreme. Other rewards may lead to a training that
reports to be solved although none of its trials was exact.
-/

namespace ProgramSearch

section Windows

/-- What lies in the window of a list where the items of a kind come first: one of this kind, if
there are more of them than are dropped.

The induction is on the list. -/
theorem exists_in_window_iff {β : Type} {kind : β → Bool} {items : List β}
    (first : items.Pairwise fun x y => kind y = true → kind x = true) (remove : Nat) {kept : Nat}
    (some_ : 0 < kept) :
    (∃ x ∈ (items.drop remove).take kept, kind x = true) ↔ remove < items.countP kind := by
  induction items generalizing remove with
  | nil => simp
  | cons x rest inductionHypothesis =>
    obtain ⟨head, tail⟩ := List.pairwise_cons.mp first
    obtain ⟨more, rfl⟩ := Nat.exists_eq_add_one.mpr some_
    cases own : kind x with
    | true =>
      rw [List.countP_cons_of_pos own]
      cases remove with
      | zero =>
        refine ⟨fun _ => Nat.succ_pos _, fun _ => ⟨x, ?_, own⟩⟩
        rw [List.drop_zero, List.take_succ_cons]
        exact List.mem_cons_self
      | succ remove =>
        rw [List.drop_succ_cons, inductionHypothesis tail]
        exact Nat.succ_lt_succ_iff.symm
    | false =>
      have none : ∀ y ∈ rest, ¬ kind y = true := fun y member holds => by
        rw [head y member holds] at own
        cases own
      have different : ¬ kind x = true := by rw [own]; exact Bool.false_ne_true
      rw [List.countP_cons_of_neg different, List.countP_eq_zero.mpr none]
      constructor
      · rintro ⟨y, member, holds⟩
        rcases List.mem_cons.mp (List.mem_of_mem_drop (List.mem_of_mem_take member)) with
          rfl | later
        · exact absurd holds different
        · exact absurd holds (none y later)
      · intro impossible
        exact absurd impossible (Nat.not_lt_zero remove)

variable {α : Type} [Number α]

/-- A finite number is not the negative infinity. -/
theorem finite_not_lowest (scale : Number.ScaleLaws α) {x : α} (finite : Number.isFinite x = true) :
    Number.equal x Number.negativeInfinity = false := by
  have above := scale.apart_of_below _ _ (Bool.and_eq_true_iff.mp finite).1
  rw [Number.atMost, Bool.or_eq_false_iff] at above
  exact above.2

/-- One of the worst trials: the negative infinity, or "not a number". -/
def worstTrial (score : α) : Bool :=
  Number.isNaN score || Number.equal score Number.negativeInfinity

/-- The worst trials are those that count as the negative infinity. -/
theorem worst_trial_eq (sums : Number.SumLaws α) (score : α) :
    Number.equal (wellOrdered score) Number.negativeInfinity = worstTrial score := by
  cases undefined : Number.isNaN score with
  | true =>
    have lowest := sums.lowest_defined
    rw [Number.isNaN, Bool.not_eq_false'] at lowest
    rw [wellOrdered, worstTrial, undefined, if_pos rfl, Bool.true_or, lowest]
  | false => rw [wellOrdered, worstTrial, undefined, if_neg Bool.false_ne_true, Bool.false_or]

/-- One of the worst trials is kept exactly when there are more of them than are removed. -/
theorem keeps_worst_iff (scale : Number.ScaleLaws α) (sums : Number.SumLaws α) {scores : List α}
    {remove : UInt64} (enough : (2 * remove).toNat < scores.length) :
    (∃ kept ∈ trialWindow scores remove, Number.equal kept Number.negativeInfinity = true) ↔
      remove.toNat < scores.countP worstTrial := by
  have counted : (ascending (scores.map wellOrdered)).countP
      (Number.equal · Number.negativeInfinity) = scores.countP worstTrial := by
    rw [(ascending_perm _).countP_eq, List.countP_map]
    exact List.countP_congr fun score _ => by rw [Function.comp_apply, worst_trial_eq sums]
  have defined : ∀ x ∈ scores.map wellOrdered, Number.isNaN x = false := by
    intro x member
    obtain ⟨score, _, rfl⟩ := List.mem_map.mp member
    exact well_ordered_defined sums score
  have first : (ascending (scores.map wellOrdered)).Pairwise fun x y =>
      Number.equal y Number.negativeInfinity = true →
        Number.equal x Number.negativeInfinity = true := by
    refine (ascending_ordered scale defined).imp fun {x y} lower lowest => ?_
    have under : Number.atMost y Number.negativeInfinity = true := by
      rw [Number.atMost, lowest, Bool.or_true]
    exact scale.equal_of_at_most _ _ (scale.at_most_trans _ _ _ lower under)
      (scale.lowest_at_most x (scale.defined_of_at_most x y lower).1)
  rw [trial_window_eq, exists_in_window_iff first remove.toNat (Nat.sub_pos_of_lt enough), counted]

end Windows

section Scores

open Float.Model.UnpackedFloat (Sign)

/-- The kept trials of a list are finite and add up to more than a double can hold, on the side of
the sign. -/
def TrialsOverflow (sign : Sign) (scores : List Float) (remove : UInt64) : Prop :=
  (∀ kept ∈ trialWindow scores remove, Number.isFinite kept = true) ∧
    Double.Overflows sign Number.zero (trialWindow scores remove)

variable {scores : List Float} {remove : UInt64} {sign : Sign}

/-- A finite trial that is kept is one of the list. -/
theorem kept_trial {kept : Float} (member : kept ∈ trialWindow scores remove)
    (finite : Number.isFinite kept = true) : kept ∈ scores := by
  obtain ⟨score, scored, rfl⟩ := of_mem_trial_window member
  cases undefined : Number.isNaN score with
  | true =>
    rw [wellOrdered, undefined, if_pos rfl] at finite
    cases finite
  | false =>
    rw [wellOrdered, undefined, if_neg Bool.false_ne_true]
    exact scored

/-- What overflows has been kept, and none of it is the worst. -/
theorem TrialsOverflow.kept (overflow : TrialsOverflow sign scores remove) :
    ¬ (scores.length ≤ (2 * remove).toNat ∨
      ∃ kept ∈ trialWindow scores remove, Number.equal kept Number.negativeInfinity = true) := by
  obtain ⟨finite, before, next, after, _, _, split, _⟩ := overflow
  rintro (few | ⟨kept, member, lowest⟩)
  · rw [trial_window_eq, Nat.sub_eq_zero_of_le few, List.take_zero] at split
    cases before <;> cases split
  · rw [finite_not_lowest Double.scale_laws (finite kept member)] at lowest
    cases lowest

/-- A score is the infinity exactly when a trial is exact or the kept trials overflow. -/
theorem score_infinite_iff (scores : List Float) (remove : UInt64) :
    Number.equal (trimmedSum scores remove) Number.infinity = true ↔
      (∃ score ∈ scores, Number.equal score Number.infinity = true) ∨
        TrialsOverflow .positive scores remove := by
  have summed := trimmed_sum_cases Double.sum_laws scores remove
  generalize trimmedSum scores remove = total at summed
  cases summed with
  | exact hit => exact ⟨fun _ => .inl hit, fun _ => Double.infinity_equal .positive⟩
  | worst missed reason =>
    constructor
    · intro infinite
      cases infinite
    · rintro (⟨score, scored, hit⟩ | overflow)
      · rw [missed score scored] at hit
        cases hit
      · exact absurd reason overflow.kept
  | sum missed _ finite =>
    have begins := Double.finite_of_value Double.zero_value
    have overflows := Double.fold_infinite_iff finite begins .positive
    constructor
    · exact fun infinite => .inr ⟨finite, overflows.mp infinite⟩
    · rintro (⟨score, scored, hit⟩ | overflow)
      · rw [missed score scored] at hit
        cases hit
      · exact overflows.mpr overflow.2

/-- Without an exact trial, a score is the negative infinity exactly when nothing is kept, there are
more of the worst trials than are removed, or the kept trials overflow downward. -/
theorem score_lowest_iff (missed : ∀ score ∈ scores, Number.equal score Number.infinity = false) :
    Number.equal (trimmedSum scores remove) Number.negativeInfinity = true ↔
      scores.length ≤ (2 * remove).toNat ∨ remove.toNat < scores.countP worstTrial ∨
        TrialsOverflow .negative scores remove := by
  have worst_iff (enough : (2 * remove).toNat < scores.length) :=
    keeps_worst_iff Double.scale_laws Double.sum_laws enough
  have summed := trimmed_sum_cases Double.sum_laws scores remove
  generalize trimmedSum scores remove = total at summed
  cases summed with
  | exact hit =>
    obtain ⟨score, scored, hit⟩ := hit
    rw [missed score scored] at hit
    cases hit
  | worst _ reason =>
    refine ⟨fun _ => ?_, fun _ => Double.infinity_equal .negative⟩
    by_cases few : scores.length ≤ (2 * remove).toNat
    · exact .inl few
    · exact .inr (.inl ((worst_iff (Nat.lt_of_not_le few)).mp (reason.resolve_left few)))
  | sum _ enough finite =>
    have begins := Double.finite_of_value Double.zero_value
    have overflows := Double.fold_infinite_iff finite begins .negative
    constructor
    · exact fun lowest => .inr (.inr ⟨finite, overflows.mp lowest⟩)
    · rintro (few | many | overflow)
      · exact absurd few (Nat.not_le_of_lt enough)
      · obtain ⟨kept, member, lowest⟩ := (worst_iff enough).mpr many
        rw [finite_not_lowest Double.scale_laws (finite kept member)] at lowest
        cases lowest
      · exact overflows.mpr overflow.2

/-- When twice the number of removed trials wraps around, every trial is removed. Without an exact
trial, a list that then counts as long enough has the empty sum as its score. -/
theorem wrapped_score {scores : List Float} {remove : UInt64}
    (missed : ∀ score ∈ scores, Number.equal score Number.infinity = false)
    (wraps : 2 ^ 63 ≤ remove.toNat) (short : scores.length ≤ 2 ^ 63) :
    trimmedSum scores remove =
      if scores.length ≤ (2 * remove).toNat then Number.negativeInfinity else Number.zero := by
  have inexact : ¬ scores.any (Number.equal · Number.infinity) = true := by
    simpa using missed
  have none : trialWindow scores remove = [] := by
    have dropped : (ascending (scores.map wellOrdered)).length ≤ remove.toNat := by
      rw [(ascending_perm _).length_eq, List.length_map]
      omega
    rw [trial_window_eq, List.drop_eq_nil_of_le dropped, List.take_nil]
  rw [trimmedSum, if_neg inexact, none]
  rfl

/-- Trials of which none is positive without being exact do not overflow upward. -/
theorem no_overflow_of_nonpositive
    (each : ∀ score ∈ scores, Number.isFinite score = true →
      Number.atMost score Number.zero = true) : ¬ TrialsOverflow .positive scores remove := by
  rintro ⟨finite, overflows⟩
  refine Double.no_overflow_of_side finite (fun kept member value valued => ?_) overflows
  have low := each kept (kept_trial member (finite kept member)) (finite kept member)
  exact (Double.value_le valued Double.zero_value low).trans_eq (Double.toward_zero .positive)

/-- Fewer than `2 ^ 53` trials do not overflow if their magnitudes are `2 ^ 970` at most. -/
theorem no_overflow_of_moderate
    (each : ∀ score ∈ scores, ∀ value, Number.exact score = some value →
      |value.toRat| ≤ 2 ^ (970 : ℤ)) (few : scores.length < 2 ^ 53) :
    ¬ TrialsOverflow sign scores remove := by
  rintro ⟨finite, overflows⟩
  have kept : (trialWindow scores remove).length ≤ scores.length := by
    rw [trial_window_eq]
    exact (List.length_take_le _ _).trans (Nat.sub_le _ _)
  exact Double.no_overflow_of_small finite
    (fun kept member => each kept (kept_trial member (finite kept member)))
    (Nat.lt_of_le_of_lt kept few) sign overflows

end Scores

section Origins

variable {P α : Type} [Number α] {law : Candidate P α → Prop}

/-- What a training meets before it ends has been met. -/
theorem History.up_to_hit_subset (challengers : List (Candidate P α)) :
    History.upToHit challengers ⊆ challengers := by
  induction challengers with
  | nil => exact List.Subset.refl _
  | cons challenger rest inductionHypothesis =>
    rw [upToHit]
    split
    · exact List.cons_subset_cons challenger (List.nil_subset rest)
    · exact List.cons_subset_cons challenger inductionHypothesis

/-- A law of all candidates that workers and refinements answer is one of all challengers. -/
theorem Rounds.challengers_obey {rounds : Rounds P α}
    (proposes : ∀ number elite, ∀ answer ∈ rounds.propose number elite,
      Answers (fun _ => True) law answer)
    (refines : ∀ number elite, Answers (fun _ => True)
      (fun challenger => ∀ candidate, challenger = some candidate → law candidate)
      (rounds.refine number elite)) (count number : Nat) (elite : Candidate P α) :
    ∀ entry ∈ (rounds.history count number elite).challengers, law entry.2 := by
  induction count generalizing number elite with
  | zero => simp [history, History.challengers]
  | succ count inductionHypothesis =>
    rw [history, History.challengers_cons]
    simp only [List.forall_mem_append, List.mem_map, Option.mem_toList]
    refine ⟨?_, ?_, inductionHypothesis _ _⟩
    · rintro _ ⟨candidate, best, rfl⟩
      obtain ⟨answer, member, given⟩ := List.mem_filterMap.mp (Candidate.best_member best)
      have obeys := proposes number elite.program answer member
      cases answer with
      | ok other =>
        obtain rfl := Option.some.inj given
        exact obeys
      | error failure => cases given
    · rintro _ ⟨candidate, improved, rfl⟩
      have obeys := refines number (elite.leader
        (Candidate.best? (returned (rounds.propose number elite.program))).toList)
      change (rounds.refine number _).toOption.join = some candidate at improved
      generalize rounds.refine number _ = answer at obeys improved
      cases answer with
      | ok challenger => exact obeys candidate improved
      | error failure => cases improved

/-- A training that starts with a hit is over. -/
theorem Training.of_start_hit (rounds : Rounds P α) (iterations : Nat) {stream rest : Stream}
    {start : Draw (Candidate P α)} {scored : Candidate P α}
    (drawn : start stream = .ok scored rest) (hits : scored.hits = true) :
    (ofStart rounds iterations stream start).result =
      .ok ⟨scored.program, scored.score, 0, 0⟩ := by
  have infinite : Number.equal scored.score Number.infinity = true := hits
  rw [ofStart, drawn]
  simp only [Rounds.run, infinite, if_true]

/-- A law of all candidates that the start, workers and refinements answer is one of the result of a
training. A training that stops early has met a hit. -/
theorem Training.outcome_obeys (order : Number.OrderLaws α) {rounds : Rounds P α}
    (proposes : ∀ number elite, ∀ answer ∈ rounds.propose number elite,
      Answers (fun _ => True) law answer)
    (refines : ∀ number elite, Answers (fun _ => True)
      (fun challenger => ∀ candidate, challenger = some candidate → law candidate)
      (rounds.refine number elite)) {iterations : Nat} {stream : Stream}
    {start : Draw (Candidate P α)}
    (comparable : start.Ensures (fun _ => True) fun candidate => candidate.scored = true)
    (starts : start.Ensures (fun _ => True) law)
    {outcome : Outcome P α}
    (ended : (ofStart rounds iterations stream start).result = .ok outcome) :
    law ⟨outcome.program, outcome.score⟩ ∧
      (outcome.rounds < iterations → Number.equal outcome.score Number.infinity = true) := by
  rw [ofStart] at ended
  cases drawn : start stream with
  | error failure rest =>
    rw [drawn] at ended
    cases ended
  | ok scored rest =>
    rw [drawn] at ended
    have obeys := starts.drawn drawn
    have elitist := rounds.run_elitist order iterations (comparable.drawn drawn)
    cases hits : scored.hits with
    | true =>
      obtain rfl := Except.ok.inj ((elitist.at_once hits).symm.trans ended)
      exact ⟨obeys, fun _ => hits⟩
    | false =>
      have decided := elitist.decided hits outcome ended
      constructor
      · obtain ⟨best, ⟨before, after, split, _⟩, program, score⟩ := decided.first
        rw [program, score]
        have member : best ∈ scored :: (rounds.history iterations 0 scored).faced := by
          rw [split]
          exact List.mem_append_right before List.mem_cons_self
        rcases List.mem_cons.mp member with rfl | faced
        · exact obeys
        · obtain ⟨entry, listed, rfl⟩ := List.mem_map.mp (History.up_to_hit_subset _ faced)
          exact rounds.challengers_obey proposes refines _ _ _ entry listed
      · intro early
        cases found : (rounds.history iterations 0 scored).hit? with
        | none => exact absurd (decided.exhausted found) (Nat.ne_of_lt early)
        | some entry =>
          obtain ⟨number, challenger⟩ := entry
          rw [(decided.hit number challenger found).2.1]
          rw [History.hit?] at found
          have hits := List.find?_some found
          exact hits

end Origins

section Trainings

open Draw (ensures_any)

/-- The trials that a score of a straight-line program comes from: those of the last pass of its
evaluation, and the heavy runs. -/
inductive ScalarTrainer.Scored {α : Type} [Number α] (trainer : ScalarTrainer α)
    (candidate : Candidate (Program α) α) : List (Graded α) → Prop where
  | trials {nodes cleaned : Program α} {earlier : List (Pass α)} {last : Pass α}
      {heavy : List (Graded α)} {stream begins ends rest : Stream} :
      trainer.evaluate nodes stream = .ok candidate rest →
      trainer.clean nodes stream = .ok cleaned begins →
      trainer.Passes cleaned begins earlier last ends → last.stopped = none →
      trainer.Specializes last ends heavy candidate rest →
      Scored trainer candidate (last.trials ++ heavy)

/-- The trials that a score of a control tree comes from: those of the instrumented tree, and those
of what the tree becomes. -/
inductive ControlTrainer.Scored {α : Type} [Number α] (trainer : ControlTrainer α)
    (candidate : Candidate (Tree α) α) : List α → Prop where
  | trials {tree : Tree α} {instrumented program : Executable α} {profiled heavy : List α}
      {profile unused : Option TreeProfile} {stream later rest : Stream} :
      trainer.test tree true stream = .ok candidate rest →
      tree.compile trainer.config.machine true = .ok instrumented →
      trainer.trials instrumented trainer.config.schedule.profilingRuns (some TreeProfile.empty) []
        stream = .ok (profiled, profile) later →
      (trainer.specialize tree (profile.getD TreeProfile.empty)).compile trainer.config.machine
        false = .ok program →
      trainer.trials program trainer.config.schedule.heavyRuns none [] later =
        .ok (heavy, unused) rest →
      Scored trainer candidate (profiled ++ heavy)

namespace ScalarTrainer

variable (trainer : ScalarTrainer Float)

/-- If the candidate has the infinity as its score, then it has trials of which one is exact, or of
which the kept ones overflow. -/
def Explained (candidate : Candidate (Program Float) Float) : Prop :=
  Number.equal candidate.score Number.infinity = true → ∃ trials, trainer.Scored candidate trials ∧
    ((∃ trial ∈ trials, Number.equal trial.score Number.infinity = true) ∨
      TrialsOverflow .positive (trials.map Graded.score) trainer.config.schedule.removeOutliers)

/-- An evaluation explains its score. -/
theorem evaluate_explained (nodes : Program Float) :
    (trainer.evaluate nodes).Ensures (fun _ => True) trainer.Explained := by
  apply (Draw.ensures_drawn _).weaken
  rintro candidate ⟨stream, rest, drawn⟩ infinite
  obtain ⟨cleaned, begins, earlier, last, ends, cleans, passes, _, ending⟩ := evaluate_passes drawn
  rcases ending with ⟨_, rfl, rfl⟩ | ⟨unstopped, heavy, _, specializes⟩
  · have apart : Number.equal (Number.negativeInfinity : Float) Number.infinity = false := by
      decide +kernel
    exact absurd (infinite.symm.trans apart) nofun
  · refine ⟨_, .trials drawn cleans passes unstopped specializes, ?_⟩
    rw [specializes.score, score_infinite_iff] at infinite
    refine infinite.imp_left ?_
    rintro ⟨score, listed, hit⟩
    obtain ⟨trial, member, rfl⟩ := List.mem_map.mp listed
    exact ⟨trial, member, hit⟩

/-- The result of a training is explained, and a training that stops early is solved. -/
theorem outcome_explained {entropy : Entropy} {start : Option (Program Float)}
    {outcome : Outcome (Program Float) Float}
    (ended : (trainer.train entropy start).result = .ok outcome) :
    trainer.Explained ⟨outcome.program, outcome.score⟩ ∧
      (outcome.rounds < trainer.config.schedule.iterations →
        Number.equal outcome.score Number.infinity = true) := by
  have proposes (nodes : Program Float) :
      (trainer.propose nodes).Ensures (fun _ => True) trainer.Explained :=
    (ensures_any _).bind fun _ _ => (ensures_any _).bind fun _ _ => trainer.evaluate_explained _
  have opens : (trainer.opening start).Ensures (fun _ => True) trainer.Explained := by
    cases start <;> exact (ensures_any _).bind fun _ _ => trainer.evaluate_explained _
  refine Training.outcome_obeys Double.order_laws ?_ ?_
    (trainer.opening_scored Double.sum_laws start) opens ended
  · intro number elite answer member
    obtain ⟨worker, _, rfl⟩ := List.mem_map.mp member
    exact (proposes elite).answer _
  · intro number elite candidate none
    cases none

end ScalarTrainer

namespace ControlTrainer

variable (trainer : ControlTrainer Float)

/-- If the candidate has the infinity as its score, then it has trials of which one is exact, or of
which the kept ones overflow. -/
def Explained (candidate : Candidate (Tree Float) Float) : Prop :=
  Number.equal candidate.score Number.infinity = true → ∃ scores, trainer.Scored candidate scores ∧
    ((∃ score ∈ scores, Number.equal score Number.infinity = true) ∨
      TrialsOverflow .positive scores trainer.config.schedule.removeOutliers)

/-- A test explains its score. -/
theorem test_explained (tree : Tree Float) :
    (trainer.test tree true).Ensures (fun _ => True) trainer.Explained := by
  apply (Draw.ensures_drawn _).weaken
  rintro candidate ⟨stream, rest, drawn⟩ infinite
  have tested := drawn
  simp only [test, Draw.bind_drawn_iff] at tested
  obtain ⟨instrumented, begins, answered, ⟨profiled, profile⟩, later, profiles, program, current,
    alsoAnswered, ⟨heavy, unused⟩, ends, runs, result⟩ := tested
  obtain ⟨compiled, rfl⟩ := Draw.of_except_drawn answered
  obtain ⟨alsoCompiled, rfl⟩ := Draw.of_except_drawn alsoAnswered
  cases result
  exact ⟨_, .trials drawn compiled profiles alsoCompiled runs, (score_infinite_iff _ _).mp infinite⟩

/-- A refined elite is explained. -/
theorem refine_explained (entropy : Entropy) (round : Nat) (elite : Candidate (Tree Float) Float) :
    Answers (fun _ => True)
      (fun challenger => ∀ candidate, challenger = some candidate → trainer.Explained candidate)
      (trainer.refine entropy round elite) := by
  have unrefined : ∀ candidate, none = some candidate → trainer.Explained candidate := nofun
  rw [refine]
  dsimp only
  split
  · exact unrefined
  split
  · trivial
  rename_i reports _
  split
  · exact unrefined
  have answered := (trainer.test_explained (merge elite.program reports).1).answer
    (trainer.config.schedule.streamFor entropy round (2 * trainer.config.schedule.threads))
  generalize Draw.answer _ _ = answer at answered ⊢
  cases answer with
  | error failure => trivial
  | ok candidate =>
    intro other same
    exact Option.some.inj same ▸ answered

/-- The result of a training is explained, and a training that stops early is solved. -/
theorem outcome_explained {entropy : Entropy} {start : Option (Tree Float)}
    {outcome : Outcome (Tree Float) Float}
    (ended : (trainer.train entropy start).result = .ok outcome) :
    trainer.Explained ⟨outcome.program, outcome.score⟩ ∧
      (outcome.rounds < trainer.config.schedule.iterations →
        Number.equal outcome.score Number.infinity = true) := by
  have proposes (tree : Tree Float) :
      (trainer.propose tree).Ensures (fun _ => True) trainer.Explained :=
    (ensures_any _).bind fun _ _ => (ensures_any _).bind fun _ _ => trainer.test_explained _
  refine Training.outcome_obeys Double.order_laws ?_ (trainer.refine_explained entropy)
    (trainer.test_scored Double.sum_laws _ true) (trainer.test_explained _) ended
  intro number elite answer member
  obtain ⟨worker, _, rfl⟩ := List.mem_map.mp member
  exact (proposes elite).answer _

end ControlTrainer

end Trainings

/-- What it takes for a score to be an infinity, and for a training to be solved.

A score is the infinity exactly when a trial is exact or the kept trials overflow. Without an exact
trial it is the negative infinity exactly when nothing is kept, there are more of the worst trials
than are removed, or the kept trials overflow downward. Nothing is kept of a list that is no longer
than twice the number of removed trials. That number is a machine word: below `2 ^ 63` its double is
what it should be, and from there on every trial of a list that seems long enough is removed. The
kept trials do not overflow upward if none is positive without being exact, and not at all if there
are fewer than `2 ^ 53` of magnitude `2 ^ 970` at most. A training of either kind, with whatever
streams, that stops before its last round is solved, and if it is solved, then one of the trials that
the score of its program comes from is exact, or the kept ones overflow. -/
theorem solved_by_exact_trial_or_overflow (scores : List Float) (remove : UInt64) :
    ((Number.equal (trimmedSum scores remove) Number.infinity = true ↔
        (∃ score ∈ scores, Number.equal score Number.infinity = true) ∨
          TrialsOverflow .positive scores remove) ∧
      ((∀ score ∈ scores, Number.equal score Number.infinity = false) →
        (Number.equal (trimmedSum scores remove) Number.negativeInfinity = true ↔
          scores.length ≤ (2 * remove).toNat ∨ remove.toNat < scores.countP worstTrial ∨
            TrialsOverflow .negative scores remove) ∧
        (remove.toNat < 2 ^ 63 → (2 * remove).toNat = 2 * remove.toNat) ∧
        (2 ^ 63 ≤ remove.toNat → scores.length ≤ 2 ^ 63 → trimmedSum scores remove =
          if scores.length ≤ (2 * remove).toNat then Number.negativeInfinity
          else Number.zero)) ∧
      ((∀ score ∈ scores, Number.isFinite score = true → Number.atMost score Number.zero = true) →
        ¬ TrialsOverflow .positive scores remove) ∧
      ((∀ score ∈ scores, ∀ value, Number.exact score = some value →
        |value.toRat| ≤ 2 ^ (970 : ℤ)) → scores.length < 2 ^ 53 →
          ∀ sign, ¬ TrialsOverflow sign scores remove)) ∧
    (∀ (trainer : ScalarTrainer Float) (entropy : Entropy) (start : Option (Program Float))
      (outcome : Outcome (Program Float) Float),
      (trainer.train entropy start).result = .ok outcome →
      (outcome.rounds < trainer.config.schedule.iterations →
        Number.equal outcome.score Number.infinity = true) ∧
      (Number.equal outcome.score Number.infinity = true →
        ∃ trials, trainer.Scored ⟨outcome.program, outcome.score⟩ trials ∧
          ((∃ trial ∈ trials, Number.equal trial.score Number.infinity = true) ∨
            TrialsOverflow .positive (trials.map Graded.score)
              trainer.config.schedule.removeOutliers))) ∧
    ∀ (trainer : ControlTrainer Float) (entropy : Entropy) (start : Option (Tree Float))
      (outcome : Outcome (Tree Float) Float),
      (trainer.train entropy start).result = .ok outcome →
      (outcome.rounds < trainer.config.schedule.iterations →
        Number.equal outcome.score Number.infinity = true) ∧
      (Number.equal outcome.score Number.infinity = true →
        ∃ scores, trainer.Scored ⟨outcome.program, outcome.score⟩ scores ∧
          ((∃ score ∈ scores, Number.equal score Number.infinity = true) ∨
            TrialsOverflow .positive scores trainer.config.schedule.removeOutliers)) := by
  refine ⟨⟨score_infinite_iff scores remove, fun missed => ⟨score_lowest_iff missed, twice_below,
    wrapped_score missed⟩, no_overflow_of_nonpositive,
    fun each few sign => no_overflow_of_moderate each few⟩, ?_, ?_⟩
  · intro trainer entropy start outcome ended
    exact (trainer.outcome_explained ended).symm
  · intro trainer entropy start outcome ended
    exact (trainer.outcome_explained ended).symm

/-- Of the mixed trials none is exact or extreme, and the only one that counts as the negative
infinity is removed, so their score is no infinity. A training that starts with a hit is solved, and
the trials of its program explain that. -/
theorem mixed_and_generous_explained :
    Number.equal (trimmedSum mixedTrials 1) Number.infinity = false ∧
      Number.equal (trimmedSum mixedTrials 1) Number.negativeInfinity = false ∧
      ∀ entropy, ∃ outcome, (ScalarTrainer.generous.train entropy
          (some #[some (.argument 0), some (.binary .add 0 0)])).result = .ok outcome ∧
        outcome.rounds = 0 ∧
        ∃ trials, ScalarTrainer.generous.Scored ⟨outcome.program, outcome.score⟩ trials ∧
          ((∃ trial ∈ trials, Number.equal trial.score Number.infinity = true) ∨
            TrialsOverflow .positive (trials.map Graded.score) 0) := by
  obtain ⟨⟨infinite, lowest, _, moderate⟩, scalar, _⟩ :=
    solved_by_exact_trial_or_overflow mixedTrials 1
  have values : mixedTrials.map Number.exact = [some ⟨2 ^ 52, -53⟩, none, some ⟨0, -1074⟩,
      some ⟨0, -1074⟩, some ⟨-3 * 2 ^ 51, -51⟩] := by decide +kernel
  have missed : ∀ score ∈ mixedTrials, Number.equal score Number.infinity = false := by
    decide +kernel
  have calm : ∀ sign, ¬ TrialsOverflow sign mixedTrials 1 := by
    refine moderate (fun score member value valued => ?_) (by decide)
    have listed : some value ∈ mixedTrials.map Number.exact :=
      List.mem_map.mpr ⟨score, member, valued⟩
    rw [values] at listed
    simp only [List.mem_cons, Option.some.injEq, List.not_mem_nil, or_false, reduceCtorEq,
      false_or] at listed
    have small : (3 : ℚ) ≤ 2 ^ (970 : ℤ) :=
      calc (3 : ℚ) ≤ 2 ^ (2 : ℤ) := by norm_num
        _ ≤ 2 ^ (970 : ℤ) := zpow_le_zpow_right₀ (by norm_num) (by norm_num)
    refine le_trans ?_ small
    rcases listed with rfl | rfl | rfl | rfl <;> norm_num [Binary.toRat]
  refine ⟨?_, ?_, fun entropy => ?_⟩
  · rw [Bool.eq_false_iff, ne_eq, infinite]
    rintro (⟨score, member, hit⟩ | overflow)
    · rw [missed score member] at hit
      cases hit
    · exact calm _ overflow
  · rw [Bool.eq_false_iff, ne_eq, (lowest missed).1]
    rintro (few | many | overflow)
    · exact absurd few (by decide)
    · exact absurd many (by decide +kernel)
    · exact calm _ overflow
  · obtain ⟨scored, rest, opened, hits⟩ := of_opens_with_hit
      (ScalarTrainer.generous.opening (some #[some (.argument 0), some (.binary .add 0 0)]))
      (TrainingSchedule.seededStream 0 0 TrainingSchedule.startUser) (by decide +kernel)
    have ended : (ScalarTrainer.generous.train entropy
        (some #[some (.argument 0), some (.binary .add 0 0)])).result =
          .ok ⟨scored.program, scored.score, 0, 0⟩ := Training.of_start_hit _ _ opened hits
    exact ⟨_, ended, rfl, (scalar _ _ _ _ ended).2 hits⟩

/-- The greatest double. -/
def greatest : Float := Float.ofBits 0x7fefffffffffffff

/-- A training in which every trial has the greatest score. There is one trial to profile a tree and
one to score it, no outlier is removed, and there is no seed. -/
def ControlTrainer.flattered : ControlTrainer Float where
  config :=
    { schedule := ⟨1, 1, 1, 0, 1, 0, none⟩, variableCount := 1, arguments := 1, blockComplexity := 2 }
  environment := .score greatest
  mutator := ⟨1, 2, {}⟩

/-- Two of the greatest doubles overflow. A training in which every trial has this score is solved
at once, whatever is drawn, although no trial is exact. -/
theorem solved_without_exact_trial :
    (∀ score ∈ [greatest, greatest], Number.isFinite score = true) ∧
      Number.equal (trimmedSum [greatest, greatest] 0) Number.infinity = true ∧
      ∃ trainer, ControlTrainer.make trainer.config (.score greatest) = .ok trainer ∧
        ∀ entropy, ∃ outcome, (trainer.train entropy none).result = .ok outcome ∧
          Number.equal outcome.score Number.infinity = true ∧
          outcome.rounds < trainer.config.schedule.iterations ∧
          ∀ scores, trainer.Scored ⟨outcome.program, outcome.score⟩ scores →
            ∀ score ∈ scores, Number.isFinite score = true := by
  have finite : ∀ score ∈ [greatest, greatest], Number.isFinite score = true := by decide +kernel
  have window : trialWindow [greatest, greatest] 0 = [greatest, greatest] := by
    have kept : wellOrdered greatest = greatest := by decide +kernel
    rw [trial_window_eq, List.map_cons, List.map_cons, List.map_nil, kept, ascending,
      List.mergeSort_of_pairwise (by simp)]
    rfl
  have overflows : Number.equal (trimmedSum [greatest, greatest] 0) Number.infinity = true := by
    rw [trimmedSum, window]
    decide +kernel
  have tested (stream : Stream) : ControlTrainer.flattered.test Tree.empty true stream =
      .ok ⟨Tree.empty, trimmedSum [greatest, greatest] 0⟩ stream := rfl
  have ended (entropy : Entropy) : (ControlTrainer.flattered.train entropy none).result =
      .ok ⟨Tree.empty, trimmedSum [greatest, greatest] 0, 0, 0⟩ :=
    Training.of_start_hit _ _ (tested (entropy 0 TrainingSchedule.startUser)) overflows
  refine ⟨finite, overflows, .flattered, rfl, fun entropy =>
    ⟨_, ended entropy, overflows, by decide, ?_⟩⟩
  intro scores scored
  cases scored with
  | trials _ _ profiles _ runs =>
    cases profiles
    cases runs
    exact finite

end ProgramSearch
