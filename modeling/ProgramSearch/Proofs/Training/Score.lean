import ProgramSearch.Proofs.Number.Addition

/-!
# Scores of trial lists

The score of a candidate does not depend on the order of its trials, and better trials never make it
worse. Trials are sorted before any are dropped, by a total order that tells all numbers apart, so the
window of kept trials, and with it the order of the additions, only depends on which trials there are.

Raising trials position by position raises the sorted list position by position as well. The reason is a
count: under any bound there are no more of the raised trials than of the others, so the first of the
raised ones cannot be below all of the others, and what is left of both lists is in the same situation.
Then the windows are in order, and since addition is monotone, so are the sums. The infinities are at the
ends of this order, which is why they may decide a score on their own.
-/

namespace ProgramSearch

variable {α : Type} [Number α]

section Windows

variable (scale : Number.ScaleLaws α)

/-- The trials of a list in increasing order. -/
def ascending (scores : List α) : List α :=
  scores.mergeSort fun x y => Number.rank x ≤ Number.rank y

/-- The window is cut out of the increasing trials. -/
theorem trial_window_eq (scores : List α) (remove : UInt64) :
    trialWindow scores remove =
      ((ascending (scores.map wellOrdered)).drop remove.toNat).take
        (scores.length - (2 * remove).toNat) :=
  rfl

/-- Sorting keeps the trials. -/
theorem ascending_perm (scores : List α) : (ascending scores).Perm scores :=
  List.mergeSort_perm scores _

/-- Sorted trials are in the order of their ranks. -/
theorem ascending_ranked (scores : List α) :
    (ascending scores).Pairwise fun x y => Number.rank x ≤ Number.rank y := by
  have sorted : (ascending scores).Pairwise fun x y =>
      decide (Number.rank x ≤ Number.rank y) = true := by
    apply List.pairwise_mergeSort
    · intro x y z first second
      exact decide_eq_true (Nat.le_trans (of_decide_eq_true first) (of_decide_eq_true second))
    · intro x y
      simpa using Nat.le_total (Number.rank x) (Number.rank y)
  exact sorted.imp of_decide_eq_true

/-- One list is at most another one, position by position. -/
def Dominated : List α → List α → Prop :=
  List.Forall₂ fun x y => Number.atMost x y = true

omit [Number α] in
/-- Lists that are related position by position have a partner for every member. -/
theorem partners {R : α → α → Prop} {scores others : List α} (related : List.Forall₂ R scores others) :
    (∀ x ∈ scores, ∃ y ∈ others, R x y) ∧ ∀ y ∈ others, ∃ x ∈ scores, R x y := by
  induction related with
  | nil => simp
  | cons first _ inductionHypothesis =>
    obtain ⟨up, down⟩ := inductionHypothesis
    constructor
    · intro z member
      rcases List.mem_cons.mp member with rfl | later
      · exact ⟨_, List.mem_cons_self, first⟩
      · obtain ⟨y, partner, holds⟩ := up z later
        exact ⟨y, List.mem_cons_of_mem _ partner, holds⟩
    · intro z member
      rcases List.mem_cons.mp member with rfl | later
      · exact ⟨_, List.mem_cons_self, first⟩
      · obtain ⟨x, partner, holds⟩ := down z later
        exact ⟨x, List.mem_cons_of_mem _ partner, holds⟩

include scale

/-- Sorted trials are in their numeric order. -/
theorem ascending_ordered {scores : List α} (defined : ∀ x ∈ scores, Number.isNaN x = false) :
    (ascending scores).Pairwise fun x y => Number.atMost x y = true := by
  apply (ascending_ranked scores).imp_of_mem
  intro x y first second ranked
  exact scale.at_most_of_rank x y (defined x ((ascending_perm scores).subset first))
    (defined y ((ascending_perm scores).subset second)) ranked

/-- Trials in another order are sorted into the same list. -/
theorem ascending_of_perm {scores others : List α} (same : scores.Perm others) :
    ascending scores = ascending others := by
  apply List.Perm.eq_of_pairwise _ (ascending_ranked scores) (ascending_ranked others)
  · exact (ascending_perm scores).trans (same.trans (ascending_perm others).symm)
  · intro x y _ _ first second
    exact scale.rank_injective x y (Nat.le_antisymm first second)

/-- Under any bound there are no more of the larger trials. -/
theorem count_dominated {scores others : List α} (dominated : Dominated scores others) (bound : α) :
    others.countP (Number.atMost · bound) ≤ scores.countP (Number.atMost · bound) := by
  induction dominated with
  | nil => exact Nat.le_refl 0
  | @cons x y scores others ordered _ inductionHypothesis =>
    have heads : Number.atMost y bound = true → Number.atMost x bound = true :=
      scale.at_most_trans x y bound ordered
    simp only [List.countP_cons]
    split <;> rename_i under
    · rw [if_pos (heads under)]
      omega
    · omega

/-- Sorted lists of the same length dominate one another when the counts under all bounds say so.

The induction is on both lists. Some trial is at most the first of the larger ones, so the first of the
smaller ones is. A bound that is not above the first of the larger ones has none of them under it. -/
theorem dominated_of_counts {scores others : List α}
    (sorted : scores.Pairwise fun x y => Number.atMost x y = true)
    (alsoSorted : others.Pairwise fun x y => Number.atMost x y = true)
    (defined : ∀ y ∈ others, Number.atMost y y = true) (same : scores.length = others.length)
    (counts : ∀ bound, others.countP (Number.atMost · bound) ≤
      scores.countP (Number.atMost · bound)) : Dominated scores others := by
  induction scores generalizing others with
  | nil =>
    obtain rfl := List.length_eq_zero_iff.mp same.symm
    exact .nil
  | cons x scores inductionHypothesis =>
    cases others with
    | nil => cases same
    | cons y others =>
      obtain ⟨first, sorted⟩ := List.pairwise_cons.mp sorted
      obtain ⟨alsoFirst, alsoSorted⟩ := List.pairwise_cons.mp alsoSorted
      have least : Number.atMost x y = true := by
        have some : 0 < (x :: scores).countP (Number.atMost · y) := by
          refine Nat.lt_of_lt_of_le ?_ (counts y)
          rw [List.countP_pos_iff]
          exact ⟨y, List.mem_cons_self, defined y List.mem_cons_self⟩
        obtain ⟨z, member, under⟩ := List.countP_pos_iff.mp some
        rcases List.mem_cons.mp member with rfl | later
        · exact under
        · exact scale.at_most_trans x z y (first z later) under
      refine .cons least (inductionHypothesis sorted alsoSorted
        (fun z member => defined z (List.mem_cons_of_mem y member)) (Nat.succ.inj same) ?_)
      intro bound
      cases under : Number.atMost y bound with
      | true =>
        have whole := counts bound
        simp only [List.countP_cons, under, scale.at_most_trans x y bound least under, if_true]
          at whole
        omega
      | false =>
        have none : others.countP (Number.atMost · bound) = 0 := by
          rw [List.countP_eq_zero]
          intro z member alsoUnder
          rw [scale.at_most_trans y z bound (alsoFirst z member) alsoUnder] at under
          cases under
        omega

/-- What is compared is a number. -/
theorem Dominated.defined {scores others : List α} (dominated : Dominated scores others) :
    (∀ x ∈ scores, Number.isNaN x = false) ∧ ∀ y ∈ others, Number.isNaN y = false := by
  obtain ⟨up, down⟩ := partners dominated
  constructor
  · intro x member
    obtain ⟨y, _, ordered⟩ := up x member
    exact (scale.defined_of_at_most x y ordered).1
  · intro y member
    obtain ⟨x, _, ordered⟩ := down y member
    exact (scale.defined_of_at_most x y ordered).2

/-- Larger trials are sorted into a larger list. -/
theorem ascending_dominated {scores others : List α} (dominated : Dominated scores others) :
    Dominated (ascending scores) (ascending others) := by
  obtain ⟨lower, upper⟩ := dominated.defined scale
  apply dominated_of_counts scale (ascending_ordered scale lower) (ascending_ordered scale upper)
  · intro y member
    have defined := upper y ((ascending_perm others).subset member)
    exact scale.at_most_of_rank y y defined defined (Nat.le_refl _)
  · rw [(ascending_perm scores).length_eq, (ascending_perm others).length_eq]
    exact dominated.length_eq
  · intro bound
    rw [(ascending_perm scores).countP_eq, (ascending_perm others).countP_eq]
    exact count_dominated scale dominated bound

/-- Raising trials raises what is kept of them. -/
theorem window_dominated {scores others : List α} {remove : UInt64}
    (dominated : Dominated (scores.map wellOrdered) (others.map wellOrdered)) :
    Dominated (trialWindow scores remove) (trialWindow others remove) := by
  have same : scores.length = others.length := by simpa using dominated.length_eq
  rw [trial_window_eq, trial_window_eq, same]
  exact List.forall₂_take _ (List.forall₂_drop _ (ascending_dominated scale dominated))

end Windows

section Sums

/-- The score of a list does not depend on the order of its trials. -/
theorem trimmed_sum_perm (scale : Number.ScaleLaws α) {scores others : List α}
    (same : scores.Perm others) (remove : UInt64) :
    trimmedSum scores remove = trimmedSum others remove := by
  have window : trialWindow scores remove = trialWindow others remove := by
    rw [trial_window_eq, trial_window_eq, same.length_eq,
      ascending_of_perm scale (same.map wellOrdered)]
  rw [trimmedSum, trimmedSum, same.any_eq, same.length_eq, window]

/-- Finite numbers add up to no less when they are larger and are added to a larger number. -/
theorem fold_mono (monotone : Number.MonotoneLaws α) {window others : List α}
    (dominated : Dominated window others) (finite : ∀ x ∈ window, Number.isFinite x = true)
    (alsoFinite : ∀ y ∈ others, Number.isFinite y = true) {sum other : α}
    (ordered : Number.atMost sum other = true) :
    Number.atMost (window.foldl Number.add sum) (others.foldl Number.add other) = true := by
  induction dominated generalizing sum other with
  | nil => exact ordered
  | @cons x y _ _ first _ inductionHypothesis =>
    simp only [List.mem_cons, forall_eq_or_imp] at finite alsoFinite
    exact inductionHypothesis finite.2 alsoFinite.2
      (monotone.add_mono sum x other y ordered first finite.1 alsoFinite.1)

/-- A trial that is at least an exact hit is one. -/
theorem exact_of_at_most (comparison : Number.ComparisonLaws α) (scale : Number.ScaleLaws α)
    {x y : α} (hit : Number.equal x Number.infinity = true)
    (ordered : Number.atMost (wellOrdered x) (wellOrdered y) = true) :
    Number.equal y Number.infinity = true := by
  have atMost {x y : α} (same : Number.equal x y = true) : Number.atMost x y = true := by
    rw [Number.atMost, same, Bool.or_true]
  have definedX := (scale.defined_of_at_most x _ (atMost hit)).1
  rw [wellOrdered, definedX, if_neg Bool.false_ne_true] at ordered
  have above := scale.at_most_trans _ _ _
    (atMost (comparison.equal_symm x Number.infinity hit)) ordered
  cases undefined : Number.isNaN y with
  | true =>
    rw [wellOrdered, undefined, if_pos rfl,
      scale.apart_of_below _ _ scale.lowest_below_infinity] at above
    cases above
  | false =>
    rw [wellOrdered, undefined, if_neg Bool.false_ne_true] at above
    exact scale.equal_of_at_most _ _ (scale.at_most_infinity y undefined) above

/-- A finite number is above the negative infinity. -/
theorem finite_apart (scale : Number.ScaleLaws α) {x y : α} (finite : Number.isFinite x = true)
    (ordered : Number.atMost x y = true) : Number.equal y Number.negativeInfinity = false := by
  rw [Bool.eq_false_iff]
  intro worst
  have under : Number.atMost y Number.negativeInfinity = true := by
    rw [Number.atMost, worst, Bool.or_true]
  have above := scale.apart_of_below _ _ (Bool.and_eq_true_iff.mp finite).1
  rw [scale.at_most_trans x y _ ordered under] at above
  cases above

/-- Larger trials do not make the score of a list smaller.

A score that is not that of finite sums is an infinity, and the infinities are the ends of the order.
What remains is that the larger list has an exact hit if the other one does, and keeps none of the worst
trials if the other one does not. -/
theorem trimmed_sum_mono (comparison : Number.ComparisonLaws α) (scale : Number.ScaleLaws α)
    (sums : Number.SumLaws α) (monotone : Number.MonotoneLaws α) {scores others : List α}
    (dominated : List.Forall₂
      (fun x y => Number.atMost (wellOrdered x) (wellOrdered y) = true) scores others)
    (remove : UInt64) :
    Number.atMost (trimmedSum scores remove) (trimmedSum others remove) = true := by
  have windows : Dominated (trialWindow scores remove) (trialWindow others remove) :=
    window_dominated scale
      (List.forall₂_map_left_iff.mpr (List.forall₂_map_right_iff.mpr dominated))
  -- An exact hit is dominated by an exact hit only.
  have hits (missed : ∀ score ∈ others, Number.equal score Number.infinity = false) :
      ¬∃ score ∈ scores, Number.equal score Number.infinity = true := by
    rintro ⟨score, scored, hit⟩
    obtain ⟨other, alsoScored, ordered⟩ := (partners dominated).1 score scored
    have alsoHit := exact_of_at_most comparison scale hit ordered
    rw [missed other alsoScored] at alsoHit
    cases alsoHit
  have first := trimmed_sum_cases sums scores remove
  have second := trimmed_sum_cases sums others remove
  have defined := trimmed_sum_defined sums scores remove
  have alsoDefined := trimmed_sum_defined sums others remove
  generalize trimmedSum scores remove = total at first defined
  generalize trimmedSum others remove = other at second alsoDefined
  cases first with
  | worst => exact scale.lowest_at_most other alsoDefined
  | exact hit =>
    cases second with
    | exact => exact scale.at_most_infinity _ defined
    | worst missed => exact absurd hit (hits missed)
    | sum missed => exact absurd hit (hits missed)
  | sum _ enough finite =>
    cases second with
    | exact => exact scale.at_most_infinity _ defined
    | worst _ worst =>
      rcases worst with few | ⟨kept, member, worst⟩
      · rw [← dominated.length_eq] at few
        exact absurd few (Nat.not_le_of_lt enough)
      · obtain ⟨x, alsoMember, ordered⟩ := (partners windows).2 kept member
        rw [finite_apart scale (finite x alsoMember) ordered] at worst
        cases worst
    | sum _ _ alsoFinite =>
      exact fold_mono monotone windows finite alsoFinite (scale.at_most_of_rank _ _
        sums.zero_defined sums.zero_defined (Nat.le_refl _))

end Sums

/-- The score of a list of doubles is the same in whatever order its trials come, whether they are
infinities, zeros of either sign or "not a number", and however many are dropped. It is never "not a
number". If every trial of one list is at most the one at its position in another list, where "not a
number" counts as the negative infinity, then so is its score. Nothing is assumed of addition. -/
theorem trimmed_sum_symmetric_and_monotone (first second : List Float) (remove : UInt64) :
    (first.Perm second → trimmedSum first remove = trimmedSum second remove) ∧
      Number.isNaN (trimmedSum first remove) = false ∧
      (List.Forall₂ (fun x y => Number.atMost (wellOrdered x) (wellOrdered y) = true) first second →
        Number.atMost (trimmedSum first remove) (trimmedSum second remove) = true) :=
  ⟨fun same => trimmed_sum_perm Double.scale_laws same remove,
    trimmed_sum_defined Double.sum_laws first remove,
    fun dominated => trimmed_sum_mono Double.comparison_laws Double.scale_laws Double.sum_laws
      Double.monotone_laws dominated remove⟩

/-- Trials with a "not a number" and both zeros among them. -/
def mixedTrials : List Float := [0.5, 0.0 / 0.0, -0.0, 0.0, -3.0]

/-- The same trials in another order. -/
def shuffledTrials : List Float := [0.0, -3.0, 0.5, -0.0, 0.0 / 0.0]

/-- The same trials with a large number in place of "not a number". -/
def raisedTrials : List Float := [0.5, 7.0, -0.0, 0.0, -3.0]

/-- The trials come to the same score in either order. Raising one, which moves it from one side of the
window to the other, makes the score no smaller. -/
theorem mixed_trials_scored :
    mixedTrials.Perm shuffledTrials ∧ trimmedSum mixedTrials 1 = trimmedSum shuffledTrials 1 ∧
      Number.isNaN (trimmedSum mixedTrials 1) = false ∧
      List.Forall₂ (fun x y => Number.atMost (wellOrdered x) (wellOrdered y) = true)
        mixedTrials raisedTrials ∧
      Number.atMost (trimmedSum mixedTrials 1) (trimmedSum raisedTrials 1) = true := by
  have shuffled : mixedTrials.Perm shuffledTrials := by decide +kernel
  have raised : List.Forall₂
      (fun x y => Number.atMost (wellOrdered x) (wellOrdered y) = true) mixedTrials raisedTrials := by
    refine .cons ?_ (.cons ?_ (.cons ?_ (.cons ?_ (.cons ?_ .nil)))) <;> decide +kernel
  obtain ⟨same, defined, _⟩ := trimmed_sum_symmetric_and_monotone mixedTrials shuffledTrials 1
  obtain ⟨_, _, larger⟩ := trimmed_sum_symmetric_and_monotone mixedTrials raisedTrials 1
  exact ⟨shuffled, same shuffled, defined, raised, larger raised⟩

end ProgramSearch
