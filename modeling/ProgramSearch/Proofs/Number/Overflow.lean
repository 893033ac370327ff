import ProgramSearch.Proofs.Number.Addition

/-!
# When sums overflow

The sum of two finite doubles is an infinity exactly when their exact sum lies half a last place
beyond the last double, or farther. An infinity stays what it is when finite doubles are added to
it, so adding up a list ends in an infinity exactly when some running sum and the summand that
follows it overflow.

This does not happen on the one side when all summands lie on the other. It does not happen on
either side when there are fewer than `2 ^ 53` summands of magnitude `2 ^ 970` at most: multiples of
that power are doubles, so the running sums, although they are rounded, do not get past them.
-/

namespace ProgramSearch.Double

open Float.Model Float.Model.UnpackedFloat

/-- The least magnitude that is rounded to an infinity. -/
def overflowBound : ℚ := (2 ^ 53 - 1 / 2) * 2 ^ (971 : ℤ)

/-- The infinity on the side of a sign. -/
def infinityOf : Sign → Float
  | .positive => Number.infinity
  | .negative => Number.negativeInfinity

/-- How far a number lies on the side of a sign. -/
def toward : Sign → ℚ → ℚ
  | .positive, number => number
  | .negative, number => -number

section Bounds

variable {sign : Sign} {number : ℚ}

theorem overflow_bound_positive : 0 < overflowBound := by
  unfold overflowBound
  positivity

/-- A magnitude is as high as the infinity exactly when it reaches the bound. At the greatest last
place of a double, a tie between the last double and the bound is settled for the bound, whose
significand is even. -/
theorem Settles.beyond_iff {whole : ℕ} {place : ℤ} (settles : Settles number whole place) :
    top ≤ settledHeight whole place ↔ overflowBound ≤ number := by
  have least := settles.least
  have bounded := settles.bounded
  have unit : (0 : ℚ) < 2 ^ (971 : ℤ) := by positivity
  constructor
  · intro high
    by_contra! inside
    have last := place_of_high settles.full inside
    obtain ⟨rfl, rfl⟩ : place = 971 ∧ whole = 2 ^ 53 := by
      simp only [settledHeight, top] at high
      omega
    exact absurd (no_overflow settles.nearest) inside.not_ge
  · intro beyond
    have last : 971 ≤ place := by
      by_contra! lower
      have power : (2 : ℚ) ^ (53 + place) ≤ 2 ^ (52 + 971 : ℤ) :=
        zpow_le_zpow_right₀ (by norm_num) (by omega)
      have under := settles.above.trans_le power
      rw [zpow_add₀ (by norm_num)] at under
      unfold overflowBound at beyond
      generalize (2 : ℚ) ^ (971 : ℤ) = last at unit under beyond
      norm_num at under beyond
      linarith
    have normal := settles.normal
    rcases last.lt_or_eq with farther | rfl
    · simp only [settledHeight, top]
      omega
    · -- At the greatest last place, half a unit below the bound is rounded up to it.
      have full : 2 ^ 53 ≤ whole := by
        have scaled : (2 ^ 53 - 1 / 2 : ℚ) ≤ number / 2 ^ (971 : ℤ) := by
          rw [le_div_iff₀ unit]
          exact beyond
        by_contra! less
        have small : (whole : ℚ) + 1 ≤ 2 ^ 53 := by exact_mod_cast less
        rcases settles.nearest.notAbove with lower | ⟨even, tie⟩
        · linarith
        · have odd : (whole : ℚ) = (2 ^ 53 - 1 : ℕ) := by
            push_cast
            linarith
          have same : whole = 2 ^ 53 - 1 := by exact_mod_cast odd
          omega
      simp only [settledHeight, top]
      omega

/-- A number is rounded to an infinity exactly when it reaches the bound on that side. -/
theorem RoundsTo.infinite_iff {p : ℤ} (rounds : RoundsTo number p) (sign : Sign) :
    p = sign.apply top ↔ overflowBound ≤ toward sign number := by
  have bound := overflow_bound_positive
  have height : 0 < top := by decide
  cases rounds with
  | @above magnitude whole place positive settles =>
    have beyond := settles.beyond_iff
    cases sign with
    | positive =>
      rw [toward, apply_positive, ← beyond]
      omega
    | negative =>
      rw [toward, apply_negative]
      constructor
      · omega
      · intro reached
        linarith
  | @below magnitude whole place positive settles =>
    have beyond := settles.beyond_iff
    cases sign with
    | positive =>
      rw [toward, apply_positive]
      constructor
      · omega
      · intro reached
        linarith
    | negative =>
      rw [toward, apply_negative, neg_neg, ← beyond]
      omega

/-- The infinities are the ends of the line. -/
theorem infinite_iff (x : Float) (sign : Sign) :
    Number.equal x (infinityOf sign) = true ↔ place? x = some (sign.apply top) := by
  have placed : place? (infinityOf sign) = some (sign.apply top) := by
    cases sign <;> decide +kernel
  rw [equal_places_iff]
  constructor
  · rintro ⟨p, left, right⟩
    rw [left, ← right, placed]
  · intro found
    exact ⟨_, found, placed⟩

end Bounds

section Sums

variable {x y : Float} {v w : Binary} {sign : Sign}

/-- A sum is an infinity exactly when the exact sum reaches the bound. -/
theorem sum_infinite_iff (first : exact x = some v) (second : exact y = some w) (sign : Sign) :
    Number.equal (x + y) (infinityOf sign) = true ↔
      overflowBound ≤ toward sign (v.toRat + w.toRat) := by
  obtain ⟨p, placed, rounds⟩ := sum_places first second
  rw [infinite_iff, placed, Option.some.injEq, rounds.infinite_iff]

/-- A double with an exact value is finite. -/
theorem finite_of_value (valued : exact x = some v) : Number.isFinite x = true := by
  cases finite : Number.isFinite x with
  | true => rfl
  | false => exact absurd (valued.symm.trans ((exact_none_iff x).mpr finite)) nofun

/-- An infinity has no exact value. -/
theorem no_value_of_infinite (infinite : Number.equal x (infinityOf sign) = true) :
    exact x = none := by
  have same : x = infinityOf sign := by
    cases sign
    · exact eq_of_infinite rfl infinite
    · exact eq_of_infinite rfl infinite
  cases sign <;> exact (exact_none_iff x).mpr (same ▸ rfl)

/-- An infinity is equal to itself. -/
theorem infinity_equal (sign : Sign) :
    Number.equal (infinityOf sign) (infinityOf sign) = true := by
  cases sign <;> decide +kernel

/-- A sum of finite doubles is finite, or it is one of the infinities. -/
theorem sum_cases (first : Number.isFinite x = true) (second : Number.isFinite y = true) :
    Number.isFinite (x + y) = true ∨ ∃ sign, x + y = infinityOf sign := by
  cases finite : Number.isFinite (x + y) with
  | true => exact .inl rfl
  | false =>
    obtain ⟨v, valued⟩ := value_of_finite first
    obtain ⟨w, alsoValued⟩ := value_of_finite second
    obtain ⟨p, placed, _⟩ := sum_places valued alsoValued
    rcases not_finite_cases finite with undefined | infinite | lowest
    · have defined := defined_of_place placed
      rw [undefined] at defined
      cases defined
    · exact .inr ⟨.positive, infinite⟩
    · exact .inr ⟨.negative, lowest⟩

/-- Some running sum and the summand that follows it overflow on the side of the sign. -/
def Overflows (sign : Sign) (start : Float) (summands : List Float) : Prop :=
  ∃ before next after v w, summands = before ++ next :: after ∧
    exact (before.foldl Number.add start) = some v ∧ exact next = some w ∧
    overflowBound ≤ toward sign (v.toRat + w.toRat)

/-- A list overflows when its first sum does, and when what is left does after that sum. -/
theorem overflows_cons_iff {rest : List Float} (first : exact x = some v)
    (second : exact y = some w) :
    Overflows sign x (y :: rest) ↔
      overflowBound ≤ toward sign (v.toRat + w.toRat) ∨ Overflows sign (x + y) rest := by
  constructor
  · rintro ⟨before, next, after, v', w', split, running, read, reached⟩
    cases before with
    | nil =>
      obtain ⟨rfl, rfl⟩ := List.cons.inj split
      obtain rfl := Option.some.inj (first.symm.trans running)
      obtain rfl := Option.some.inj (second.symm.trans read)
      exact .inl reached
    | cons z before =>
      obtain ⟨rfl, rfl⟩ := List.cons.inj split
      exact .inr ⟨before, next, after, v', w', rfl, running, read, reached⟩
  · rintro (reached | ⟨before, next, after, v', w', rfl, running, read, reached⟩)
    · exact ⟨[], y, rest, v, w, rfl, first, second, reached⟩
    · exact ⟨y :: before, next, after, v', w', rfl, running, read, reached⟩

/-- Adding finite doubles to an infinity leaves the infinity. -/
theorem fold_infinite {summands : List Float}
    (finite : ∀ x ∈ summands, Number.isFinite x = true) (sign : Sign) :
    summands.foldl Number.add (infinityOf sign) = infinityOf sign := by
  induction summands with
  | nil => rfl
  | cons x rest inductionHypothesis =>
    have kept : Number.add (infinityOf sign) x = infinityOf sign := by
      cases sign
      · exact add_to_infinity rfl (finite x List.mem_cons_self)
      · exact add_to_infinity rfl (finite x List.mem_cons_self)
    rw [List.foldl_cons, kept]
    exact inductionHypothesis fun y member => finite y (List.mem_cons_of_mem x member)

/-- Finite doubles add up to an infinity exactly when they overflow on its side.

The induction is on the summands. A running sum that has overflowed stays where it is, so nothing
overflows after it. -/
theorem fold_infinite_iff {summands : List Float}
    (finite : ∀ x ∈ summands, Number.isFinite x = true) {start : Float}
    (begun : Number.isFinite start = true) (sign : Sign) :
    Number.equal (summands.foldl Number.add start) (infinityOf sign) = true ↔
      Overflows sign start summands := by
  induction summands generalizing start with
  | nil =>
    obtain ⟨v, valued⟩ := value_of_finite begun
    constructor
    · intro infinite
      have none := no_value_of_infinite infinite
      rw [List.foldl_nil, valued] at none
      cases none
    · rintro ⟨before, next, after, v, w, split, _⟩
      cases before <;> cases split
  | cons x rest inductionHypothesis =>
    have first := finite x List.mem_cons_self
    have others : ∀ y ∈ rest, Number.isFinite y = true :=
      fun y member => finite y (List.mem_cons_of_mem x member)
    obtain ⟨v, valued⟩ := value_of_finite begun
    obtain ⟨w, alsoValued⟩ := value_of_finite first
    have reaches := sum_infinite_iff valued alsoValued sign
    rw [List.foldl_cons]
    change Number.equal (rest.foldl Number.add (start + x)) _ = true ↔ _
    rw [overflows_cons_iff valued alsoValued, ← reaches]
    rcases sum_cases begun first with kept | ⟨side, infinite⟩
    · rw [inductionHypothesis others kept]
      constructor
      · exact .inr
      · rintro (reached | overflows)
        · obtain ⟨u, sum⟩ := value_of_finite kept
          rw [no_value_of_infinite reached] at sum
          cases sum
        · exact overflows
    · rw [infinite, fold_infinite others]
      constructor
      · exact .inl
      · rintro (reached | ⟨before, next, after, v', w', rfl, running, _⟩)
        · exact reached
        · rw [fold_infinite fun y member => others y (List.mem_append_left _ member)] at running
          rw [no_value_of_infinite (infinity_equal side)] at running
          cases running

end Sums

section Limits

variable {sign : Sign}

/-- A side is measured additively. -/
theorem toward_add (sign : Sign) (first second : ℚ) :
    toward sign (first + second) = toward sign first + toward sign second := by
  cases sign with
  | positive => rfl
  | negative => exact neg_add first second

/-- Zero lies on no side. -/
theorem toward_zero (sign : Sign) : toward sign (Binary.toRat ⟨0, leastExponent⟩) = 0 := by
  rw [Binary.toRat, Int.cast_zero, zero_mul]
  cases sign with
  | positive => rfl
  | negative => exact neg_zero

/-- The value of zero. -/
theorem zero_value : exact Number.zero = some ⟨0, leastExponent⟩ := by
  decide +kernel

/-- A rounded sum does not get past a double that the exact sum does not get past. -/
theorem sum_within {x y limit : Float} {v w u b : Binary} (first : exact x = some v)
    (second : exact y = some w) (sum : exact (x + y) = some u) (limited : exact limit = some b)
    (inside : toward sign (v.toRat + w.toRat) ≤ toward sign b.toRat) :
    toward sign u.toRat ≤ toward sign b.toRat := by
  obtain ⟨p, placed, rounds⟩ := sum_places first second
  obtain ⟨q, alsoPlaced, alsoRounds⟩ := value_places limited
  cases sign with
  | positive =>
    exact value_le sum limited
      ((at_most_iff _ _).mpr ⟨p, q, placed, alsoPlaced, rounds.le alsoRounds inside⟩)
  | negative =>
    have above := alsoRounds.le rounds (neg_le_neg_iff.mp inside)
    exact neg_le_neg (value_le limited sum
      ((at_most_iff _ _).mpr ⟨q, p, alsoPlaced, placed, above⟩))

/-- The value of a double lies within the bound. -/
theorem value_inside {x : Float} {v : Binary} (valued : exact x = some v) :
    toward sign v.toRat < overflowBound := by
  obtain ⟨p, placed, rounds⟩ := value_places valued
  by_contra! beyond
  rw [← rounds.infinite_iff] at beyond
  have infinite := no_value_of_infinite ((infinite_iff x sign).mpr (beyond ▸ placed))
  rw [valued] at infinite
  cases infinite

/-- Limits for running sums on the side of a sign: one for every number of summands up to the given
one, each of them the value of a double, and each a step farther than the one before. -/
structure Limits (sign : Sign) (count : ℕ) (step : ℚ) (limit : ℕ → ℚ) : Prop where
  attained : ∀ i ≤ count, ∃ x v, exact x = some v ∧ toward sign v.toRat = limit i
  grows : ∀ i, limit i + step ≤ limit (i + 1)

namespace Limits

variable {count : ℕ} {step : ℚ} {limit : ℕ → ℚ} {summands : List Float}

/-- Running sums do not get past their limits. -/
theorem running (limits : Limits sign count step limit)
    (finite : ∀ x ∈ summands, Number.isFinite x = true)
    (each : ∀ x ∈ summands, ∀ w, exact x = some w → toward sign w.toRat ≤ step) {i : ℕ}
    (few : i + summands.length ≤ count) {start : Float} {v u : Binary}
    (begun : exact start = some v) (low : toward sign v.toRat ≤ limit i)
    (summed : exact (summands.foldl Number.add start) = some u) :
    toward sign u.toRat ≤ limit (i + summands.length) := by
  induction summands generalizing i start v with
  | nil =>
    obtain rfl := Option.some.inj (begun.symm.trans summed)
    exact low
  | cons x rest inductionHypothesis =>
    have others : ∀ y ∈ rest, Number.isFinite y = true :=
      fun y member => finite y (List.mem_cons_of_mem x member)
    obtain ⟨w, valued⟩ := value_of_finite (finite x List.mem_cons_self)
    change exact (rest.foldl Number.add (start + x)) = some u at summed
    rw [List.length_cons] at few ⊢
    rcases sum_cases (finite_of_value begun) (finite x List.mem_cons_self) with
      kept | ⟨side, infinite⟩
    · obtain ⟨v', sum⟩ := value_of_finite kept
      obtain ⟨z, b, limited, same⟩ := limits.attained (i + 1) (by omega)
      have next : toward sign (v.toRat + w.toRat) ≤ toward sign b.toRat := by
        rw [toward_add, same]
        exact (add_le_add low (each x List.mem_cons_self w valued)).trans (limits.grows i)
      have inside := same ▸ sum_within begun valued sum limited next
      have final := inductionHypothesis others
        (fun y member => each y (List.mem_cons_of_mem x member)) (by omega) sum inside summed
      rwa [Nat.add_right_comm, Nat.add_assoc] at final
    · rw [infinite, fold_infinite others, no_value_of_infinite (infinity_equal side)] at summed
      cases summed

/-- Summands that are a step at most do not overflow. -/
theorem no_overflow (limits : Limits sign count step limit)
    (finite : ∀ x ∈ summands, Number.isFinite x = true)
    (each : ∀ x ∈ summands, ∀ w, exact x = some w → toward sign w.toRat ≤ step)
    (few : summands.length ≤ count) (begins : 0 ≤ limit 0) :
    ¬ Overflows sign Number.zero summands := by
  rintro ⟨before, next, after, v, w, rfl, running, read, reached⟩
  have members : ∀ x ∈ before, x ∈ before ++ next :: after := fun x => List.mem_append_left _
  rw [List.length_append, List.length_cons] at few
  have inside : toward sign v.toRat ≤ limit (0 + before.length) :=
    limits.running (fun x member => finite x (members x member))
      (fun x member => each x (members x member)) (by omega) zero_value
      (by rwa [toward_zero]) running
  obtain ⟨x, b, limited, same⟩ := limits.attained (before.length + 1) (by omega)
  have bounded : toward sign b.toRat < overflowBound := value_inside limited
  have grows := limits.grows before.length
  have last := each next (List.mem_append_right _ List.mem_cons_self) w read
  rw [Nat.zero_add] at inside
  rw [toward_add] at reached
  linarith

end Limits

/-- Summands that all lie on one side do not overflow on the other. -/
theorem no_overflow_of_side {summands : List Float}
    (finite : ∀ x ∈ summands, Number.isFinite x = true)
    (each : ∀ x ∈ summands, ∀ w, exact x = some w → toward sign w.toRat ≤ 0) :
    ¬ Overflows sign Number.zero summands := by
  have limits : Limits sign summands.length 0 fun _ => 0 :=
    ⟨fun _ _ => ⟨_, _, zero_value, toward_zero sign⟩, fun _ => (add_zero 0).le⟩
  exact limits.no_overflow finite each le_rfl le_rfl

/-- Small multiples of a large power of two are values of doubles, on both sides. -/
theorem exists_multiple (sign : Sign) {factor : ℕ} (few : factor < 2 ^ 53) :
    ∃ x v, exact x = some v ∧ toward sign v.toRat = factor * 2 ^ (970 : ℤ) := by
  rcases Nat.eq_zero_or_pos factor with rfl | positive
  · exact ⟨_, _, zero_value, by rw [toward_zero, Nat.cast_zero, zero_mul]⟩
  have places : factor.log2 ≤ 52 := Nat.lt_succ_iff.mp ((Nat.log2_lt positive.ne').mpr few)
  obtain ⟨shift, settled⟩ : ∃ shift, factor.log2 + shift = 52 :=
    ⟨52 - factor.log2, Nat.add_sub_cancel' places⟩
  have least : 2 ^ 52 ≤ factor * 2 ^ shift := by
    rw [← settled, pow_add]
    exact Nat.mul_le_mul_right _ (Nat.log2_self_le positive.ne')
  have bounded : factor * 2 ^ shift < 2 ^ 53 := by
    have next : 2 ^ 53 = 2 ^ (factor.log2 + 1) * 2 ^ shift := by
      rw [← pow_add, Nat.add_right_comm, settled]
    rw [next]
    exact Nat.mul_lt_mul_of_pos_right Nat.lt_log2_self (by positivity)
  have some_ : 0 < factor * 2 ^ shift := by positivity
  have kept : (Float.Model.pack (.finite sign (factor * 2 ^ shift) (970 - shift) some_)).unpack =
      .finite sign (factor * 2 ^ shift) (970 - shift) some_ :=
    unpack_pack_normal sign some_ least bounded (by omega) (by omega)
  refine ⟨.ofModel (.pack (.finite sign (factor * 2 ^ shift) (970 - shift) some_)),
    ⟨sign.apply (factor * 2 ^ shift : ℕ), 970 - shift⟩, ?_, ?_⟩
  · rw [exact_eq]
    exact congrArg unpackedExact kept
  · have value : ((factor * 2 ^ shift : ℕ) * 2 ^ (970 - shift : ℤ) : ℚ) =
        factor * 2 ^ (970 : ℤ) := by
      rw [Nat.cast_mul, Nat.cast_pow, Nat.cast_ofNat, mul_assoc, ← zpow_natCast,
        ← zpow_add₀ (by norm_num), add_sub_cancel]
    cases sign with
    | positive =>
      rw [toward, Binary.toRat, apply_positive, Int.cast_natCast]
      exact value
    | negative =>
      rw [toward, Binary.toRat, apply_negative, Int.cast_neg, Int.cast_natCast, neg_mul, neg_neg]
      exact value

/-- Fewer than `2 ^ 53` summands do not overflow if their magnitudes are `2 ^ 970` at most. -/
theorem no_overflow_of_small {summands : List Float}
    (finite : ∀ x ∈ summands, Number.isFinite x = true)
    (each : ∀ x ∈ summands, ∀ w, exact x = some w → |w.toRat| ≤ 2 ^ (970 : ℤ))
    (few : summands.length < 2 ^ 53) (sign : Sign) : ¬ Overflows sign Number.zero summands := by
  have limits : Limits sign summands.length (2 ^ (970 : ℤ)) fun i => i * 2 ^ (970 : ℤ) := by
    refine ⟨fun i inside => exists_multiple sign (inside.trans_lt few), fun i => ?_⟩
    rw [Nat.cast_succ, add_one_mul]
  refine limits.no_overflow finite (fun x member w valued => ?_) le_rfl (by simp)
  have magnitude := abs_le.mp (each x member w valued)
  cases sign with
  | positive => exact magnitude.2
  | negative => exact neg_le.mp magnitude.1

end Limits

end ProgramSearch.Double
