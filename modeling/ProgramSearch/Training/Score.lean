import ProgramSearch.Number

/-!
# Scores

A candidate is scored by several trials. A positive infinity marks an exact hit and
outweighs all else. Otherwise the best and worst trials are dropped and the others
are added up in increasing order; a negative infinity among these makes the sum one.
"Not a number" counts as a negative infinity.

How many trials are dropped is a machine word, and twice that number wraps around at
2^64. From 2^63 on it is therefore not twice as much: a short list of trials then counts
as long enough, but all of it is dropped.
-/

namespace ProgramSearch

variable {α : Type} [Number α]

/-- A trial score, where "not a number" is the worst. -/
def wellOrdered (score : α) : α :=
  if Number.isNaN score then Number.negativeInfinity else score

/-- The trial scores in increasing order, without `remove` from each end. -/
def trialWindow (scores : List α) (remove : UInt64) : List α :=
  (((scores.map wellOrdered).mergeSort fun x y => Number.rank x ≤ Number.rank y).drop
    remove.toNat).take (scores.length - (2 * remove).toNat)

/-- The score of a candidate from its trials. -/
def trimmedSum (scores : List α) (remove : UInt64) : α :=
  if scores.any (Number.equal · Number.infinity) then Number.infinity
  else if scores.length ≤ (2 * remove).toNat then Number.negativeInfinity
  else
    let window := trialWindow scores remove
    if window.any (Number.equal · Number.negativeInfinity) then Number.negativeInfinity
    else window.foldl Number.add Number.zero

/-- A scored program. -/
structure Candidate (P α : Type) where
  program : P
  score : α

namespace Candidate

variable {P : Type}

/-- Of two candidates, the later one unless the earlier one ranks higher. -/
def better (best : Option (Candidate P α)) (candidate : Candidate P α) : Option (Candidate P α) :=
  match best with
  | none => some candidate
  | some earlier =>
    if Number.rank candidate.score < Number.rank earlier.score then some earlier else some candidate

/-- The candidate with the highest score, the last one among equals. Scores that are not a
number do not take part. -/
def best? (candidates : List (Candidate P α)) : Option (Candidate P α) :=
  (candidates.filter fun candidate => !Number.isNaN candidate.score).foldl better none

end Candidate

end ProgramSearch
