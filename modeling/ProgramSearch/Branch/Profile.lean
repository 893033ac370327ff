import Std.Data.TreeMap
import Std.Data.TreeSet
import ProgramSearch.Branch

/-!
# Branch profiles

Two observers collect branch reports. A liveness profile remembers which sides
were ever selected; a count profile remembers how often. Both answer, for one
block, which conditionals were seen on which side. With a threshold, a side only
counts as seen when it was selected more often than that.

The answer is a pair of sorted lists without repetition, so that two profiles that
saw the same sides give equal answers.
-/

namespace ProgramSearch

/-- The conditionals of one block that were seen positive, and those that were
seen otherwise, each sorted and without repetition. -/
structure Sides where
  taken : List UInt16
  notTaken : List UInt16
deriving DecidableEq, Repr

/-- A set of branches, listed in their order. -/
abbrev BranchSet := Std.TreeSet Branch Branch.order

/-- The slots of one block in a set of branches. -/
def BranchSet.slots (branches : BranchSet) (block : Nat) : List UInt16 :=
  (branches.toList.filter (·.block == block)).map Branch.node

/-- Which sides of which branches were ever selected. -/
structure Liveness where
  taken : BranchSet
  notTaken : BranchSet

namespace Liveness

def empty : Liveness := ⟨∅, ∅⟩

def isEmpty (profile : Liveness) : Bool := profile.taken.isEmpty && profile.notTaken.isEmpty

def record (profile : Liveness) (report : Report) : Liveness :=
  if report.taken then { profile with taken := profile.taken.insert report.branch }
  else { profile with notTaken := profile.notTaken.insert report.branch }

def sides (profile : Liveness) (block : Nat) : Sides :=
  ⟨profile.taken.slots block, profile.notTaken.slots block⟩

end Liveness

/-- How often each side of one branch was selected. -/
structure Counts where
  taken : Nat := 0
  notTaken : Nat := 0
deriving DecidableEq, Repr

namespace Counts

def add (counts : Counts) (taken : Bool) : Counts :=
  if taken then { counts with taken := counts.taken + 1 }
  else { counts with notTaken := counts.notTaken + 1 }

def isOneSided (counts : Counts) : Bool := counts.taken == 0 || counts.notTaken == 0

end Counts

/-- A summary of a count profile. -/
structure BranchTotals where
  tracked : Nat
  oneSided : Nat
  selections : Nat
deriving DecidableEq, Repr

def BranchTotals.display (totals : BranchTotals) : String :=
  s!"{totals.tracked} branch(es) tracked, {totals.oneSided} one-sided, " ++
    s!"{totals.selections} selection(s)"

/-- How often each side of each branch was selected. -/
structure BranchCounter where
  counts : Std.TreeMap Branch Counts Branch.order

namespace BranchCounter

def empty : BranchCounter := ⟨∅⟩

def get? (counter : BranchCounter) (branch : Branch) : Option Counts := counter.counts[branch]?

def record (counter : BranchCounter) (report : Report) : BranchCounter :=
  ⟨counter.counts.alter report.branch fun counts => some ((counts.getD {}).add report.taken)⟩

/-- The slots of one block whose counts pass a test. -/
def slots (counter : BranchCounter) (block : Nat) (seen : Counts → Bool) : List UInt16 :=
  (counter.counts.toList.filter fun entry =>
    entry.1.block == block && seen entry.2).map (·.1.node)

/-- The sides of one block that were selected more often than the threshold. -/
def sides (counter : BranchCounter) (block threshold : Nat) : Sides :=
  ⟨counter.slots block (threshold < ·.taken), counter.slots block (threshold < ·.notTaken)⟩

def totals (counter : BranchCounter) : BranchTotals :=
  let all := counter.counts.toList.map Prod.snd
  ⟨all.length, all.countP Counts.isOneSided,
    all.foldl (fun total counts => total + (counts.taken + counts.notTaken)) 0⟩

end BranchCounter

end ProgramSearch
