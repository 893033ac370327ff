import ProgramSearch.Proofs.Branch.Sighting

/-!
# Two observers of the same branches

A liveness profile and a count profile keep different things, but both list what they have seen in
the order of the slots and without repetition. So lists with the same members are the same lists,
and when both profiles were told the same reports, the sides that one of them lists are the sides
that the other one lists without a threshold.
-/

namespace ProgramSearch

/-- Slots in their order, each once, are determined by which slots there are. -/
theorem slots_eq_of_members {first second : List UInt16} (ordered : first.Pairwise (· < ·))
    (orderedToo : second.Pairwise (· < ·)) (members : ∀ slot, slot ∈ first ↔ slot ∈ second) :
    first = second := by
  have distinct : ∀ {slots : List UInt16}, slots.Pairwise (· < ·) → slots.Nodup :=
    fun sorted => sorted.imp UInt16.ne_of_lt
  have permuted : first.Perm second :=
    (List.perm_ext_iff_of_nodup (distinct ordered) (distinct orderedToo)).mpr members
  refine permuted.eq_of_pairwise (fun slot other _ _ before after => ?_) ordered orderedToo
  exact absurd after (UInt16.lt_asymm before)

/-- Both lists of sides are in the order of the slots and without repetition. -/
structure Sides.Ordered (sides : Sides) : Prop where
  taken : sides.taken.Pairwise (· < ·)
  notTaken : sides.notTaken.Pairwise (· < ·)

/-- Ordered sides are determined by the selections that they list. -/
theorem Sides.eq_of_lists {first second : Sides} (ordered : first.Ordered)
    (orderedToo : second.Ordered)
    (lists : ∀ slot taken, first.Lists slot taken ↔ second.Lists slot taken) : first = second := by
  obtain ⟨firstTaken, firstNotTaken⟩ := first
  obtain ⟨secondTaken, secondNotTaken⟩ := second
  obtain rfl : firstTaken = secondTaken :=
    slots_eq_of_members ordered.taken orderedToo.taken fun slot => lists slot true
  obtain rfl : firstNotTaken = secondNotTaken :=
    slots_eq_of_members ordered.notTaken orderedToo.notTaken fun slot => lists slot false
  rfl

/-- Within a block, branches are ordered by their slots. -/
theorem Branch.node_lt_of_order {first second : Branch} (before : order first second = .lt)
    (same : first.block = second.block) : first.node < second.node := by
  rw [order, compareLex, compareOn, same, Std.compare_self] at before
  exact compareOfLessAndEq_eq_lt.mp before

/-- The slots of a block are listed in their order when the branches are. -/
theorem ordered_of_branches {β : Type} {branch : β → Branch} {entries : List β}
    (ordered : entries.Pairwise fun entry other =>
      Branch.order (branch entry) (branch other) = .lt) {block : Nat} {listed : β → Bool}
    (inside : ∀ entry, listed entry = true → (branch entry).block = block) :
    ((entries.filter listed).map fun entry => (branch entry).node).Pairwise (· < ·) := by
  rw [List.pairwise_map]
  refine (ordered.filter listed).imp_of_mem fun {entry other} member memberToo before => ?_
  apply Branch.node_lt_of_order before
  rw [inside entry (List.mem_filter.mp member).2, inside other (List.mem_filter.mp memberToo).2]

/-- A set of branches lists the slots of a block in their order. -/
theorem BranchSet.slots_ordered (branches : BranchSet) (block : Nat) :
    (branches.slots block).Pairwise (· < ·) := by
  have ordered : branches.toList.Pairwise fun branch other => Branch.order branch other = .lt :=
    Std.TreeSet.ordered_toList
  exact ordered_of_branches ordered fun branch here => eq_of_beq here

/-- A liveness profile lists ordered sides. -/
theorem Liveness.sides_ordered (profile : Liveness) (block : Nat) :
    (profile.sides block).Ordered :=
  ⟨profile.taken.slots_ordered block, profile.notTaken.slots_ordered block⟩

namespace BranchCounter

/-- A count profile lists the slots of a block in their order. -/
theorem slots_ordered (counter : BranchCounter) (block : Nat) (seen : Counts → Bool) :
    (counter.slots block seen).Pairwise (· < ·) := by
  have ordered : counter.counts.toList.Pairwise fun entry other =>
      Branch.order entry.1 other.1 = .lt := Std.TreeMap.ordered_keys_toList
  apply ordered_of_branches ordered
  intro entry listed
  exact eq_of_beq (Bool.and_eq_true_iff.mp listed).1

/-- A count profile lists ordered sides, whatever the threshold is. -/
theorem sides_ordered (counter : BranchCounter) (block threshold : Nat) :
    (counter.sides block threshold).Ordered where
  taken := counter.slots_ordered block fun counts => threshold < counts.taken
  notTaken := counter.slots_ordered block fun counts => threshold < counts.notTaken

end BranchCounter

/-- Observers that are told the same reports from the start list the same sides, if no side has to
be seen more than once. -/
theorem observers_agree (reports : List Report) (block : Nat) :
    (reports.foldl Liveness.record Liveness.empty).sides block =
      (reports.foldl BranchCounter.record BranchCounter.empty).sides block 0 := by
  apply Sides.eq_of_lists (Liveness.sides_ordered _ _) (BranchCounter.sides_ordered _ _ _)
  intro slot taken
  rw [Liveness.empty_fold_lists_iff, BranchCounter.empty_fold_lists_iff]

end ProgramSearch
