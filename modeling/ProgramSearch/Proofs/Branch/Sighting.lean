import ProgramSearch.Program.Pruning

/-!
# What a branch profile has seen

A profile that starts empty lists a side exactly when some report selected it. For a count profile
that is the case of threshold zero: the number that it keeps for a side is the number of reports
that selected it, and a side is listed when this number exceeds the threshold. A conditional that is
called one-sided was therefore never reported on its other side.
-/

namespace ProgramSearch

/-- A selection is listed among the sides of a block. -/
def Sides.Lists (sides : Sides) (slot : UInt16) (taken : Bool) : Prop :=
  slot ∈ if taken then sides.taken else sides.notTaken

/-- A conditional is one-sided exactly when one of its sides is listed and the other is not. -/
theorem Program.only_side_iff (sides : Sides) (slot : UInt16) (only : Bool) :
    Program.onlySide? sides slot = some only ↔
      sides.Lists slot only ∧ ¬ sides.Lists slot (!only) := by
  by_cases seenTaken : slot ∈ sides.taken <;>
    by_cases seenNotTaken : slot ∈ sides.notTaken <;>
      cases only <;> simp [onlySide?, Sides.Lists, seenTaken, seenNotTaken]

/-- A listed selection of a one-sided conditional is its only side. -/
theorem Program.only_side_of_lists {sides : Sides} {slot : UInt16} {only taken : Bool}
    (found : Program.onlySide? sides slot = some only) (listed : sides.Lists slot taken) :
    taken = only := by
  obtain ⟨_, unlisted⟩ := (only_side_iff sides slot only).mp found
  by_cases same : taken = only
  · exact same
  · have opposite : taken = !only := Bool.eq_not.mpr same
    exact absurd (opposite ▸ listed) unlisted

/-- The slots of a block in a set of branches are those whose branches are in the set. -/
theorem BranchSet.mem_slots_iff (branches : BranchSet) (block : Nat) (slot : UInt16) :
    slot ∈ branches.slots block ↔ (⟨block, slot⟩ : Branch) ∈ branches := by
  simp only [slots, List.mem_map, List.mem_filter, Std.TreeSet.mem_toList, beq_iff_eq]
  constructor
  · rintro ⟨branch, ⟨member, rfl⟩, rfl⟩
    exact member
  · intro member
    exact ⟨⟨block, slot⟩, ⟨member, rfl⟩, rfl⟩

namespace Liveness

/-- Recording a report lists the selected side and nothing else. -/
theorem record_lists_iff (profile : Liveness) (report : Report) (block : Nat) (slot : UInt16)
    (taken : Bool) :
    ((profile.record report).sides block).Lists slot taken ↔
      (profile.sides block).Lists slot taken ∨ report = ⟨⟨block, slot⟩, taken⟩ := by
  obtain ⟨branch, selected⟩ := report
  cases selected <;> cases taken <;>
    simp [Sides.Lists, sides, record, BranchSet.mem_slots_iff, Std.TreeSet.mem_insert,
      or_comm]

/-- After a sequence of reports the listed sides are the old ones and the reported ones. -/
theorem fold_lists_iff (reports : List Report) (profile : Liveness) (block : Nat) (slot : UInt16)
    (taken : Bool) :
    ((reports.foldl record profile).sides block).Lists slot taken ↔
      (profile.sides block).Lists slot taken ∨ ⟨⟨block, slot⟩, taken⟩ ∈ reports := by
  induction reports generalizing profile with
  | nil => simp
  | cons report rest inductionHypothesis =>
    rw [List.foldl_cons, inductionHypothesis, record_lists_iff, List.mem_cons, or_assoc,
      @eq_comm _ report]

/-- A profile that starts empty lists what was reported. -/
theorem empty_fold_lists_iff (reports : List Report) (block : Nat) (slot : UInt16)
    (taken : Bool) :
    ((reports.foldl record empty).sides block).Lists slot taken ↔
      ⟨⟨block, slot⟩, taken⟩ ∈ reports := by
  have unseen : ¬ (empty.sides block).Lists slot taken := by
    cases taken <;> simp [Sides.Lists, sides, empty, BranchSet.mem_slots_iff]
  simp only [fold_lists_iff, unseen, false_or]

end Liveness

namespace BranchCounter

/-- How often a side was selected. -/
def selections (counter : BranchCounter) (report : Report) : Nat :=
  let counts := (counter.get? report.branch).getD {}
  if report.taken then counts.taken else counts.notTaken

/-- Recording a report counts the selected side once more and leaves the others alone. -/
theorem selections_record (counter : BranchCounter) (report other : Report) :
    (counter.record report).selections other =
      counter.selections other + if report = other then 1 else 0 := by
  obtain ⟨branch, taken⟩ := report
  obtain ⟨otherBranch, otherTaken⟩ := other
  simp only [selections, get?, record, Std.TreeMap.getElem?_alter,
    Std.LawfulEqCmp.compare_eq_iff_eq, Report.mk.injEq]
  by_cases same : branch = otherBranch
  · subst same
    cases taken <;> cases otherTaken <;> simp [Counts.add]
  · simp [same]

/-- A sequence of reports adds to every side as many selections as there are reports of it. -/
theorem selections_fold (reports : List Report) (counter : BranchCounter) (report : Report) :
    (reports.foldl record counter).selections report =
      counter.selections report + reports.count report := by
  induction reports generalizing counter with
  | nil => simp
  | cons head rest inductionHypothesis =>
    simp only [List.foldl_cons, inductionHypothesis, selections_record, List.count_cons,
      beq_iff_eq]
    omega

/-- The slots of a block whose counts pass a test are those whose branches have such counts. -/
theorem mem_slots_iff (counter : BranchCounter) (block : Nat) (seen : Counts → Bool)
    (slot : UInt16) :
    slot ∈ counter.slots block seen ↔
      ∃ counts, counter.get? ⟨block, slot⟩ = some counts ∧ seen counts = true := by
  simp only [slots, get?, List.mem_map, List.mem_filter, Bool.and_eq_true, beq_iff_eq,
    Prod.exists, Std.TreeMap.mem_toList_iff_getElem?_eq_some]
  constructor
  · rintro ⟨branch, counts, ⟨found, rfl, passed⟩, rfl⟩
    exact ⟨counts, found, passed⟩
  · rintro ⟨counts, found, passed⟩
    exact ⟨⟨block, slot⟩, counts, ⟨found, rfl, passed⟩, rfl⟩

/-- A side is listed exactly when it was selected more often than the threshold. -/
theorem sides_lists_iff (counter : BranchCounter) (block threshold : Nat) (slot : UInt16)
    (taken : Bool) :
    (counter.sides block threshold).Lists slot taken ↔
      threshold < counter.selections ⟨⟨block, slot⟩, taken⟩ := by
  cases taken <;>
    simp only [Sides.Lists, sides, mem_slots_iff, selections, decide_eq_true_eq, if_true,
      Bool.false_eq_true, if_false]
  all_goals
    generalize counter.get? ⟨block, slot⟩ = counts
    cases counts <;> simp

/-- A profile that starts empty lists what was reported, if once is enough. -/
theorem empty_fold_lists_iff (reports : List Report) (block : Nat) (slot : UInt16)
    (taken : Bool) :
    ((reports.foldl record empty).sides block 0).Lists slot taken ↔
      ⟨⟨block, slot⟩, taken⟩ ∈ reports := by
  have unseen : empty.selections ⟨⟨block, slot⟩, taken⟩ = 0 := by
    simp [selections, get?, empty]
  rw [sides_lists_iff, selections_fold, unseen, Nat.zero_add, List.count_pos_iff]

end BranchCounter

end ProgramSearch
