import ProgramSearch.Proofs.Memory.Cells

/-!
# What a memory wants from the pool

A write takes at most one page from the pool: the one it is the first to write to, if the limit
allows another page. Whether it does is known before the pool is looked at, and a pool that holds
just the page that is taken will do. When a memory is released, its pages come back cleared.
-/

namespace ProgramSearch

variable {α : Type} [Number α]

/-- A cleared page of the full size is blank. -/
theorem Page.clear_blank {page : Page α} (whole : page.size = pageSize) :
    page.clear = Page.blank := by
  rw [Page.clear, Page.blank, ← whole]
  exact Array.map_const

namespace Memory

/-- The number of the page that a write takes from the pool, if it takes one. -/
def demand? (memory : Memory α) (place : α) : Option Int :=
  match Number.exact place with
  | none => none
  | some exact =>
    match Address.ofExact? exact with
    | some address =>
      if memory.pages.contains address.page then none
      else if memory.limit ≤ memory.pagesInUse then none
      else some address.page
    | none => none

/-- Every page has the full size. -/
def Whole (memory : Memory α) : Prop :=
  ∀ (number : Int) (page : Page α), memory.pages[number]? = some page → page.size = pageSize

omit [Number α] in
/-- An empty memory has no page that is too small. -/
theorem whole_empty (limit : Nat) : (Memory.empty limit : Memory α).Whole := by
  intro number page held
  simp [Memory.empty] at held

/-- A write that takes no page does the same with every pool and leaves it alone: it changes a page
of the memory, or nothing at all. -/
theorem write_of_none {memory : Memory α} {place : α} (none : memory.demand? place = none)
    (value : α) :
    (∃ after, (∀ pool, write place value (memory, pool) = .ok () (after, pool)) ∧
      after.pages.keys.Perm memory.pages.keys ∧ (memory.Whole → after.Whole)) ∨
    ∃ cause, ∀ pool, write place value (memory, pool) = .error cause (memory, pool) := by
  cases finite : Number.exact place with
  | none => exact .inl ⟨memory, fun _ => write_infinite finite value, .refl _, id⟩
  | some exact =>
    cases valid : Address.ofExact? exact with
    | none => exact .inr ⟨_, fun _ => write_invalid finite valid value⟩
    | some address =>
      simp only [demand?, finite, valid] at none
      simp only [write_valid finite valid]
      cases old : memory.pages.contains address.page with
      | true =>
        refine .inl ⟨_, fun _ => store_old old value, ?_, ?_⟩
        · rw [List.perm_ext_iff_of_nodup Std.TreeMap.nodup_keys Std.TreeMap.nodup_keys]
          intro number
          simp only [changed, Std.TreeMap.mem_keys, Std.TreeMap.mem_modify]
        · intro whole number page held
          simp only [changed, Std.TreeMap.getElem?_modify] at held
          split at held
          · rw [Option.map_eq_some_iff] at held
            obtain ⟨before, found, rfl⟩ := held
            rename_i same
            rw [Std.LawfulEqCmp.eq_of_compare same] at found
            exact Array.size_setIfInBounds.trans (whole number before found)
          · exact whole number page held
      | false =>
        by_cases full : memory.limit ≤ memory.pagesInUse
        · exact .inr ⟨_, fun _ => store_full old full value⟩
        · rw [old, if_neg Bool.false_ne_true, if_neg full] at none
          cases none

/-- A write that takes a page succeeds. What it leads to depends on the pool only in the page that is
taken. -/
theorem write_of_some {memory : Memory α} {place : α} {number : Int}
    (some : memory.demand? place = some number) (page : Page α) (value : α) :
    ∃ after, (∀ pool : PagePool α, pool.take.1 = page →
      write place value (memory, pool) = .ok () (after, pool.take.2)) ∧
      after.pages.keys.Perm (number :: memory.pages.keys) ∧
      (page.size = pageSize → memory.Whole → after.Whole) := by
  cases finite : Number.exact place with
  | none =>
    simp only [demand?, finite] at some
    cases some
  | some exact =>
    cases valid : Address.ofExact? exact with
    | none =>
      simp only [demand?, finite, valid] at some
      cases some
    | some address =>
      simp only [demand?, finite, valid] at some
      simp only [write_valid finite valid]
      split at some
      · cases some
      rename_i unknown
      split at some
      · cases some
      rename_i room
      obtain rfl := Option.some.inj some
      have fresh := Bool.eq_false_iff.mpr unknown
      refine ⟨memory.grown page address value, ?_, ?_, ?_⟩
      · rintro pool rfl
        exact store_new fresh room value
      · -- The keys after the insertion are the old ones and the new page, since that was not among
        -- them.
        have unlisted : address.page ∉ memory.pages.keys := by
          rw [Std.TreeMap.mem_keys, Std.TreeMap.mem_iff_contains]
          exact unknown
        rw [List.perm_ext_iff_of_nodup Std.TreeMap.nodup_keys
          (List.nodup_cons.mpr ⟨unlisted, Std.TreeMap.nodup_keys⟩)]
        intro other
        simp only [grown, changed, List.mem_cons, Std.TreeMap.mem_keys, Std.TreeMap.mem_modify,
          Std.TreeMap.mem_insert, Std.LawfulEqCmp.compare_eq_iff_eq]
        rw [eq_comm]
      · intro whole others other found held
        rw [grown_page] at held
        split at held
        · obtain rfl := Option.some.inj held
          exact Array.size_setIfInBounds.trans whole
        · exact others other found held

/-- The pages that a memory gives back lie cleared on the others. -/
theorem release_pages (memory : Memory α) (pool : PagePool α) :
    (memory.release pool).pages =
      (memory.pages.toList.map fun entry => entry.2.clear).reverse ++ pool.pages := by
  rw [release]
  induction memory.pages.toList generalizing pool with
  | nil => rfl
  | cons entry rest inductionHypothesis =>
    rw [List.foldl_cons, inductionHypothesis, PagePool.give, List.map_cons, List.reverse_cons,
      List.append_assoc]
    rfl

/-- What is given back is blank if the memory is whole. -/
theorem Whole.release {memory : Memory α} (whole : memory.Whole) {pool : PagePool α}
    (blank : pool.Blank) : (memory.release pool).Blank := by
  intro page member
  rw [release_pages] at member
  rcases List.mem_append.mp member with returned | kept
  · rw [List.mem_reverse, List.mem_map] at returned
    obtain ⟨⟨number, before⟩, held, rfl⟩ := returned
    exact Page.clear_blank
      (whole number before (Std.TreeMap.mem_toList_iff_getElem?_eq_some.mp held))
  · exact blank page kept

end Memory

end ProgramSearch
