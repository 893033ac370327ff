import ProgramSearch.Proofs.Memory.Writing
import ProgramSearch.Proofs.Number.Likeness

/-!
# Memories that are alike

Two memories are alike when they have written the same pages and the cells of these are alike.
Addresses that are alike point to the same cell, so reading gives numbers that are alike, and a
write of numbers that are alike succeeds in both memories or fails in both for the same reason.
-/

namespace ProgramSearch

variable {α : Type} [Number α]

/-- Both memories have a page, and these are alike, or none has one. -/
inductive PagesAlike : Option (Page α) → Option (Page α) → Prop where
  | absent : PagesAlike none none
  | present {left right : Page α} : ArraysAlike left right → PagesAlike (some left) (some right)

/-- Memories with the same limit that have written the same pages, with cells that are alike. -/
structure MemoriesAlike (left right : Memory α) : Prop where
  limit : left.limit = right.limit
  used : left.pagesInUse = right.pagesInUse
  pages : ∀ number : Int, PagesAlike left.pages[number]? right.pages[number]?

namespace MemoriesAlike

theorem refl (memory : Memory α) : MemoriesAlike memory memory := by
  refine ⟨rfl, rfl, fun number => ?_⟩
  cases memory.pages[number]? with
  | none => exact .absent
  | some page => exact .present (.refl page)

variable {left right : Memory α}

/-- Cells of memories that are alike are alike. -/
theorem load (alike : MemoriesAlike left right) (address : Address) :
    Alike (left.load address) (right.load address) := by
  have pages := alike.pages address.page
  simp only [Memory.load]
  generalize left.pages[address.page]? = first at pages ⊢
  generalize right.pages[address.page]? = second at pages ⊢
  cases pages with
  | absent => exact .refl _
  | present cells => exact cells.cells address.cell

variable (likeness : Number.LikenessLaws α) {place other : α}
  (places : Alike place other)

include likeness places

/-- Reading memories that are alike at addresses that are alike gives numbers that are alike. -/
theorem read (alike : MemoriesAlike left right) :
    Alike (left.read place) (right.read other) := by
  simp only [Memory.read, places.exact likeness]
  split
  · exact .refl _
  · split
    · exact alike.load _
    · exact .refl _

omit likeness places in
/-- Both memories have a page or none has it. -/
theorem contains (alike : MemoriesAlike left right) (number : Int) :
    left.pages.contains number = right.pages.contains number := by
  have pages := alike.pages number
  rw [Std.TreeMap.contains_eq_isSome_getElem?, Std.TreeMap.contains_eq_isSome_getElem?]
  generalize left.pages[number]? = first at pages ⊢
  generalize right.pages[number]? = second at pages ⊢
  cases pages <;> rfl

omit likeness places in
/-- Changing a cell to numbers that are alike succeeds in both memories, which are alike again and
leave the same pool, or fails in both. -/
theorem store (alike : MemoriesAlike left right) (pool : PagePool α) (address : Address) {x y : α}
    (values : Alike x y) {changed : Memory α} {rest : PagePool α}
    (stored : Memory.store address x (left, pool) = .ok () (changed, rest)) :
    ∃ other, Memory.store address y (right, pool) = .ok () (other, rest) ∧
      MemoriesAlike changed other := by
  cases known : left.pages.contains address.page with
  | true =>
    rw [Memory.store_old known] at stored
    cases stored
    rw [Memory.store_old (alike.contains _ ▸ known)]
    refine ⟨_, rfl, alike.limit, ?_, fun number => ?_⟩
    · simp only [Memory.changed, Memory.pagesInUse, Std.TreeMap.size_modify]
      exact alike.used
    · have pages := alike.pages address.page
      simp only [Memory.changed, Std.TreeMap.getElem?_modify]
      split
      · generalize left.pages[address.page]? = first at pages ⊢
        generalize right.pages[address.page]? = second at pages ⊢
        cases pages with
        | absent => exact .absent
        | present cells => exact .present (cells.set address.cell values)
      · exact alike.pages number
  | false =>
    have fresh := alike.contains address.page ▸ known
    by_cases full : left.limit ≤ left.pagesInUse
    · rw [Memory.store_full known full] at stored
      cases stored
    · rw [Memory.store_new known full] at stored
      cases stored
      rw [Memory.store_new fresh (by rwa [← alike.limit, ← alike.used])]
      refine ⟨_, rfl, alike.limit, ?_, fun number => ?_⟩
      · rw [Memory.grown_used known, Memory.grown_used fresh, alike.used]
      · simp only [Memory.grown_page]
        split
        · exact .present ((ArraysAlike.refl _).set address.cell values)
        · exact alike.pages number

/-- A write of numbers that are alike to addresses that are alike succeeds in the second memory if
it does in the first, and leaves memories that are alike and the same pool. -/
theorem write (alike : MemoriesAlike left right) (pool : PagePool α) {x y : α}
    (values : Alike x y) {changed : Memory α} {rest : PagePool α}
    (written : Memory.write place x (left, pool) = .ok () (changed, rest)) :
    ∃ result, Memory.write other y (right, pool) = .ok () (result, rest) ∧
      MemoriesAlike changed result := by
  have same := places.exact likeness
  cases finite : Number.exact place with
  | none =>
    rw [Memory.write_infinite finite] at written
    cases written
    exact ⟨right, Memory.write_infinite (same ▸ finite) y, alike⟩
  | some exact =>
    cases valid : Address.ofExact? exact with
    | none =>
      rw [Memory.write_invalid finite valid] at written
      cases written
    | some address =>
      rw [Memory.write_valid finite valid] at written
      rw [Memory.write_valid (same ▸ finite) valid]
      exact alike.store pool address values written

end MemoriesAlike

end ProgramSearch
