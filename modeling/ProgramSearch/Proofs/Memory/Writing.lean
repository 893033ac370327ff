import ProgramSearch.Memory.Paged

/-!
# What a write does

A write looks at its address and at the room that is left before it takes a page. One that is
refused has therefore done nothing yet: the memory and the pool are as they were, and no page is
lost on the way. A write that succeeds changes one cell, in a page of the memory or in a page that
it takes from the pool.
-/

namespace ProgramSearch

namespace Memory

variable {α : Type} [Number α] {memory : Memory α} {pool : PagePool α}

section Providing

variable {number : Int}

theorem provide_old (old : memory.pages.contains number = true) :
    provide number (memory, pool) = .ok () (memory, pool) := by
  change (if _ then _ else _ : Writing α Unit) (memory, pool) = _
  rw [if_pos old]
  rfl

theorem provide_full (fresh : memory.pages.contains number = false)
    (full : memory.limit ≤ memory.pagesInUse) :
    provide number (memory, pool) = .error .memoryExhausted (memory, pool) := by
  change (if _ then _ else _ : Writing α Unit) (memory, pool) = _
  rw [if_neg (by simp [fresh]), if_pos full]
  rfl

theorem provide_new (fresh : memory.pages.contains number = false)
    (room : ¬ memory.limit ≤ memory.pagesInUse) :
    provide number (memory, pool) =
      .ok () ({ memory with pages := memory.pages.insert number pool.take.1 }, pool.take.2) := by
  change (if _ then _ else _ : Writing α Unit) (memory, pool) = _
  rw [if_neg (by simp [fresh]), if_neg room]
  rfl

end Providing

/-- The memory with a cell of one of its pages changed. -/
def changed (memory : Memory α) (address : Address) (value : α) : Memory α :=
  { memory with pages := memory.pages.modify address.page (·.setIfInBounds address.cell value) }

/-- The memory with a new page and a cell of that changed. -/
def grown (memory : Memory α) (page : Page α) (address : Address) (value : α) : Memory α :=
  { memory with pages := memory.pages.insert address.page page }.changed address value

section Pages

variable {page : Page α} {address : Address} {value : α}

omit [Number α] in
theorem grown_page (number : Int) :
    (memory.grown page address value).pages[number]? =
      if address.page = number then some (page.setIfInBounds address.cell value)
      else memory.pages[number]? := by
  simp only [grown, changed, Std.TreeMap.getElem?_modify, Std.TreeMap.getElem?_insert,
    Std.LawfulEqCmp.compare_eq_iff_eq]
  split <;> simp

omit [Number α] in
theorem grown_used (fresh : memory.pages.contains address.page = false) :
    (memory.grown page address value).pagesInUse = memory.pagesInUse + 1 := by
  simp only [grown, changed, pagesInUse, Std.TreeMap.size_modify, Std.TreeMap.size_insert]
  rw [if_neg (by simp [fresh])]

end Pages

section Storing

variable {address : Address}

theorem store_old (old : memory.pages.contains address.page = true) (value : α) :
    store address value (memory, pool) = .ok () (memory.changed address value, pool) := by
  change EStateM.bind (provide address.page) _ (memory, pool) = _
  rw [EStateM.bind, provide_old old]
  rfl

theorem store_full (fresh : memory.pages.contains address.page = false)
    (full : memory.limit ≤ memory.pagesInUse) (value : α) :
    store address value (memory, pool) = .error .memoryExhausted (memory, pool) := by
  change EStateM.bind (provide address.page) _ (memory, pool) = _
  rw [EStateM.bind, provide_full fresh full]

theorem store_new (fresh : memory.pages.contains address.page = false)
    (room : ¬ memory.limit ≤ memory.pagesInUse) (value : α) :
    store address value (memory, pool) =
      .ok () (memory.grown pool.take.1 address value, pool.take.2) := by
  change EStateM.bind (provide address.page) _ (memory, pool) = _
  rw [EStateM.bind, provide_new fresh room]
  rfl

end Storing

section Writing

variable {place : α}

theorem write_infinite (infinite : Number.exact place = none) (value : α) :
    write place value (memory, pool) = .ok () (memory, pool) := by
  simp only [write, infinite]
  rfl

variable {exact : Binary} (finite : Number.exact place = some exact)

include finite

theorem write_invalid (invalid : Address.ofExact? exact = none) (value : α) :
    write place value (memory, pool) = .error .addressOutOfRange (memory, pool) := by
  simp only [write, finite, invalid]
  rfl

theorem write_valid {address : Address} (valid : Address.ofExact? exact = some address)
    (value : α) :
    write place value (memory, pool) = store address value (memory, pool) := by
  simp only [write, finite, valid]

end Writing

/-- A write that is refused leaves the memory and the pool as they were. -/
theorem write_refused {place value : α} {cause : Signal} {after : Memory α × PagePool α}
    (refused : write place value (memory, pool) = .error cause after) : after = (memory, pool) := by
  cases finite : Number.exact place with
  | none =>
    rw [write_infinite finite] at refused
    cases refused
  | some exact =>
    cases valid : Address.ofExact? exact with
    | none =>
      rw [write_invalid finite valid] at refused
      cases refused
      rfl
    | some address =>
      rw [write_valid finite valid] at refused
      cases old : memory.pages.contains address.page with
      | true =>
        rw [store_old old] at refused
        cases refused
      | false =>
        by_cases full : memory.limit ≤ memory.pagesInUse
        · rw [store_full old full] at refused
          cases refused
          rfl
        · rw [store_new old full] at refused
          cases refused

end Memory

end ProgramSearch
