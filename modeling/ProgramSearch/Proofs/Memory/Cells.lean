import ProgramSearch.Proofs.Memory.Writing

/-!
# Memory as cells

For a program, memory is a function from addresses to numbers, together with the pages that were
written so far. Reading and writing are described here on these two alone, without pages that are
stored, taken from a pool or given back. A paged memory mirrors such cells, and reading and writing
it do the same as on the cells, provided that the pool hands out blank pages.
-/

namespace ProgramSearch

variable {α : Type}

/-- What the cells hold, and which pages were written, each once. -/
structure Cells (α : Type) where
  content : Address → α
  written : List Int

namespace Cells

variable [Number α]

/-- Nothing was written, and every cell holds zero. -/
def blank : Cells α := ⟨fun _ => Number.zero, []⟩

/-- What is read at a number. -/
def read (cells : Cells α) (place : α) : α :=
  match Number.exact place with
  | none => Number.nan
  | some exact =>
    match Address.ofExact? exact with
    | some address => cells.content address
    | none => Number.zero

/-- Write at an address. A page that was not written before must be within the limit. -/
def store (cells : Cells α) (limit : Nat) (address : Address) (value : α) :
    Except Signal (Cells α) :=
  let content := fun other => if other = address then value else cells.content other
  if address.page ∈ cells.written then .ok ⟨content, cells.written⟩
  else if cells.written.length < limit then .ok ⟨content, address.page :: cells.written⟩
  else .error .memoryExhausted

/-- Write at a number. Nothing happens at a number that is not finite. -/
def write (cells : Cells α) (limit : Nat) (place value : α) : Except Signal (Cells α) :=
  match Number.exact place with
  | none => .ok cells
  | some exact =>
    match Address.ofExact? exact with
    | some address => cells.store limit address value
    | none => .error .addressOutOfRange

/-- What a write that succeeds within a limit does, it does within any larger one. -/
theorem write_larger {cells after : Cells α} {limit larger : Nat} {place value : α}
    (more : limit ≤ larger) (succeeds : cells.write limit place value = .ok after) :
    cells.write larger place value = .ok after := by
  cases finite : Number.exact place with
  | none =>
    simp only [write, finite] at succeeds ⊢
    exact succeeds
  | some exact =>
    cases valid : Address.ofExact? exact with
    | none =>
      simp only [write, finite, valid] at succeeds
      cases succeeds
    | some address =>
      simp only [write, finite, valid, store] at succeeds ⊢
      by_cases old : address.page ∈ cells.written
      · simp only [if_pos old] at succeeds ⊢
        exact succeeds
      · simp only [if_neg old] at succeeds ⊢
        split at succeeds
        · rename_i room
          rw [if_pos (Nat.lt_of_lt_of_le room more)]
          exact succeeds
        · cases succeeds

/-- A write that fails does so because there is no room, or because its address is out of range; the
latter does not depend on the limit. -/
theorem write_refused {cells : Cells α} {limit : Nat} {place value : α} {cause : Signal}
    (refused : cells.write limit place value = .error cause) :
    cause = .memoryExhausted ∨
      cause = .addressOutOfRange ∧
        ∀ larger, cells.write larger place value = .error .addressOutOfRange := by
  simp only [write] at refused ⊢
  split at refused
  · cases refused
  · split at refused
    · simp only [store] at refused
      split at refused
      · cases refused
      · split at refused
        · cases refused
        · exact .inl (Except.error.inj refused).symm
    · exact .inr ⟨(Except.error.inj refused).symm, fun _ => rfl⟩

end Cells

/-- The cell that an address points to lies in its page. -/
theorem Address.cell_inside {place : Binary} {address : Address}
    (found : Address.ofExact? place = some address) : address.cell < pageSize := by
  simp only [Address.ofExact?] at found
  split at found
  · obtain rfl := Option.some.inj found
    have positive : (0 : Int) < pageSize := by decide
    have bounded := Int.emod_lt_of_pos place.floor positive
    have least := Int.emod_nonneg place.floor (Int.ne_of_gt positive)
    simp only
    omega
  · cases found

variable [Number α]

/-- Every page of the pool is blank. -/
def PagePool.Blank (pool : PagePool α) : Prop := ∀ page ∈ pool.pages, page = Page.blank

theorem PagePool.blank_empty : (PagePool.empty : PagePool α).Blank :=
  fun _ member => nomatch member

theorem PagePool.blank_single : (⟨[Page.blank]⟩ : PagePool α).Blank :=
  fun _ member => List.mem_singleton.mp member

/-- The page that is taken from a blank pool is blank, and so are the others. -/
theorem PagePool.Blank.take {pool : PagePool α} (blank : pool.Blank) :
    pool.take.1 = Page.blank ∧ pool.take.2.Blank := by
  unfold PagePool.take
  split
  · rename_i page rest same
    have each : ∀ other ∈ page :: rest, other = Page.blank := same ▸ blank
    exact ⟨each page List.mem_cons_self, fun other member =>
      each other (List.mem_cons_of_mem page member)⟩
  · exact ⟨rfl, blank⟩

/-- A paged memory holds what the cells hold and has the pages that were written. -/
structure Memory.Mirrors (memory : Memory α) (cells : Cells α) : Prop where
  content : ∀ address : Address, address.cell < pageSize →
    memory.load address = cells.content address
  written : ∀ page, page ∈ memory.pages ↔ page ∈ cells.written
  used : memory.pagesInUse = cells.written.length
  whole : ∀ (number : Int) (page : Page α), memory.pages[number]? = some page →
    page.size = pageSize

namespace Memory.Mirrors

variable {memory : Memory α} {cells : Cells α}

/-- An empty memory mirrors blank cells. -/
theorem empty (limit : Nat) : (Memory.empty limit : Memory α).Mirrors Cells.blank := by
  constructor
  case content =>
    intro address _
    simp [Memory.load, Memory.empty, Cells.blank]
  case written =>
    intro page
    simp [Memory.empty, Cells.blank]
  case used => rfl
  case whole =>
    intro number page held
    simp [Memory.empty] at held

/-- Reading a memory reads the cells that it mirrors. -/
theorem read (mirrors : memory.Mirrors cells) (place : α) :
    memory.read place = cells.read place := by
  cases finite : Number.exact place with
  | none => simp only [Memory.read, Cells.read, finite]
  | some exact =>
    cases valid : Address.ofExact? exact with
    | none => simp only [Memory.read, Cells.read, finite, valid]
    | some address =>
      simp only [Memory.read, Cells.read, finite, valid]
      exact mirrors.content address (Address.cell_inside valid)

/-- A page with one cell changed holds the new value there and the old values elsewhere. -/
theorem page_set {page : Page α} (whole : page.size = pageSize) (cell other : Nat)
    (inside : cell < pageSize) (value : α) :
    (page.setIfInBounds cell value).getD other Number.zero =
      if other = cell then value else page.getD other Number.zero := by
  simp only [Array.getD_eq_getD_getElem?]
  by_cases same : other = cell
  · subst same
    simp [whole, inside]
  · simp [same, Ne.symm same]

/-- Writes to a memory and to the cells that it mirrors agree. Either both succeed, or both are
refused for the same reason. -/
inductive WritesAlike (limit : Nat) :
    EStateM.Result Signal (Memory α × PagePool α) Unit → Except Signal (Cells α) → Prop where
  | stored {changed : Memory α} {rest : PagePool α} {after : Cells α} :
      changed.Mirrors after → changed.limit = limit → rest.Blank →
        WritesAlike limit (.ok () (changed, rest)) (.ok after)
  | refused (cause : Signal) (left : Memory α × PagePool α) :
      WritesAlike limit (.error cause left) (.error cause)

/-- A memory that has one page more or one page changed mirrors the changed cells, if the page holds
the old content but for the cell that is written. -/
theorem overlaid (mirrors : memory.Mirrors cells) {address : Address}
    (inside : address.cell < pageSize) (value : α) {page : Page α} (whole : page.size = pageSize)
    (before : ∀ cell, cell < pageSize →
      page.getD cell Number.zero = memory.load ⟨address.page, cell⟩)
    {changed : Memory α} (pages : ∀ number : Int, changed.pages[number]? =
      if address.page = number then some (page.setIfInBounds address.cell value)
      else memory.pages[number]?)
    {written : List Int} (listed : ∀ number, number ∈ written ↔
      address.page = number ∨ number ∈ cells.written)
    (used : changed.pagesInUse = written.length) :
    changed.Mirrors
      ⟨fun other => if other = address then value else cells.content other, written⟩ := by
  constructor
  case content =>
    intro other within
    simp only [Memory.load, pages]
    by_cases same : address.page = other.page
    · rw [if_pos same]
      simp only [page_set whole address.cell other.cell inside value]
      have equal : other = address ↔ other.cell = address.cell := by
        constructor
        · rintro rfl
          rfl
        · intro cell
          cases other
          cases address
          simp_all
      simp only [equal]
      split
      · rfl
      · rw [before other.cell within, mirrors.content ⟨address.page, other.cell⟩ within, same]
    · have different : other ≠ address := fun equal => same (congrArg Address.page equal).symm
      rw [if_neg same, if_neg different]
      exact mirrors.content other within
  case written =>
    intro number
    rw [listed, ← mirrors.written number, Std.TreeMap.mem_iff_isSome_getElem?,
      Std.TreeMap.mem_iff_isSome_getElem?, pages]
    split <;> simp_all
  case used => exact used
  case whole =>
    intro number found held
    rw [pages] at held
    split at held
    · obtain rfl := Option.some.inj held
      exact Array.size_setIfInBounds.trans whole
    · exact mirrors.whole number found held

/-- Changing a cell of a memory changes the cell that it mirrors, or is refused in both for want of
room. -/
theorem store (mirrors : memory.Mirrors cells) {pool : PagePool α} (blank : pool.Blank)
    {address : Address} (inside : address.cell < pageSize) (value : α) :
    WritesAlike memory.limit (Memory.store address value (memory, pool))
      (cells.store memory.limit address value) := by
  simp only [Cells.store]
  -- A page in use is changed in place. Any other page is taken from the pool, blank, if there is
  -- room.
  by_cases old : address.page ∈ memory.pages
  · have known := (mirrors.written address.page).mp old
    rw [Memory.store_old (Std.TreeMap.mem_iff_contains.mp old), if_pos known]
    obtain ⟨page, held⟩ : ∃ page, memory.pages[address.page]? = some page :=
      Option.isSome_iff_exists.mp (Std.TreeMap.mem_iff_isSome_getElem?.mp old)
    refine .stored (mirrors.overlaid inside value (mirrors.whole _ page held) ?_ ?_ ?_ ?_) rfl blank
    · intro cell _
      simp only [Memory.load, held]
    · intro number
      rw [Memory.changed, Std.TreeMap.getElem?_modify]
      by_cases same : address.page = number
      · subst same
        simp [held]
      · simp [same]
    · intro number
      constructor
      · exact .inr
      · rintro (rfl | member)
        · exact known
        · exact member
    · exact (Std.TreeMap.size_modify ..).trans mirrors.used
  · have unknown := mt (mirrors.written address.page).mpr old
    have fresh : memory.pages.contains address.page = false := by
      rw [← Bool.not_eq_true, ← Std.TreeMap.mem_iff_contains]
      exact old
    obtain ⟨cleared, others⟩ := blank.take
    rw [if_neg unknown]
    by_cases room : memory.limit ≤ memory.pagesInUse
    · rw [Memory.store_full fresh room, if_neg (by rw [← mirrors.used]; omega)]
      exact .refused _ _
    · rw [Memory.store_new fresh room, if_pos (by rw [← mirrors.used]; omega)]
      have whole : (Page.blank : Page α).size = pageSize := Array.size_replicate
      refine .stored (mirrors.overlaid inside value whole ?_ ?_ ?_ ?_) rfl others
      · intro cell within
        have missing : memory.pages[address.page]? = none := by
          rw [← Option.not_isSome_iff_eq_none, ← Std.TreeMap.mem_iff_isSome_getElem?]
          exact old
        simp [Memory.load, missing, Page.blank, Array.getD_eq_getD_getElem?, within]
      · intro number
        rw [Memory.grown_page, cleared]
      · intro number
        simp [eq_comm]
      · rw [Memory.grown_used fresh, mirrors.used, List.length_cons]

/-- Writing a memory writes the cells that it mirrors, or is refused in both for the same reason. -/
theorem write (mirrors : memory.Mirrors cells) {pool : PagePool α} (blank : pool.Blank)
    (place value : α) :
    WritesAlike memory.limit (Memory.write place value (memory, pool))
      (cells.write memory.limit place value) := by
  cases finite : Number.exact place with
  | none =>
    rw [Memory.write_infinite finite]
    simp only [Cells.write, finite]
    exact .stored mirrors rfl blank
  | some exact =>
    cases valid : Address.ofExact? exact with
    | none =>
      rw [Memory.write_invalid finite valid]
      simp only [Cells.write, finite, valid]
      exact .refused _ _
    | some address =>
      rw [Memory.write_valid finite valid]
      simp only [Cells.write, finite, valid]
      exact mirrors.store blank (Address.cell_inside valid) value

end Memory.Mirrors

end ProgramSearch
