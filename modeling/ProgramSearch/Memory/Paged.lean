import Std.Data.TreeMap
import ProgramSearch.Memory.Pool
import ProgramSearch.Signal

/-!
# Paged memory

An execution sees a memory whose cells are numbered by the whole numbers. An
address is a machine number and names the cell that it rounds down to. Of the
negative addresses only the whole multiples of the page size are valid.

Nothing is stored for a cell until a page is written that contains it, and an
execution may write a limited number of pages. Reading never fails: a cell that was
never written and an invalid address read as zero, and an address that is not
finite reads as "not a number".

Writing works on the memory and on the pool that its pages come from. A write that is
refused keeps what it has done to them up to there.
-/

namespace ProgramSearch

/-- A page by its number, and a cell in it. -/
structure Address where
  page : Int
  cell : Nat
deriving DecidableEq, Repr

namespace Address

/-- Where a finite address points, if it is valid. -/
def ofExact? (address : Binary) : Option Address :=
  let position := address.floor
  if 0 ≤ position || (address.scale (-12)).isWhole then
    some ⟨position / pageSize, (position % pageSize).toNat⟩
  else none

end Address

/-- The pages that one execution has written. -/
structure Memory (α : Type) where
  pages : Std.TreeMap Int (Page α)
  limit : Nat

/-- Writing to a memory with the pool of its pages. -/
abbrev Writing (α : Type) := EStateM Signal (Memory α × PagePool α)

namespace Memory

variable {α : Type}

def empty (limit : Nat) : Memory α := ⟨∅, limit⟩

def pagesInUse (memory : Memory α) : Nat := memory.pages.size

variable [Number α]

/-- The content of a cell. -/
def load (memory : Memory α) (address : Address) : α :=
  match memory.pages[address.page]? with
  | some page => page.getD address.cell Number.zero
  | none => Number.zero

def read (memory : Memory α) (address : α) : α :=
  match Number.exact address with
  | none => Number.nan
  | some exact =>
    match Address.ofExact? exact with
    | some address => memory.load address
    | none => Number.zero

/-- Have a page with a given number, taking it from the pool if it was never written. -/
def provide (number : Int) : Writing α Unit := do
  let (memory, pool) ← get
  if memory.pages.contains number then pure ()
  else if memory.limit ≤ memory.pagesInUse then throw .memoryExhausted
  else
    let (page, pool) := pool.take
    set ({ memory with pages := memory.pages.insert number page }, pool)

/-- Change a cell. -/
def store (address : Address) (value : α) : Writing α Unit := do
  provide address.page
  modify fun (memory, pool) =>
    ({ memory with
      pages := memory.pages.modify address.page (·.setIfInBounds address.cell value) }, pool)

/-- Write a cell. A write to an address that is not finite has no effect; one to an
invalid address is refused, before the number of pages is looked at. -/
def write (address value : α) : Writing α Unit :=
  match Number.exact address with
  | none => pure ()
  | some exact =>
    match Address.ofExact? exact with
    | some address => store address value
    | none => throw .addressOutOfRange

/-- Give every page back. -/
def release (memory : Memory α) (pool : PagePool α) : PagePool α :=
  memory.pages.toList.foldl (fun pool entry => pool.give entry.2) pool

end Memory

end ProgramSearch
