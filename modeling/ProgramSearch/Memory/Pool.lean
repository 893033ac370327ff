import ProgramSearch.Number

/-!
# Pages and their pool

Memory is handed out in pages of cells. A pool keeps the pages that are not in use.
A page is cleared when it comes back, so every page that the pool hands out holds
zeros only, whether it is new or was used before.
-/

namespace ProgramSearch

/-- The number of cells in a page. -/
def pageSize : Nat := 4096

abbrev Page (α : Type) := Array α

namespace Page

variable {α : Type} [Number α]

def blank : Page α := Array.replicate pageSize Number.zero

/-- Every cell set to zero. -/
def clear (page : Page α) : Page α := page.map fun _ => Number.zero

def isClear (page : Page α) : Bool := page.all Number.isZero

end Page

/-- The pages that are not in use, the one given back last at the front. -/
structure PagePool (α : Type) where
  pages : List (Page α)

namespace PagePool

variable {α : Type}

def empty : PagePool α := ⟨[]⟩

def size (pool : PagePool α) : Nat := pool.pages.length

variable [Number α]

/-- A blank page: one that was given back, or a new one if there is none. -/
def take (pool : PagePool α) : Page α × PagePool α :=
  match pool.pages with
  | page :: rest => (page, ⟨rest⟩)
  | [] => (Page.blank, pool)

/-- Clear a page and keep it. -/
def give (pool : PagePool α) (page : Page α) : PagePool α := ⟨page.clear :: pool.pages⟩

end PagePool

end ProgramSearch
