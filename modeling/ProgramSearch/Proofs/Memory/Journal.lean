import ProgramSearch.Proofs.Memory.Address
import ProgramSearch.Proofs.Memory.Sharing
import ProgramSearch.Proofs.Number.Identity

/-!
# Memory as a journal of writes

What a memory answers is decided by the writes that it has accepted, in their order. A journal lists
these with the cells that they changed, the last one first. A cell holds what was last written to
it, a page is in use when a cell of it was written, and a write is refused for want of room exactly
when its page is not in use and as many pages are as the memory may have.

Every request keeps the memory and its journal in step, whether it is answered or refused.
-/

namespace ProgramSearch

variable {α : Type}

/-- The accepted writes, the last one first: the cells and the numbers written there. -/
abbrev Journal (α : Type) := List (Int × α)

namespace Journal

/-- The pages of the cells that were written. -/
def pages (journal : Journal α) : Finset Int :=
  (journal.map fun entry => entry.1 / (pageSize : Int)).toFinset

/-- A memory has no room for a cell when the page of the cell was never written and as many pages
were as it may have. -/
def Full (journal : Journal α) (limit : Nat) (cell : Int) : Prop :=
  cell / (pageSize : Int) ∉ journal.pages ∧ limit ≤ journal.pages.card

variable [Number α]

/-- What a cell holds: the number last written there. -/
def content (journal : Journal α) (cell : Int) : α := (journal.lookup cell).getD Number.zero

/-- Record an answered request. Only a write that was done at a finite address changes a cell. -/
def record (journal : Journal α) (request : Request α) (reply : Reply α) : Journal α :=
  match request, reply with
  | .write place value, .done =>
    match Number.exact place with
    | some exact => (⌊exact.toRat⌋, value) :: journal
    | none => journal
  | _, _ => journal

/-- Record answered requests one after the other. -/
def recordAll (journal : Journal α) : List (Request α) → List (Reply α) → Journal α
  | request :: requests, reply :: replies =>
    (journal.record request reply).recordAll requests replies
  | _, _ => journal

end Journal

variable [Number α]

/-- Cells that hold what a journal says. -/
structure Cells.Journaled (cells : Cells α) (journal : Journal α) : Prop where
  content : ∀ cell, cells.content (Address.ofCell cell) = journal.content cell
  written : ∀ page, page ∈ cells.written ↔ page ∈ journal.pages
  once : cells.written.Nodup

namespace Cells.Journaled

variable {cells : Cells α} {journal : Journal α}

/-- Nothing was written to blank cells. -/
theorem blank : (Cells.blank : Cells α).Journaled [] where
  content _ := rfl
  written page := by simp [Cells.blank, Journal.pages]
  once := List.nodup_nil

/-- There are as many pages in use as the journal names. -/
theorem counted (journaled : cells.Journaled journal) :
    cells.written.length = journal.pages.card := by
  rw [← List.toFinset_card_of_nodup journaled.once]
  congr 1
  ext page
  rw [List.mem_toFinset, journaled.written]

/-- Writing to a cell adds to the journal, if its page is among those that are in use afterwards. -/
theorem overwrite (journaled : cells.Journaled journal) (cell : Int) (value : α)
    {written : List Int} (once : written.Nodup)
    (listed : ∀ page, page ∈ written ↔ page = cell / pageSize ∨ page ∈ cells.written) :
    Journaled ⟨fun other => if other = Address.ofCell cell then value else cells.content other,
      written⟩ ((cell, value) :: journal) where
  content other := by
    simp only [Journal.content, List.lookup_cons]
    by_cases same : other = cell
    · subst same
      simp
    · rw [if_neg fun equal => same (Address.of_cell_injective equal), beq_eq_false_iff_ne.mpr same]
      exact journaled.content other
  written page := by
    rw [listed, journaled.written]
    simp [Journal.pages]
  once := once

/-- Without room for the cell a write is refused. -/
theorem store_full (journaled : cells.Journaled journal) {limit : Nat} {cell : Int}
    (full : journal.Full limit cell) (value : α) :
    cells.store limit (Address.ofCell cell) value = .error .memoryExhausted := by
  have fresh : (Address.ofCell cell).page ∉ cells.written :=
    mt (journaled.written _).mp full.1
  have exhausted : ¬ cells.written.length < limit := by
    rw [journaled.counted]
    exact Nat.not_lt.mpr full.2
  simp only [Cells.store, if_neg fresh, if_neg exhausted]

/-- With room for the cell a write is accepted and recorded. -/
theorem store_room (journaled : cells.Journaled journal) {limit : Nat} {cell : Int}
    (room : ¬ journal.Full limit cell) (value : α) :
    ∃ after, cells.store limit (Address.ofCell cell) value = .ok after ∧
      after.Journaled ((cell, value) :: journal) := by
  by_cases old : (Address.ofCell cell).page ∈ cells.written
  · refine ⟨_, by simp only [Cells.store, if_pos old]; rfl, ?_⟩
    refine journaled.overwrite cell value journaled.once fun page => ?_
    exact ⟨.inr, fun listed => listed.elim (fun same => same ▸ old) id⟩
  · have below : cells.written.length < limit := by
      rw [journaled.counted]
      exact Nat.lt_of_not_le fun full => room ⟨mt (journaled.written _).mpr old, full⟩
    refine ⟨_, by simp only [Cells.store, if_neg old, if_pos below]; rfl, ?_⟩
    refine journaled.overwrite cell value (List.nodup_cons.mpr ⟨old, journaled.once⟩) fun page => ?_
    exact List.mem_cons

end Cells.Journaled

/-- A memory and its pool after the writes of a journal. -/
structure Memory.Follows (memory : Memory α) (pool : PagePool α) (limit : Nat)
    (journal : Journal α) : Prop where
  mirrored : ∃ cells, memory.Mirrors cells ∧ cells.Journaled journal
  limited : memory.limit = limit
  blank : pool.Blank

namespace Memory.Follows

variable {memory : Memory α} {pool : PagePool α} {limit : Nat} {journal : Journal α} {place : α}

/-- A new memory over a pool of blank pages follows an empty journal. -/
theorem empty (limit : Nat) {pool : PagePool α} (blank : pool.Blank) :
    (Memory.empty limit : Memory α).Follows pool limit [] :=
  ⟨⟨Cells.blank, .empty limit, .blank⟩, rfl, blank⟩

/-- As many pages are in use as the journal names. -/
theorem used (follows : memory.Follows pool limit journal) :
    memory.pagesInUse = journal.pages.card := by
  obtain ⟨cells, mirrors, journaled⟩ := follows.mirrored
  exact mirrors.used.trans journaled.counted

/-- At an address that is not finite nothing is read, and a write has no effect. -/
theorem infinite (memory : Memory α) (pool : PagePool α) (unknown : Number.exact place = none) :
    memory.read place = Number.nan ∧
      ∀ value, Memory.write place value (memory, pool) = .ok () (memory, pool) :=
  ⟨by simp only [Memory.read, unknown], Memory.write_infinite unknown⟩

/-- At an invalid address zero is read, and a write is refused. -/
theorem invalid (memory : Memory α) (pool : PagePool α) {exact : Binary}
    (known : Number.exact place = some exact) (invalid : ¬ Address.Valid exact.toRat) :
    memory.read place = Number.zero ∧
      ∀ value, Memory.write place value (memory, pool) =
        .error .addressOutOfRange (memory, pool) :=
  ⟨by simp only [Memory.read, known, Address.of_exact_invalid invalid],
    Memory.write_invalid known (Address.of_exact_invalid invalid)⟩

section Valid

variable {exact : Binary}

/-- At a valid address the content of its cell is read. -/
theorem read (follows : memory.Follows pool limit journal)
    (known : Number.exact place = some exact) (valid : Address.Valid exact.toRat) :
    memory.read place = journal.content ⌊exact.toRat⌋ := by
  obtain ⟨cells, mirrors, journaled⟩ := follows.mirrored
  simp only [mirrors.read, Cells.read, known, Address.of_exact_valid valid, journaled.content]

/-- A write to a valid address without room for its cell is refused. -/
theorem write_full (follows : memory.Follows pool limit journal)
    (known : Number.exact place = some exact) (valid : Address.Valid exact.toRat)
    (full : journal.Full limit ⌊exact.toRat⌋) (value : α) :
    Memory.write place value (memory, pool) = .error .memoryExhausted (memory, pool) := by
  obtain ⟨cells, mirrors, journaled⟩ := follows.mirrored
  have alike := mirrors.write follows.blank place value
  simp only [Cells.write, known, Address.of_exact_valid valid, follows.limited,
    journaled.store_full full] at alike
  generalize written : Memory.write place value (memory, pool) = outcome at alike
  cases alike
  rw [Memory.write_refused written]

/-- A write to a valid address with room for its cell is accepted and recorded. -/
theorem write_room (follows : memory.Follows pool limit journal)
    (known : Number.exact place = some exact) (valid : Address.Valid exact.toRat)
    (room : ¬ journal.Full limit ⌊exact.toRat⌋) (value : α) :
    ∃ after rest, Memory.write place value (memory, pool) = .ok () (after, rest) ∧
      after.Follows rest limit ((⌊exact.toRat⌋, value) :: journal) := by
  obtain ⟨cells, mirrors, journaled⟩ := follows.mirrored
  obtain ⟨after, stored, recorded⟩ := journaled.store_room room value
  have alike := mirrors.write follows.blank place value
  simp only [Cells.write, known, Address.of_exact_valid valid, follows.limited, stored] at alike
  generalize Memory.write place value (memory, pool) = written at alike
  cases alike with
  | @stored changed rest _ mirrored limited blank =>
    exact ⟨changed, rest, rfl, ⟨⟨after, mirrored, recorded⟩, limited, blank⟩⟩

end Valid

/-- A request keeps the memory and its journal in step. -/
theorem serve (follows : memory.Follows pool limit journal) (request : Request α)
    {reply : Reply α} {after : Memory α} {rest : PagePool α}
    (served : memory.serve pool request = (reply, after, rest)) :
    after.Follows rest limit (journal.record request reply) := by
  cases request with
  | read place =>
    cases served
    exact follows
  | write place value =>
    cases finite : Number.exact place with
    | none =>
      simp only [Memory.serve, (infinite memory pool finite).2] at served
      cases served
      simpa only [Journal.record, finite] using follows
    | some exact =>
      by_cases valid : Address.Valid exact.toRat
      · by_cases full : journal.Full limit ⌊exact.toRat⌋
        · simp only [Memory.serve, follows.write_full finite valid full] at served
          cases served
          exact follows
        · obtain ⟨changed, left, written, recorded⟩ := follows.write_room finite valid full value
          simp only [Memory.serve, written] at served
          cases served
          simpa only [Journal.record, finite] using recorded
      · simp only [Memory.serve, (invalid memory pool finite valid).2] at served
        cases served
        exact follows

/-- Any number of requests keeps the memory and its journal in step. -/
theorem serve_all (follows : memory.Follows pool limit journal) (requests : List (Request α))
    {replies : List (Reply α)} {after : Memory α} {rest : PagePool α}
    (served : memory.serveAll pool requests = (replies, after, rest)) :
    after.Follows rest limit (journal.recordAll requests replies) := by
  induction requests generalizing memory pool journal replies with
  | nil =>
    cases served
    exact follows
  | cons request requests inductionHypothesis =>
    obtain ⟨rfl, last⟩ := Prod.mk.inj served
    exact inductionHypothesis (follows.serve request rfl) (Prod.ext rfl last)

end Memory.Follows

/-- A request that is refused leaves the memory and its pool as they were. -/
theorem Memory.serve_refused {memory : Memory α} {pool : PagePool α} {request : Request α}
    {cause : Signal} (refused : (memory.serve pool request).1 = .refused cause) :
    (memory.serve pool request).2 = (memory, pool) := by
  cases request with
  | read place => cases refused
  | write place value =>
    simp only [Memory.serve] at refused ⊢
    split at refused
    · cases refused
    · rename_i written
      exact Memory.write_refused written

/-- What a memory of doubles answers is decided by the writes that it has accepted. After any
sequence of requests to a new memory, a number that is not finite reads as "not a number" and is
written without an effect. The page and the place of a finite address are found by rounding its
quotient and its remainder. An invalid address reads as zero, and a write to it is refused. A valid
one reads as what was last written to its cell, and a write to it is refused exactly when its page
was never written and as many pages were as the memory may have. A request that is refused changes
nothing, and the pages in use are those that were written. -/
theorem paged_memory_is_journaled (limit : Nat) (pool : PagePool Float) (blank : pool.Blank)
    (requests : List (Request Float)) :
    ∃ replies memory rest journal,
      (Memory.empty limit).serveAll pool requests = (replies, memory, rest) ∧
      journal = Journal.recordAll [] requests replies ∧
      (∀ place, Number.isFinite place = false → memory.read place = Number.nan ∧
        ∀ value, Memory.write place value (memory, rest) = .ok () (memory, rest)) ∧
      (∀ place, Number.isFinite place = true → ∃ exact, Number.exact place = some exact ∧
        (Address.ofExact? exact = (Address.folded? exact.toRat).map
          fun cell => ⟨⌊exact.toRat / pageSize⌋, cell⟩) ∧
        (¬ Address.Valid exact.toRat → memory.read place = Number.zero ∧
          ∀ value, Memory.write place value (memory, rest) =
            .error .addressOutOfRange (memory, rest)) ∧
        (Address.Valid exact.toRat → memory.read place = journal.content ⌊exact.toRat⌋ ∧
          ∀ value,
            (journal.Full limit ⌊exact.toRat⌋ →
              Memory.write place value (memory, rest) =
                .error .memoryExhausted (memory, rest)) ∧
            (¬ journal.Full limit ⌊exact.toRat⌋ →
              ∃ left, Memory.write place value (memory, rest) = .ok () left))) ∧
      (∀ request cause, (memory.serve rest request).1 = .refused cause →
        (memory.serve rest request).2 = (memory, rest)) ∧
      memory.pagesInUse = journal.pages.card := by
  have follows := (Memory.Follows.empty limit blank).serve_all requests rfl
  refine ⟨_, _, _, _, rfl, rfl, fun place infinite => ?_, fun place finite => ?_,
    fun request cause => Memory.serve_refused, follows.used⟩
  · exact Memory.Follows.infinite _ _ ((Double.exact_none_iff place).mpr infinite)
  · obtain ⟨exact, known⟩ : ∃ exact, Number.exact place = some exact := by
      rw [← Option.ne_none_iff_exists', ne_eq, Double.exact_none_iff, finite]
      exact Bool.noConfusion
    refine ⟨exact, known, Address.of_exact_folded exact, Memory.Follows.invalid _ _ known,
      fun valid => ?_⟩
    refine ⟨follows.read known valid, fun value => ⟨fun full => ?_, fun room => ?_⟩⟩
    · exact follows.write_full known valid full value
    · obtain ⟨after, left, written, _⟩ := follows.write_room known valid room value
      exact ⟨(after, left), written⟩

/-- Writes to the last cell of a page, to a second page, and to an address that lies in no page. -/
def boundaries : List (Request Float) :=
  [.write 4095.5 1.0, .write (-4096.0) 2.0, .write (-1.0) 3.0, .write 4095.0 4.0]

/-- A memory of one page accepts the writes to the cell, whichever address names it, and refuses the
others. -/
theorem boundaries_journaled :
    ∃ replies memory rest journal, (PagePool.empty : PagePool Float).Blank ∧
      (Memory.empty 1).serveAll PagePool.empty boundaries = (replies, memory, rest) ∧
      journal = Journal.recordAll [] boundaries replies ∧
      journal = [(4095, 4.0), (4095, 1.0)] ∧ memory.pagesInUse = 1 ∧
      memory.read 4095.25 = 4.0 := by
  have recorded : Journal.recordAll [] boundaries
      ((Memory.empty 1).serveAll PagePool.empty boundaries).1 = [(4095, 4.0), (4095, 1.0)] := by
    decide +kernel
  obtain ⟨replies, memory, rest, journal, served, same, _, finite, _, used⟩ :=
    paged_memory_is_journaled 1 PagePool.empty PagePool.blank_empty boundaries
  rw [served, ← same] at recorded
  subst recorded
  obtain ⟨exact, known, _, _, valid⟩ := finite 4095.25 (by decide +kernel)
  have floor : (Number.exact (4095.25 : Float)).map Binary.floor = some 4095 := by decide +kernel
  rw [known] at floor
  have cell : ⌊exact.toRat⌋ = 4095 := exact.floor_to_rat ▸ Option.some.inj floor
  have natural : 0 ≤ exact.toRat := by
    rw [← Int.floor_nonneg, cell]
    decide
  refine ⟨replies, memory, rest, _, PagePool.blank_empty, served, same, rfl, used, ?_⟩
  rw [(valid (.inl natural)).1, cell]
  rfl

end ProgramSearch
