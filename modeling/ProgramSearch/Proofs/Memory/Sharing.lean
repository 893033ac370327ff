import ProgramSearch.Number.Double
import ProgramSearch.Proofs.Memory.Demand

/-!
# Memories that share a pool

Any number of memories may be opened over one pool. They are read, written and dropped in any order,
so the pages of the pool pass from one to another. To say that no page has two owners, the pages are
numbered here in the order in which they are created, and the numbers follow the pages. Without the
numbers, every step is the one that a memory takes with the pool.

Each memory answers as if it were alone, the pages of the pool are blank, and every page that was
ever created is either in the pool or in exactly one of the memories that were not dropped.
-/

namespace ProgramSearch

variable {α : Type}

/-- What is asked of a memory. -/
inductive Request (α : Type) where
  | read (place : α)
  | write (place value : α)

/-- What a memory answers. -/
inductive Reply (α : Type) where
  | value (content : α)
  | done
  | refused (cause : Signal)

/-- The number of the page that a request takes from the pool, if it takes one. -/
def Request.demand? [Number α] (memory : Memory α) : Request α → Option Int
  | .read _ => none
  | .write place _ => memory.demand? place

namespace Memory

variable [Number α]

/-- Answer one request. What a write leaves is kept, also when it is refused. -/
def serve (memory : Memory α) (pool : PagePool α) :
    Request α → Reply α × Memory α × PagePool α
  | .read place => (.value (memory.read place), memory, pool)
  | .write place value =>
    match write place value (memory, pool) with
    | .ok _ left => (.done, left)
    | .error cause left => (.refused cause, left)

/-- Answer requests one after the other. -/
def serveAll (memory : Memory α) (pool : PagePool α) :
    List (Request α) → List (Reply α) × Memory α × PagePool α
  | [] => ([], memory, pool)
  | request :: rest =>
    let (reply, memory, pool) := memory.serve pool request
    let (replies, last) := serveAll memory pool rest
    (reply :: replies, last)

/-- The answers of a new memory that has a pool of its own. -/
def alone (limit : Nat) (requests : List (Request α)) :
    List (Reply α) × Memory α × PagePool α :=
  (Memory.empty limit).serveAll PagePool.empty requests

/-- The last of several requests is answered by the memory that the others left. -/
theorem serve_all_snoc (memory : Memory α) (pool : PagePool α) (requests : List (Request α))
    (request : Request α) :
    memory.serveAll pool (requests ++ [request]) =
      let (replies, after, rest) := memory.serveAll pool requests
      let (reply, last) := after.serve rest request
      (replies ++ [reply], last) := by
  induction requests generalizing memory pool with
  | nil => rfl
  | cons first requests inductionHypothesis =>
    simp only [List.cons_append, serveAll, inductionHypothesis]

end Memory

/-- A page with the number that it was given when it was created. -/
structure NumberedPage (α : Type) where
  serial : Nat
  page : Page α

/-- A pool of numbered pages. -/
structure NumberedPool (α : Type) where
  pages : List (NumberedPage α)
  /-- How many pages were ever created. -/
  created : Nat

namespace NumberedPool

/-- No page was created yet. -/
def empty : NumberedPool α := ⟨[], 0⟩

/-- The pool without the numbers. -/
def plain (pool : NumberedPool α) : PagePool α := ⟨pool.pages.map (·.page)⟩

def serials (pool : NumberedPool α) : List Nat := pool.pages.map (·.serial)

variable [Number α]

/-- Take the first page, or create one. -/
def take (pool : NumberedPool α) : NumberedPage α × NumberedPool α :=
  match pool.pages with
  | page :: rest => (page, ⟨rest, pool.created⟩)
  | [] => (⟨pool.created, Page.blank⟩, ⟨[], pool.created + 1⟩)

/-- Clear a page and keep it with its number. -/
def give (pool : NumberedPool α) (page : NumberedPage α) : NumberedPool α :=
  ⟨⟨page.serial, page.page.clear⟩ :: pool.pages, pool.created⟩

/-- A page is taken as if there were no numbers. -/
theorem take_plain (pool : NumberedPool α) :
    pool.plain.take = (pool.take.1.page, pool.take.2.plain) := by
  obtain ⟨pages, created⟩ := pool
  cases pages <;> rfl

/-- If every page that was created is in the pool or elsewhere, then the page that is taken is
neither in the rest of the pool nor elsewhere. -/
theorem take_accounted {pool : NumberedPool α} {elsewhere : List Nat}
    (all : (pool.serials ++ elsewhere).Perm (List.range pool.created)) :
    (pool.take.2.serials ++ pool.take.1.serial :: elsewhere).Perm
      (List.range pool.take.2.created) := by
  obtain ⟨pages, created⟩ := pool
  cases pages with
  | nil =>
    simp only [take, serials, List.map_nil, List.nil_append] at all ⊢
    rw [List.range_succ]
    exact (List.Perm.cons created all).trans (List.perm_append_singleton ..).symm
  | cons page rest => exact List.perm_middle.trans all

end NumberedPool

/-- A memory with the numbers of its pages. -/
structure NumberedMemory (α : Type) where
  memory : Memory α
  /-- The number that the page of a place in memory was created with. -/
  serial : Int → Nat

namespace NumberedMemory

/-- The numbers of the pages that the memory holds. -/
def serials (owned : NumberedMemory α) : List Nat := owned.memory.pages.keys.map owned.serial

theorem serials_length (owned : NumberedMemory α) :
    owned.serials.length = owned.memory.pagesInUse := by
  rw [serials, List.length_map, Std.TreeMap.length_keys]
  rfl

/-- Memories with the same pages, and the same numbers on them, hold the same numbers. -/
theorem serials_perm {owned : NumberedMemory α} (changed : NumberedMemory α) (taken : List Int)
    (keys : changed.memory.pages.keys.Perm (taken ++ owned.memory.pages.keys))
    (kept : ∀ number ∈ owned.memory.pages.keys, changed.serial number = owned.serial number) :
    changed.serials.Perm (taken.map changed.serial ++ owned.serials) := by
  have mapped := keys.map changed.serial
  rw [List.map_append, List.map_congr_left kept] at mapped
  exact mapped

variable [Number α]

/-- What is put ready for a request: if it takes a page, that page alone, and the other pages stay
in the pool. The page that is taken brings its number along. -/
def supply (owned : NumberedMemory α) (pool : NumberedPool α) (request : Request α) :
    (Int → Nat) × PagePool α × NumberedPool α :=
  match request.demand? owned.memory with
  | none => (owned.serial, pool.plain, pool)
  | some number =>
    let (entry, rest) := pool.take
    (fun other => if other = number then entry.serial else owned.serial other, ⟨[entry.page]⟩, rest)

/-- Answer one request as the memory does with what is put ready. -/
def serve (owned : NumberedMemory α) (pool : NumberedPool α) (request : Request α) :
    Reply α × NumberedMemory α × NumberedPool α :=
  let (serial, ready, rest) := owned.supply pool request
  let (reply, after, _) := owned.memory.serve ready request
  (reply, ⟨after, serial⟩, rest)

/-- Give every page back with its number. -/
def release (owned : NumberedMemory α) (pool : NumberedPool α) : NumberedPool α :=
  owned.memory.pages.toList.foldl
    (fun pool entry => pool.give ⟨owned.serial entry.1, entry.2⟩) pool

/-- What serving a request comes to. -/
structure Served (owned : NumberedMemory α) (pool : NumberedPool α) (request : Request α)
    (reply : Reply α) (changed : NumberedMemory α) (rest : NumberedPool α) : Prop where
  /-- Without the numbers, it is what the memory does with the pool. -/
  plain : owned.memory.serve pool.plain request = (reply, changed.memory, rest.plain)
  /-- With any other blank pool, the memory does the same. -/
  alike : pool.plain.Blank → ∀ other : PagePool α, other.Blank →
    ∃ left, owned.memory.serve other request = (reply, changed.memory, left) ∧
      (other = PagePool.empty → left = PagePool.empty)
  blank : pool.plain.Blank → rest.plain.Blank
  whole : pool.plain.Blank → owned.memory.Whole → changed.memory.Whole
  /-- No number is lost, and only new pages get new ones. -/
  accounted : ∀ others, (pool.serials ++ (owned.serials ++ others)).Perm
    (List.range pool.created) →
    (rest.serials ++ (changed.serials ++ others)).Perm (List.range rest.created)
  /-- A request that is refused changes nothing, and touches no pool. -/
  refused : ∀ cause, reply = .refused cause → changed = owned ∧ rest = pool ∧
    ∀ other : PagePool α, owned.memory.serve other request = (reply, owned.memory, other)

/-- A request for which no page is taken is served without the pool. -/
theorem Served.kept {owned : NumberedMemory α} {request : Request α} {reply : Reply α}
    {after : Memory α} (pool : NumberedPool α)
    (serves : ∀ other, owned.memory.serve other request = (reply, after, other))
    (keys : after.pages.keys.Perm owned.memory.pages.keys)
    (whole : owned.memory.Whole → after.Whole)
    (refused : ∀ cause, reply = .refused cause → after = owned.memory) :
    owned.Served pool request reply ⟨after, owned.serial⟩ pool where
  plain := serves _
  alike _ other _ := ⟨other, serves other, id⟩
  blank := id
  whole _ := whole
  accounted others all := by
    have same : NumberedMemory.serials ⟨after, owned.serial⟩ |>.Perm owned.serials :=
      keys.map owned.serial
    exact ((same.append_right others).append_left _).trans all
  refused cause why := by
    obtain rfl := refused cause why
    exact ⟨rfl, rfl, serves⟩

/-- A request for which a page is taken is served with the first page of the pool. -/
theorem Served.grown {owned : NumberedMemory α} {place value : α} {number : Int}
    (wanted : owned.memory.demand? place = some number) (pool : NumberedPool α)
    {after : Memory α}
    (writes : ∀ other : PagePool α, other.take.1 = pool.take.1.page →
      Memory.write place value (owned.memory, other) = .ok () (after, other.take.2))
    (keys : after.pages.keys.Perm (number :: owned.memory.pages.keys))
    (whole : pool.take.1.page.size = pageSize → owned.memory.Whole → after.Whole) :
    owned.Served pool (.write place value) .done
      ⟨after, fun other => if other = number then pool.take.1.serial else owned.serial other⟩
      pool.take.2 := by
  have taken : pool.plain.take = (pool.take.1.page, pool.take.2.plain) := pool.take_plain
  have first (blank : pool.plain.Blank) : pool.take.1.page = Page.blank := by
    have clean := blank.take.1
    rw [taken] at clean
    exact clean
  constructor
  case plain => simp only [Memory.serve, writes pool.plain (congrArg Prod.fst taken), taken]
  case alike =>
    intro blank other clean
    refine ⟨other.take.2, ?_, ?_⟩
    · simp only [Memory.serve, writes other (clean.take.1.trans (first blank).symm)]
    · rintro rfl
      rfl
  case blank =>
    intro blank
    have others := blank.take.2
    rw [taken] at others
    exact others
  case whole =>
    intro blank
    exact whole (by rw [first blank]; exact Array.size_replicate)
  case accounted =>
    intro others all
    -- No page that the owner had before is renumbered.
    have unlisted : number ∉ owned.memory.pages.keys := by
      have distinct := keys.nodup_iff.mp Std.TreeMap.nodup_keys
      exact (List.nodup_cons.mp distinct).1
    have kept : ∀ other ∈ owned.memory.pages.keys,
        (if other = number then pool.take.1.serial else owned.serial other) =
          owned.serial other := by
      intro other member
      rw [if_neg]
      rintro rfl
      exact unlisted member
    have moved := serials_perm ⟨after, fun other =>
      if other = number then pool.take.1.serial else owned.serial other⟩ [number] keys kept
    simp only [List.map_cons, List.map_nil, if_true, List.singleton_append] at moved
    exact ((moved.append_right others).append_left _).trans (NumberedPool.take_accounted all)
  case refused => nofun

/-- Every request is served so. -/
theorem serve_spec (owned : NumberedMemory α) (pool : NumberedPool α) (request : Request α) :
    ∃ reply changed rest, owned.serve pool request = (reply, changed, rest) ∧
      owned.Served pool request reply changed rest := by
  cases request with
  | read place => exact ⟨_, _, _, rfl, .kept pool (fun _ => rfl) (.refl _) id fun _ _ => rfl⟩
  | write place value =>
    cases wanted : owned.memory.demand? place with
    | none =>
      rcases Memory.write_of_none wanted value with ⟨after, writes, keys, whole⟩ | ⟨cause, fails⟩
      · refine ⟨.done, ⟨after, owned.serial⟩, pool, ?_, .kept pool ?_ keys whole nofun⟩
        · simp only [serve, supply, Request.demand?, wanted, Memory.serve, writes]
        · intro other
          simp only [Memory.serve, writes]
      · refine ⟨.refused cause, owned, pool, ?_,
          .kept pool ?_ (.refl _) id fun _ _ => rfl⟩
        · simp only [serve, supply, Request.demand?, wanted, Memory.serve, fails]
        · intro other
          simp only [Memory.serve, fails]
    | some number =>
      obtain ⟨after, writes, keys, whole⟩ :=
        Memory.write_of_some wanted pool.take.1.page value
      refine ⟨_, _, _, ?_, .grown wanted pool writes keys whole⟩
      simp only [serve, supply, Request.demand?, wanted, Memory.serve,
        writes ⟨[pool.take.1.page]⟩ rfl]

/-- Without the numbers, pages are given back as the memory gives them back. -/
theorem release_plain (owned : NumberedMemory α) (pool : NumberedPool α) :
    (owned.release pool).plain = owned.memory.release pool.plain := by
  rw [release, Memory.release]
  induction owned.memory.pages.toList generalizing pool with
  | nil => rfl
  | cons entry rest inductionHypothesis => exact inductionHypothesis _

/-- Giving back passes the numbers on to the pool and creates no page. -/
theorem release_serials (owned : NumberedMemory α) (pool : NumberedPool α) :
    (owned.release pool).serials.Perm (pool.serials ++ owned.serials) ∧
      (owned.release pool).created = pool.created := by
  rw [release, serials, ← Std.TreeMap.map_fst_toList_eq_keys]
  induction owned.memory.pages.toList generalizing pool with
  | nil => simp [NumberedPool.serials]
  | cons entry rest inductionHypothesis =>
    obtain ⟨moved, same⟩ := inductionHypothesis (pool.give ⟨owned.serial entry.1, entry.2⟩)
    exact ⟨moved.trans List.perm_middle.symm, same⟩

end NumberedMemory

/-- One of those who share a pool. -/
structure Owner (α : Type) where
  limit : Nat
  /-- The memory, until it is dropped. -/
  memory : Option (NumberedMemory α)
  /-- All requests with their answers. -/
  log : List (Request α × Reply α)

namespace Owner

/-- The numbers of the pages that the owner holds. -/
def serials (owner : Owner α) : List Nat :=
  match owner.memory with
  | some owned => owned.serials
  | none => []

def pagesInUse (owner : Owner α) : Nat :=
  match owner.memory with
  | some owned => owned.memory.pagesInUse
  | none => 0

def requests (owner : Owner α) : List (Request α) := owner.log.map (·.1)

def replies (owner : Owner α) : List (Reply α) := owner.log.map (·.2)

theorem serials_length (owner : Owner α) : owner.serials.length = owner.pagesInUse := by
  rw [serials, pagesInUse]
  split
  · rename_i owned _
    exact owned.serials_length
  · rfl

end Owner

/-- What happens to memories that share a pool. -/
inductive SharingEvent (α : Type) where
  | opened (limit : Nat)
  /-- The memory that was opened as the given one is asked. -/
  | asked (index : Nat) (request : Request α)
  | dropped (index : Nat)

namespace SharingEvent

def limit? : SharingEvent α → Option Nat
  | opened limit => some limit
  | asked _ _ | dropped _ => none

/-- The request, if it is one to the given memory. -/
def request? (index : Nat) : SharingEvent α → Option (Request α)
  | asked other request => if other = index then some request else none
  | opened _ | dropped _ => none

end SharingEvent

/-- Memories that share a pool, in the order in which they were opened. -/
structure Sharing (α : Type) where
  pool : NumberedPool α := .empty
  owners : List (Owner α) := []

namespace Sharing

/-- The numbers of all pages, once for each place where they are held. -/
def held (sharing : Sharing α) : List Nat :=
  sharing.pool.serials ++ sharing.owners.flatMap Owner.serials

/-- How many pages the memories hold. -/
def inUse (sharing : Sharing α) : Nat :=
  sharing.owners.foldr (fun owner count => owner.pagesInUse + count) 0

/-- The numbers that one owner holds stand apart from all others. -/
theorem held_divided (pool : NumberedPool α) (before others : List (Owner α)) (owner : Owner α) :
    (Sharing.mk pool (before ++ owner :: others)).held.Perm
      (pool.serials ++ (owner.serials ++ (before ++ others).flatMap Owner.serials)) := by
  simp only [held, List.flatMap_append, List.flatMap_cons, ← List.append_assoc]
  exact (List.Perm.append_right _ (by
    rw [List.append_assoc, List.append_assoc]
    exact List.perm_append_comm.append_left _))

/-- All owners together hold as many numbers as pages. -/
theorem flat_length (owners : List (Owner α)) : (owners.flatMap Owner.serials).length =
    owners.foldr (fun owner count => owner.pagesInUse + count) 0 := by
  induction owners with
  | nil => rfl
  | cons owner rest inductionHypothesis =>
    rw [List.flatMap_cons, List.length_append, inductionHypothesis, owner.serials_length]
    rfl

/-- If every page is held once, the pages that are held are as many as were created. -/
theorem held_accounted {sharing : Sharing α}
    (once : sharing.held.Perm (List.range sharing.pool.created)) :
    sharing.pool.plain.size + sharing.inUse = sharing.pool.created := by
  have lengths := once.length_eq
  rw [held, List.length_append, flat_length, List.length_range] at lengths
  rw [← lengths, PagePool.size, NumberedPool.plain, NumberedPool.serials, List.length_map,
    List.length_map, inUse]

/-- An element of a list that is found by its position divides the list, and can be replaced. -/
theorem divided_at {β : Type} {list : List β} {index : Nat} {found : β}
    (present : list[index]? = some found) :
    ∃ before others, list = before ++ found :: others ∧ before.length = index ∧
      ∀ other, list.set index other = before ++ other :: others := by
  induction list generalizing index with
  | nil => cases present
  | cons first rest inductionHypothesis =>
    cases index with
    | zero =>
      obtain rfl := Option.some.inj present
      exact ⟨[], rest, rfl, rfl, fun _ => rfl⟩
    | succ index =>
      obtain ⟨before, others, rfl, rfl, sets⟩ := inductionHypothesis present
      exact ⟨first :: before, others, rfl, rfl, fun other => congrArg (first :: ·) (sets other)⟩

/-- Replacing one element of a list leaves the others in their positions. -/
theorem found_elsewhere {β : Type} (before others : List β) (old new : β) {index : Nat}
    (elsewhere : index ≠ before.length) :
    (before ++ new :: others)[index]? = (before ++ old :: others)[index]? := by
  induction before generalizing index with
  | nil =>
    cases index with
    | zero => exact absurd rfl elsewhere
    | succ index => rfl
  | cons first before inductionHypothesis =>
    cases index with
    | zero => rfl
    | succ index => exact inductionHypothesis fun same => elsewhere (congrArg (· + 1) same)

variable [Number α]

/-- What an event leads to. A memory that was not opened, or was dropped, has no events. -/
def step (sharing : Sharing α) : SharingEvent α → Option (Sharing α)
  | .opened limit =>
    some { sharing with
      owners := sharing.owners ++ [⟨limit, some ⟨Memory.empty limit, fun _ => 0⟩, []⟩] }
  | .asked index request =>
    match sharing.owners[index]? with
    | some ⟨limit, some owned, log⟩ =>
      let (reply, changed, pool) := owned.serve sharing.pool request
      some ⟨pool, sharing.owners.set index ⟨limit, some changed, log ++ [(request, reply)]⟩⟩
    | _ => none
  | .dropped index =>
    match sharing.owners[index]? with
    | some ⟨limit, some owned, log⟩ =>
      some ⟨owned.release sharing.pool, sharing.owners.set index ⟨limit, none, log⟩⟩
    | _ => none

/-- What several events lead to. -/
def run : List (SharingEvent α) → Sharing α → Option (Sharing α)
  | [], sharing => some sharing
  | event :: rest, sharing => (sharing.step event).bind (run rest)

/-- What one event leads to, by what the event is. -/
theorem step_cases {sharing after : Sharing α} {event : SharingEvent α}
    (steps : sharing.step event = some after) :
    (∃ limit, event = .opened limit ∧ after = { sharing with
      owners := sharing.owners ++ [⟨limit, some ⟨Memory.empty limit, fun _ => 0⟩, []⟩] }) ∨
    ∃ index limit owned log before others,
      sharing.owners = before ++ ⟨limit, some owned, log⟩ :: others ∧ before.length = index ∧
      ((∃ request reply changed pool, event = .asked index request ∧
          owned.Served sharing.pool request reply changed pool ∧
          after = ⟨pool, before ++ ⟨limit, some changed, log ++ [(request, reply)]⟩ :: others⟩) ∨
        (event = .dropped index ∧
          after = ⟨owned.release sharing.pool, before ++ ⟨limit, none, log⟩ :: others⟩)) := by
  cases event with
  | opened limit => exact .inl ⟨limit, rfl, (Option.some.inj steps).symm⟩
  | asked index request =>
    simp only [step] at steps
    split at steps
    · rename_i limit owned log found
      obtain ⟨before, others, divided, position, sets⟩ := divided_at found
      obtain ⟨reply, changed, pool, serves, served⟩ := owned.serve_spec sharing.pool request
      rw [serves, sets] at steps
      exact .inr ⟨index, limit, owned, log, before, others, divided, position,
        .inl ⟨request, reply, changed, pool, rfl, served, (Option.some.inj steps).symm⟩⟩
    · cases steps
  | dropped index =>
    simp only [step] at steps
    split at steps
    · rename_i limit owned log found
      obtain ⟨before, others, divided, position, sets⟩ := divided_at found
      rw [sets] at steps
      exact .inr ⟨index, limit, owned, log, before, others, divided, position,
        .inr ⟨rfl, (Option.some.inj steps).symm⟩⟩
    · cases steps

/-- What holds after every sequence of events. -/
structure Invariant (sharing : Sharing α) (past : List (SharingEvent α)) : Prop where
  limits : sharing.owners.map (·.limit) = past.filterMap SharingEvent.limit?
  requests : ∀ index, past.filterMap (SharingEvent.request? index) =
    (sharing.owners[index]?.map Owner.requests).getD []
  /-- Every memory is the one that it would be alone. -/
  alone : ∀ owner ∈ sharing.owners, ∃ memory,
    Memory.alone owner.limit owner.requests = (owner.replies, memory, .empty) ∧
      ∀ owned, owner.memory = some owned → owned.memory = memory ∧ memory.Whole
  blank : sharing.pool.plain.Blank
  once : sharing.held.Perm (List.range sharing.pool.created)

/-- Nothing has happened yet. -/
theorem invariant_empty : Invariant ({} : Sharing α) [] where
  limits := rfl
  requests _ := rfl
  alone := nofun
  blank := nofun
  once := .refl _

/-- A memory that is opened leaves the others alone. -/
theorem Invariant.opened {sharing : Sharing α} {past : List (SharingEvent α)}
    (invariant : sharing.Invariant past) (limit : Nat) :
    Invariant { sharing with
      owners := sharing.owners ++ [⟨limit, some ⟨Memory.empty limit, fun _ => 0⟩, []⟩] }
      (past ++ [.opened limit]) where
  limits := by
    simp [invariant.limits, SharingEvent.limit?]
  requests index := by
    have before := invariant.requests index
    rw [List.filterMap_append, before]
    rcases Nat.lt_trichotomy index sharing.owners.length with earlier | rfl | later
    · simp [SharingEvent.request?, List.getElem?_append_left earlier]
    · simp [SharingEvent.request?, Owner.requests]
    · simp [SharingEvent.request?, List.getElem?_append_right (Nat.le_of_lt later),
        List.getElem?_eq_none (Nat.le_of_lt later), Nat.sub_ne_zero_of_lt later]
  alone owner member := by
    rcases List.mem_append.mp member with old | new
    · exact invariant.alone owner old
    · rw [List.mem_singleton] at new
      subst new
      refine ⟨Memory.empty limit, rfl, ?_⟩
      rintro owned opened
      obtain rfl := Option.some.inj opened
      exact ⟨rfl, Memory.whole_empty limit⟩
  blank := invariant.blank
  once := by
    have same : NumberedMemory.serials (⟨Memory.empty limit, fun _ => 0⟩ : NumberedMemory α) = [] :=
      rfl
    simpa [held, Owner.serials, same] using invariant.once

section Replacement

variable {pool : NumberedPool α} {before others : List (Owner α)} {limit : Nat}
  {owned : NumberedMemory α} {log : List (Request α × Reply α)} {past : List (SharingEvent α)}

/-- A memory that is asked answers as if it were alone, and leaves the others alone. -/
theorem Invariant.asked
    (invariant : Invariant ⟨pool, before ++ ⟨limit, some owned, log⟩ :: others⟩ past)
    {request : Request α} {reply : Reply α} {changed : NumberedMemory α} {rest : NumberedPool α}
    (served : owned.Served pool request reply changed rest) :
    Invariant ⟨rest, before ++ ⟨limit, some changed, log ++ [(request, reply)]⟩ :: others⟩
      (past ++ [.asked before.length request]) where
  limits := by
    have same := invariant.limits
    simp only [List.map_append, List.map_cons] at same
    simp [← same, SharingEvent.limit?]
  requests index := by
    have same := invariant.requests index
    rw [List.filterMap_append, same]
    by_cases here : index = before.length
    · subst here
      simp [SharingEvent.request?, Owner.requests]
    · rw [found_elsewhere before others ⟨limit, some owned, log⟩
        ⟨limit, some changed, log ++ [(request, reply)]⟩ here]
      simp [SharingEvent.request?, Ne.symm here]
  alone owner member := by
    rcases List.mem_append.mp member with first | later
    · exact invariant.alone owner (List.mem_append_left _ first)
    rcases List.mem_cons.mp later with rfl | last
    · obtain ⟨memory, answered, current⟩ := invariant.alone ⟨limit, some owned, log⟩ (by simp)
      obtain ⟨rfl, whole⟩ := current owned rfl
      obtain ⟨left, serves, empty⟩ := served.alike invariant.blank .empty PagePool.blank_empty
      refine ⟨changed.memory, ?_, ?_⟩
      · simp only [Memory.alone, Owner.requests, Owner.replies] at answered ⊢
        simp only [List.map_append, List.map_cons, List.map_nil, Memory.serve_all_snoc, answered,
          serves, empty rfl]
      · rintro _ same
        obtain rfl := Option.some.inj same
        exact ⟨rfl, served.whole invariant.blank whole⟩
    · exact invariant.alone owner (List.mem_append_right _ (List.mem_cons_of_mem _ last))
  blank := served.blank invariant.blank
  once :=
    (held_divided ..).trans
      (served.accounted _ ((held_divided ..).symm.trans invariant.once))

/-- A memory that is dropped returns its pages and leaves the others alone. -/
theorem Invariant.dropped
    (invariant : Invariant ⟨pool, before ++ ⟨limit, some owned, log⟩ :: others⟩ past) :
    Invariant ⟨owned.release pool, before ++ ⟨limit, none, log⟩ :: others⟩
      (past ++ [.dropped before.length]) where
  limits := by
    have same := invariant.limits
    simp only [List.map_append, List.map_cons] at same
    simp [← same, SharingEvent.limit?]
  requests index := by
    have same := invariant.requests index
    rw [List.filterMap_append, same]
    by_cases here : index = before.length
    · subst here
      simp [SharingEvent.request?, Owner.requests]
    · rw [found_elsewhere before others ⟨limit, some owned, log⟩ ⟨limit, none, log⟩ here]
      simp [SharingEvent.request?]
  alone owner member := by
    rcases List.mem_append.mp member with first | later
    · exact invariant.alone owner (List.mem_append_left _ first)
    rcases List.mem_cons.mp later with rfl | last
    · obtain ⟨memory, answered, _⟩ := invariant.alone ⟨limit, some owned, log⟩ (by simp)
      exact ⟨memory, answered, nofun⟩
    · exact invariant.alone owner (List.mem_append_right _ (List.mem_cons_of_mem _ last))
  blank := by
    obtain ⟨memory, _, current⟩ := invariant.alone ⟨limit, some owned, log⟩ (by simp)
    obtain ⟨rfl, whole⟩ := current owned rfl
    rw [owned.release_plain]
    exact whole.release invariant.blank
  once := by
    obtain ⟨moved, same⟩ := owned.release_serials pool
    have passed : (pool.serials ++ (owned.serials ++ (before ++ others).flatMap Owner.serials)).Perm
        (List.range pool.created) :=
      (held_divided pool before others ⟨limit, some owned, log⟩).symm.trans invariant.once
    rw [← List.append_assoc] at passed
    refine (held_divided ..).trans ?_
    rw [same]
    exact (moved.append_right _).trans passed

end Replacement

/-- Every event preserves the invariant. -/
theorem Invariant.step {sharing after : Sharing α} {past : List (SharingEvent α)}
    (invariant : sharing.Invariant past) {event : SharingEvent α}
    (steps : sharing.step event = some after) : after.Invariant (past ++ [event]) := by
  rcases step_cases steps with ⟨limit, rfl, rfl⟩ |
    ⟨_, limit, owned, log, before, others, divided, rfl, happened⟩
  · exact invariant.opened limit
  · obtain ⟨pool, owners⟩ := sharing
    subst divided
    rcases happened with ⟨request, reply, changed, rest, rfl, served, rfl⟩ | ⟨rfl, rfl⟩
    · exact invariant.asked served
    · exact invariant.dropped

/-- Every sequence of events preserves the invariant. -/
theorem Invariant.run {events past : List (SharingEvent α)} {sharing after : Sharing α}
    (invariant : sharing.Invariant past) (ran : Sharing.run events sharing = some after) :
    after.Invariant (past ++ events) := by
  induction events generalizing sharing past with
  | nil =>
    obtain rfl := Option.some.inj ran
    rwa [List.append_nil]
  | cons event rest inductionHypothesis =>
    obtain ⟨next, steps, goesOn⟩ := Option.bind_eq_some_iff.mp ran
    have reached := inductionHypothesis (invariant.step steps) goesOn
    rwa [List.append_assoc] at reached

/-- What memories that share a pool have in common with memories that do not, after given events. -/
structure Isolated (sharing : Sharing α) (events : List (SharingEvent α)) : Prop where
  limits : sharing.owners.map (·.limit) = events.filterMap SharingEvent.limit?
  requests : ∀ (index : Nat) (owner : Owner α), sharing.owners[index]? = some owner →
    owner.requests = events.filterMap (SharingEvent.request? index)
  /-- Every memory has answered as it answers with a pool of its own. -/
  replies : ∀ owner ∈ sharing.owners,
    owner.replies = (Memory.alone owner.limit owner.requests).1
  blank : ∀ page ∈ sharing.pool.plain.pages,
    page.size = pageSize ∧ ∀ cell ∈ page, cell = Number.zero
  /-- No page is held in two places. -/
  once : sharing.held.Nodup
  /-- No page is lost. -/
  accounted : sharing.pool.plain.size + sharing.inUse = sharing.pool.created

/-- What can happen to a memory that was not dropped. -/
structure Available (sharing : Sharing α) (index : Nat) (owner : Owner α)
    (owned : NumberedMemory α) : Prop where
  /-- It serves every request, with the pool as it is without the numbers. A request that it
  refuses leaves everything as it was, and would leave any other pool as it was. -/
  asked : ∀ request, ∃ reply changed rest,
    sharing.step (.asked index request) = some ⟨rest, sharing.owners.set index
      ⟨owner.limit, some changed, owner.log ++ [(request, reply)]⟩⟩ ∧
    owned.memory.serve sharing.pool.plain request = (reply, changed.memory, rest.plain) ∧
    ∀ cause, reply = .refused cause → changed = owned ∧ rest = sharing.pool ∧
      ∀ other : PagePool α, owned.memory.serve other request = (reply, owned.memory, other)
  /-- When it is dropped, the pool gets all its pages. -/
  dropped : ∃ rest,
    sharing.step (.dropped index) =
      some ⟨rest, sharing.owners.set index ⟨owner.limit, none, owner.log⟩⟩ ∧
    rest.plain = owned.memory.release sharing.pool.plain ∧
    rest.plain.size = sharing.pool.plain.size + owned.memory.pagesInUse

/-- Whoever was not dropped is available. -/
theorem available {sharing : Sharing α} {index : Nat} {owner : Owner α}
    {owned : NumberedMemory α} (present : sharing.owners[index]? = some owner)
    (live : owner.memory = some owned) : sharing.Available index owner owned := by
  obtain ⟨limit, memory, log⟩ := owner
  subst live
  constructor
  · intro request
    obtain ⟨reply, changed, rest, serves, served⟩ := owned.serve_spec sharing.pool request
    refine ⟨reply, changed, rest, ?_, served.plain, served.refused⟩
    simp only [step, present, serves]
  · refine ⟨owned.release sharing.pool, ?_, owned.release_plain _, ?_⟩
    · simp only [step, present]
    · rw [owned.release_plain, PagePool.size, Memory.release_pages, List.length_append,
        List.length_reverse, List.length_map, Std.TreeMap.length_toList, Nat.add_comm]
      rfl

/-- However the requests to any number of memories over one pool and their drops follow each other,
each memory answers as if it were alone with a new pool, every page of the pool is blank and of the
full size, no page has two owners, and the pages in the pool and in the memories that were not
dropped are all that were ever created. Dropping a memory adds exactly its pages to the pool, also
after a write was refused, because that changes nothing. -/
theorem shared_pool_isolates {events : List (SharingEvent α)} {sharing : Sharing α}
    (ran : Sharing.run events {} = some sharing) :
    sharing.Isolated events ∧
      ∀ (index : Nat) (owner : Owner α) (owned : NumberedMemory α),
        sharing.owners[index]? = some owner → owner.memory = some owned →
        sharing.Available index owner owned := by
  have invariant := invariant_empty.run ran
  rw [List.nil_append] at invariant
  refine ⟨⟨invariant.limits, ?_, ?_, ?_, ?_, held_accounted invariant.once⟩,
    fun _ _ _ => available⟩
  · intro index owner present
    rw [invariant.requests, present]
    rfl
  · intro owner member
    obtain ⟨memory, answered, _⟩ := invariant.alone owner member
    rw [answered]
  · intro page member
    rw [invariant.blank page member]
    exact ⟨Array.size_replicate, fun cell held => Array.eq_of_mem_replicate held⟩
  · exact invariant.once.nodup_iff.mpr List.nodup_range

/-- Two memories write pages until one is refused a page and dropped; a third one takes over what
was given back. -/
def takeover : List (SharingEvent Float) :=
  [.opened 2, .opened 1, .asked 0 (.write 5.0 9.0), .asked 1 (.write 5000.0 1.0),
    .asked 1 (.write 9000.0 2.0), .dropped 1, .opened 3, .asked 2 (.write 9001.0 7.0),
    .asked 2 (.read 904.0), .asked 0 (.read 5.0), .asked 0 (.write (-1.0) 1.0)]

/-- In a takeover two pages are created. Afterwards the pool is empty, and both memories that are
left hold one page. -/
theorem takeover_isolates : ∃ sharing, Sharing.run takeover {} = some sharing ∧
    sharing.pool.created = 2 ∧ sharing.held.Nodup ∧
    sharing.pool.plain.size + sharing.inUse = 2 ∧
    ∀ owner ∈ sharing.owners, owner.replies = (Memory.alone owner.limit owner.requests).1 := by
  have created : (Sharing.run takeover {}).map (·.pool.created) = some 2 := by decide +kernel
  obtain ⟨sharing, ran, two⟩ := Option.map_eq_some_iff.mp created
  have isolated := (shared_pool_isolates ran).1
  exact ⟨sharing, ran, two, isolated.once, isolated.accounted.trans two, isolated.replies⟩

end Sharing

end ProgramSearch
