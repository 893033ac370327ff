import ProgramSearch.Proofs.Memory.Demand

/-!
# Processes that share a pool

A process is what one thread does: steps of its own, and taking pages from a pool and giving pages
back. The pool is shared with others, who may change it between any two steps. Several pages that
are given back together go one by one, in any order.

As long as the pool hands out blank pages, it does not matter to a process what the others do: it
settles on a value after a number of steps that is known beforehand.
-/

namespace ProgramSearch

/-- What a thread does until it has a value. -/
inductive Process (α β : Type) where
  | done (value : β)
  /-- A step that nobody else can notice. -/
  | pause (next : Process α β)
  | take (next : Page α → Process α β)
  | give (pages : List (Page α)) (next : Process α β)

namespace Process

variable {α β γ : Type}

/-- Go on with the value. -/
def bind (next : β → Process α γ) : Process α β → Process α γ
  | done value => next value
  | pause rest => pause (rest.bind next)
  | take rest => take fun page => (rest page).bind next
  | give pages rest => give pages (rest.bind next)

variable [Number α]

/-- One step of a process, with the pool before and after it. -/
inductive Step : Process α β → PagePool α → Process α β → PagePool α → Prop
  | pause (next : Process α β) (pool : PagePool α) : Step (.pause next) pool next pool
  | take (next : Page α → Process α β) (pool : PagePool α) :
      Step (.take next) pool (next pool.take.1) pool.take.2
  /-- Any of the pages may be the next one. -/
  | give (before after : List (Page α)) (page : Page α) (next : Process α β) (pool : PagePool α) :
      Step (.give (before ++ page :: after) next) pool (.give (before ++ after) next)
        (pool.give page)
  | given (next : Process α β) (pool : PagePool α) : Step (.give [] next) pool next pool

/-- The number of steps after which a process has a value, and that value, if all pages that it
takes are blank. It gives back pages of the full size only. -/
inductive Settles : Process α β → Nat → β → Prop
  | done (value : β) : Settles (.done value) 0 value
  | pause {next : Process α β} {count : Nat} {value : β} :
      Settles next count value → Settles (.pause next) (count + 1) value
  | take {next : Page α → Process α β} {count : Nat} {value : β} :
      Settles (next Page.blank) count value → Settles (.take next) (count + 1) value
  | give {pages : List (Page α)} {next : Process α β} {count : Nat} {value : β} :
      (∀ page ∈ pages, page.size = pageSize) → Settles next count value →
        Settles (.give pages next) (count + pages.length + 1) value

/-- A process settles on a value, after some number of steps. -/
def Yields (process : Process α β) (value : β) : Prop := ∃ count, process.Settles count value

/-- Processes yield values, each its own. -/
inductive AllYield : List (Process α β) → List β → Prop
  | nil : AllYield [] []
  | cons {process : Process α β} {value : β} {processes : List (Process α β)} {values : List β} :
      process.Yields value → AllYield processes values →
        AllYield (process :: processes) (value :: values)

section Rules

variable {process after : Process α β} {pool rest : PagePool α} {count : Nat} {value : β}

/-- Every step brings a process closer to its value, and leaves the pool blank. -/
theorem Settles.step (settles : process.Settles count value) (blank : pool.Blank)
    (steps : process.Step pool after rest) :
    ∃ fewer, count = fewer + 1 ∧ after.Settles fewer value ∧ rest.Blank := by
  cases steps with
  | pause =>
    cases settles with
    | pause settles => exact ⟨_, rfl, settles, blank⟩
  | take next =>
    cases settles with
    | take settles =>
      rw [blank.take.1]
      exact ⟨_, rfl, settles, blank.take.2⟩
  | give before others page next =>
    cases settles with
    | give whole settles =>
      have fewer : ∀ other ∈ before ++ others, other.size = pageSize := by
        intro other member
        apply whole
        rcases List.mem_append.mp member with first | last
        · exact List.mem_append_left _ first
        · exact List.mem_append_right _ (List.mem_cons_of_mem page last)
      refine ⟨_, ?_, .give fewer settles, ?_⟩
      · simp only [List.length_append, List.length_cons]
        omega
      · intro other member
        rcases List.mem_cons.mp member with rfl | kept
        · exact Page.clear_blank (whole page (by simp))
        · exact blank other kept
  | given =>
    cases settles with
    | give _ settles => exact ⟨_, rfl, settles, blank⟩

/-- A process that has no value yet can take a step. -/
theorem Settles.progress (settles : process.Settles count value) (pool : PagePool α) :
    process = .done value ∨ ∃ after rest, process.Step pool after rest := by
  cases settles with
  | done => exact .inl rfl
  | pause => exact .inr ⟨_, _, .pause _ _⟩
  | take => exact .inr ⟨_, _, .take _ _⟩
  | @give pages =>
    cases pages with
    | nil => exact .inr ⟨_, _, .given _ _⟩
    | cons page others => exact .inr ⟨_, _, .give [] others page _ _⟩

/-- What follows a process starts with its value. -/
theorem Settles.bind {next : β → Process α γ} {more : Nat} {final : γ}
    (settles : process.Settles count value) (goesOn : (next value).Settles more final) :
    (process.bind next).Settles (count + more) final := by
  induction settles with
  | done => rwa [Nat.zero_add]
  | pause _ inductionHypothesis =>
    rw [Nat.add_right_comm]
    exact .pause (inductionHypothesis goesOn)
  | take _ inductionHypothesis =>
    rw [Nat.add_right_comm]
    exact .take (inductionHypothesis goesOn)
  | give whole _ inductionHypothesis =>
    rw [Nat.add_right_comm, Nat.add_right_comm _ _ more]
    exact .give whole (inductionHypothesis goesOn)

theorem Yields.done (value : β) : (Process.done value : Process α β).Yields value :=
  ⟨0, .done value⟩

theorem Yields.bind {next : β → Process α γ} {final : γ} (yields : process.Yields value)
    (goesOn : (next value).Yields final) : (process.bind next).Yields final := by
  obtain ⟨_, first⟩ := yields
  obtain ⟨_, second⟩ := goesOn
  exact ⟨_, first.bind second⟩

theorem AllYield.map {ι : Type} {process : ι → Process α β} {value : ι → β}
    (yields : ∀ item, (process item).Yields (value item)) (items : List ι) :
    AllYield (items.map process) (items.map value) := by
  induction items with
  | nil => exact .nil
  | cons item rest inductionHypothesis => exact .cons (yields item) inductionHypothesis

end Rules

end Process

/-- A computation with a state that shares a pool with others. It has the outcomes of one that does
not. -/
def Shared (α ε σ β : Type) : Type := σ → Process α (EStateM.Result ε σ β)

namespace Shared

variable {α ε σ β γ : Type}

instance : Monad (Shared α ε σ) where
  pure value := fun state => .done (.ok value state)
  bind first next := fun state =>
    (first state).bind fun
      | .ok value state => next value state
      | .error failure state => .done (.error failure state)

/-- What is done without the pool is done in one step. -/
def lift (request : EStateM ε σ β) : Shared α ε σ β := fun state => .pause (.done (request state))

/-- A process that leaves the state alone. -/
def ofProcess (process : Process α β) : Shared α ε σ β := fun state =>
  process.bind fun value => .done (.ok value state)

/-- The state that a computation leaves, also when it fails. -/
def stateAfter : EStateM.Result ε σ β → σ
  | .ok _ state | .error _ state => state

variable [Number α]

/-- In states that are allowed, sharing the pool comes to the same as not sharing it, and the state
afterwards is allowed as well. -/
def Follows (allowed : σ → Prop) (shared : Shared α ε σ β) (plain : EStateM ε σ β) : Prop :=
  ∀ state, allowed state → (shared state).Yields (plain state) ∧ allowed (stateAfter (plain state))

namespace Follows

variable {allowed : σ → Prop} {shared : Shared α ε σ β} {plain : EStateM ε σ β}

theorem pure (value : β) :
    Follows allowed (Pure.pure value : Shared α ε σ β) (Pure.pure value) :=
  fun _ allows => ⟨.done _, allows⟩

/-- What is done without the pool comes to the same, if it keeps to the allowed states. -/
theorem lift (keeps : ∀ state, allowed state → allowed (stateAfter (plain state))) :
    Follows allowed (Shared.lift plain : Shared α ε σ β) plain :=
  fun state allows => ⟨⟨1, .pause (.done _)⟩, keeps state allows⟩

theorem ofProcess {process : Process α β} {value : β} (yields : process.Yields value) :
    Follows allowed (Shared.ofProcess process : Shared α ε σ β) (Pure.pure value) :=
  fun _ allows => ⟨yields.bind (.done _), allows⟩

/-- A sequence comes to the same if its parts do. -/
theorem bind {next : β → Shared α ε σ γ} {plainNext : β → EStateM ε σ γ}
    (first : Follows allowed shared plain)
    (second : ∀ value, Follows allowed (next value) (plainNext value)) :
    Follows allowed (shared >>= next) (plain >>= plainNext) := by
  intro state allows
  obtain ⟨yields, keeps⟩ := first state allows
  change Process.Yields ((shared state).bind _) (EStateM.bind plain plainNext state) ∧
    allowed (stateAfter (EStateM.bind plain plainNext state))
  unfold EStateM.bind
  cases ran : plain state with
  | ok value after =>
    rw [ran] at yields keeps
    obtain ⟨goesOn, keepsOn⟩ := second value after keeps
    exact ⟨yields.bind goesOn, keepsOn⟩
  | error failure after =>
    rw [ran] at yields keeps
    exact ⟨yields.bind (.done _), keeps⟩

end Follows

end Shared

end ProgramSearch
