import ProgramSearch.Proofs.Memory.Cells
import ProgramSearch.Proofs.Tree.Safety

/-!
# What control trees mean

The meaning of a tree is a relation between what it starts from and how it ends. It knows variables,
memory cells and the number of loop iterations that were started, and nothing of numbering, fuel,
pages, scratch space or profiles. A basic block replaces all variables at once; its effect on them is
a parameter. A statement that is stopped stops everything around it.

A tree ends in exactly one way. The iterations that are started never exceed the budget, whichever
loops they belong to.
-/

namespace ProgramSearch

variable {α : Type}

/-- What a tree works on. -/
structure Store (α : Type) where
  values : Array α
  cells : Cells α
  /-- How many iterations were started, over all loops together. -/
  started : Nat

/-- How an execution ends. -/
inductive Ending (α : Type) where
  | finished (store : Store α)
  | stopped (cause : Signal) (started : Nat)

/-- How many iterations were started before the end. -/
def Ending.started : Ending α → Nat
  | finished store => store.started
  | stopped _ started => started

namespace Store

/-- The store when one more iteration is started. -/
def iterate (store : Store α) : Store α := { store with started := store.started + 1 }

variable [Number α]

/-- The value of a variable. -/
def value (store : Store α) (index : UInt16) : α := store.values.getD index.toNat Number.zero

/-- Whether the variable lets a loop go on. -/
def continues (store : Store α) (condition : UInt16) : Bool :=
  Number.positive (store.value condition)

/-- The store after a variable was replaced by the cell that it addresses. -/
def load (store : Store α) (target : UInt16) : Store α :=
  { store with
    values := store.values.setIfInBounds target.toNat (store.cells.read (store.value target)) }

/-- The cells after a variable was written to the cell that another addresses. -/
def save (store : Store α) (limit : Nat) (address value : UInt16) : Except Signal (Cells α) :=
  store.cells.write limit (store.value address) (store.value value)

/-- The store at the start: the arguments come from the inputs as far as these reach, and every
other variable is zero. -/
def initial (config : MachineConfig) (inputs : Array α) : Store α where
  values := Array.ofFn fun index : Fin config.variableCount =>
    if index < config.arguments then inputs.getD index Number.zero else Number.zero
  cells := Cells.blank
  started := 0

end Store

variable [Number α]

/-- The executions of a tree. Every iteration takes one unit of the loop budget when it starts. -/
inductive Executes (config : MachineConfig) (effect : BasicBlock α → Array α → Array α) :
    Tree α → Store α → Ending α → Prop where
  | skip (store : Store α) : Executes config effect .skip store (.finished store)
  | done (store : Store α) : Executes config effect (.block []) store (.finished store)
  | next {tree : Tree α} {rest : List (Tree α)} {store middle : Store α} {ending : Ending α} :
      Executes config effect tree store (.finished middle) →
      Executes config effect (.block rest) middle ending →
        Executes config effect (.block (tree :: rest)) store ending
  | broken {tree : Tree α} {rest : List (Tree α)} {store : Store α} {cause : Signal}
      {started : Nat} :
      Executes config effect tree store (.stopped cause started) →
        Executes config effect (.block (tree :: rest)) store (.stopped cause started)
  | leave {condition : UInt16} {body : Tree α} {store : Store α} :
      store.continues condition = false →
        Executes config effect (.loop condition body) store (.finished store)
  | exhausted {condition : UInt16} {body : Tree α} {store : Store α} :
      store.continues condition = true → config.loopBudget ≤ store.started →
        Executes config effect (.loop condition body) store
          (.stopped .loopBudgetExceeded store.started)
  | iterate {condition : UInt16} {body : Tree α} {store middle : Store α} {ending : Ending α} :
      store.continues condition = true → store.started < config.loopBudget →
      Executes config effect body store.iterate (.finished middle) →
      Executes config effect (.loop condition body) middle ending →
        Executes config effect (.loop condition body) store ending
  | interrupted {condition : UInt16} {body : Tree α} {store : Store α} {cause : Signal}
      {started : Nat} :
      store.continues condition = true → store.started < config.loopBudget →
      Executes config effect body store.iterate (.stopped cause started) →
        Executes config effect (.loop condition body) store (.stopped cause started)
  | read {target : UInt16} {store : Store α} :
      Executes config effect (.read target) store (.finished (store.load target))
  | write {address value : UInt16} {store : Store α} {cells : Cells α} :
      store.save config.maxPages address value = .ok cells →
        Executes config effect (.write address value) store (.finished { store with cells })
  | refused {address value : UInt16} {store : Store α} {cause : Signal} :
      store.save config.maxPages address value = .error cause →
        Executes config effect (.write address value) store (.stopped cause store.started)
  | basic {code : BasicBlock α} {store : Store α} :
      Executes config effect (.basic code) store
        (.finished { store with values := effect code store.values })

namespace Executes

variable {config : MachineConfig} {effect : BasicBlock α → Array α → Array α} {tree : Tree α}
  {store : Store α} {ending other : Ending α}

/-- A tree ends in one way only. -/
theorem deterministic (first : Executes config effect tree store ending)
    (second : Executes config effect tree store other) : ending = other := by
  induction first generalizing other with
  | skip => cases second; rfl
  | done => cases second; rfl
  | next _ _ start rest =>
    cases second with
    | next begun remaining =>
      cases start begun
      exact rest remaining
    | broken begun => cases start begun
  | broken _ start =>
    cases second with
    | next begun _ => cases start begun
    | broken begun => exact start begun
  | leave ends =>
    cases second with
    | leave _ => rfl
    | exhausted continues | iterate continues | interrupted continues =>
      exact absurd (ends.symm.trans continues) Bool.false_ne_true
  | exhausted continues spent =>
    cases second with
    | leave ends => exact absurd (ends.symm.trans continues) Bool.false_ne_true
    | exhausted => rfl
    | iterate _ left | interrupted _ left => omega
  | iterate continues left _ _ body again =>
    cases second with
    | leave ends => exact absurd (ends.symm.trans continues) Bool.false_ne_true
    | exhausted _ spent => omega
    | iterate _ _ inner remaining =>
      cases body inner
      exact again remaining
    | interrupted _ _ inner => cases body inner
  | interrupted continues left _ body =>
    cases second with
    | leave ends => exact absurd (ends.symm.trans continues) Bool.false_ne_true
    | exhausted _ spent => omega
    | iterate _ _ inner _ => cases body inner
    | interrupted _ _ inner => exact body inner
  | read => cases second; rfl
  | write saved =>
    cases second with
    | write again =>
      cases saved.symm.trans again
      rfl
    | refused again => cases saved.symm.trans again
  | refused failed =>
    cases second with
    | write again => cases failed.symm.trans again
    | refused again =>
      cases failed.symm.trans again
      rfl
  | basic => cases second; rfl

/-- Iterations are counted up. -/
theorem started_le (executes : Executes config effect tree store ending) :
    store.started ≤ ending.started := by
  induction executes with
  | skip | done | leave | exhausted | read | write | refused | basic => exact Nat.le_refl _
  | next _ _ first rest => exact Nat.le_trans first rest
  | broken _ inner => exact inner
  | iterate _ _ _ _ body again =>
    exact Nat.le_trans (Nat.le_of_succ_le body) again
  | interrupted _ _ _ body => exact Nat.le_of_succ_le body

/-- No more iterations are started than the budget allows. -/
theorem within_budget (executes : Executes config effect tree store ending)
    (left : store.started ≤ config.loopBudget) : ending.started ≤ config.loopBudget := by
  induction executes with
  | skip | done | leave | exhausted | read | write | refused | basic => exact left
  | next _ _ first rest => exact rest (first left)
  | broken _ inner => exact inner left
  | iterate _ more _ _ body again => exact again (body more)
  | interrupted _ more _ body => exact body more

end Executes

end ProgramSearch
