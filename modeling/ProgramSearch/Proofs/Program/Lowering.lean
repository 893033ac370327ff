import ProgramSearch.Proofs.Program.Unfolding

/-!
# Lowering keeps what operands stand for

Lowering walks over the slots with a table of operands. Taking an operand removes its expression
from the table or leaves its value there; both hand out code that unfolds the slot. Every slot adds
one entry, and a step for each node with a temporary. The walk therefore keeps one invariant: the
entries of the table stand for their slots, the steps fill their temporaries in order, and the
arity is the least number of inputs that covers the arguments met so far.

Nothing here depends on which nodes get temporaries. A wrong choice could only make lowering stop.
-/

namespace ProgramSearch.Program

variable {α : Type}

namespace Lowering

/-- Every entry of a table of operands stands for its own slot. -/
def Table (nodes : Program α) (mode : Mode) (slots : List Nat)
    (operands : Array (Option (Operand α))) : Prop :=
  ∀ (slot : Nat) (operand : Operand α), operands[slot]?.join = some operand →
    operand.Stands nodes mode slots slot

/-- Adding an entry that stands for the next slot keeps the table. -/
theorem table_push {nodes : Program α} {mode : Mode} {slots : List Nat}
    {operands : Array (Option (Operand α))} (table : Table nodes mode slots operands)
    (entry : Option (Operand α))
    (stands : ∀ operand, entry = some operand → operand.Stands nodes mode slots operands.size) :
    Table nodes mode slots (operands.push entry) := by
  intro slot operand found
  rw [Array.getElem?_push] at found
  by_cases last : slot = operands.size
  · subst last
    exact stands operand (by simpa using found)
  · rw [if_neg last] at found
    exact table slot operand found

theorem table_append {nodes : Program α} {mode : Mode} {slots : List Nat}
    {operands : Array (Option (Operand α))} (table : Table nodes mode slots operands)
    (more : List Nat) : Table nodes mode (slots ++ more) operands :=
  fun slot operand found => (table slot operand found).append more

/-- Clearing an entry leaves the others. -/
theorem table_clear {nodes : Program α} {mode : Mode} {slots : List Nat}
    {operands : Array (Option (Operand α))} (table : Table nodes mode slots operands)
    (cleared : Nat) : Table nodes mode slots (operands.setIfInBounds cleared none) := by
  intro slot operand found
  rw [Array.getElem?_setIfInBounds] at found
  by_cases same : cleared = slot
  · by_cases inside : slot < operands.size <;> simp [same, inside] at found
  · exact table slot operand (by simpa [same] using found)

/-- Taking an operand hands out code for its slot and leaves a table that is as good and as long. -/
theorem take_unfolds {nodes : Program α} {mode : Mode} {slots : List Nat}
    {operands rest : Array (Option (Operand α))} {slot : UInt16} {expression : Expression α}
    (table : Table nodes mode slots operands)
    (taken : take operands slot = .ok (expression, rest)) :
    expression.Unfolds nodes mode slots slot.toNat ∧ Table nodes mode slots rest ∧
      rest.size = operands.size := by
  cases found : operands[slot.toNat]?.join with
  | none => simp [take, found] at taken
  | some operand =>
    have stands := table slot.toNat operand found
    cases operand with
    | value leaf =>
      simp only [take, found, Except.ok.injEq, Prod.mk.injEq] at taken
      obtain ⟨rfl, rfl⟩ := taken
      exact ⟨.value stands, table, rfl⟩
    | inline inner =>
      simp only [take, found, Except.ok.injEq, Prod.mk.injEq] at taken
      obtain ⟨rfl, rfl⟩ := taken
      exact ⟨stands, table_clear table slot.toNat, by simp⟩

section Nodes

variable {mode : Mode} {index : Nat} {operands rest : Array (Option (Operand α))}
  {expression : Expression α}

/-- An operator is lowered when its left operand can be taken, and then its right one. -/
theorem lower_binary_iff (op : Operator) (lhs rhs : UInt16) :
    lower mode index operands (.binary op lhs rhs) = .ok (expression, rest) ↔
      ∃ x middle y, take operands lhs = .ok (x, middle) ∧ take middle rhs = .ok (y, rest) ∧
        .binary index (mode.checked && op.isChecked) op x y = expression := by
  simp only [lower, Refusal.bind_ok_iff, Prod.exists]
  constructor
  · rintro ⟨x, middle, left, y, last, right, same⟩
    obtain ⟨rfl, rfl⟩ := Prod.mk.inj (Except.ok.inj same)
    exact ⟨x, middle, y, left, right, rfl⟩
  · rintro ⟨x, middle, y, left, right, rfl⟩
    exact ⟨x, middle, left, y, rest, right, rfl⟩

/-- A choice is lowered when both of its branches can be taken, and its condition after them. -/
theorem lower_conditional_iff (first second cond : UInt16) :
    lower mode index operands (.conditional first second cond) = .ok (expression, rest) ↔
      ∃ x early y late z, take operands first = .ok (x, early) ∧
        take early second = .ok (y, late) ∧ take late cond = .ok (z, rest) ∧
        .conditional index mode.profile x y z = expression := by
  simp only [lower, Refusal.bind_ok_iff, Prod.exists]
  constructor
  · rintro ⟨x, early, tookFirst, y, late, tookSecond, z, last, tookCondition, same⟩
    obtain ⟨rfl, rfl⟩ := Prod.mk.inj (Except.ok.inj same)
    exact ⟨x, early, y, late, z, tookFirst, tookSecond, tookCondition, rfl⟩
  · rintro ⟨x, early, y, late, z, tookFirst, tookSecond, tookCondition, rfl⟩
    exact ⟨x, early, tookFirst, y, late, tookSecond, z, rest, tookCondition, rfl⟩

/-- A guard is lowered when its condition can be taken, and then its branch. -/
theorem lower_guarded_iff (branch cond : UInt16) (taken : Bool) :
    lower mode index operands (.guarded branch cond taken) = .ok (expression, rest) ↔
      ∃ z middle x, take operands cond = .ok (z, middle) ∧ take middle branch = .ok (x, rest) ∧
        .guarded index taken x z = expression := by
  simp only [lower, Refusal.bind_ok_iff, Prod.exists]
  constructor
  · rintro ⟨z, middle, tookCondition, x, last, tookBranch, same⟩
    obtain ⟨rfl, rfl⟩ := Prod.mk.inj (Except.ok.inj same)
    exact ⟨z, middle, x, tookCondition, tookBranch, rfl⟩
  · rintro ⟨z, middle, x, tookCondition, tookBranch, rfl⟩
    exact ⟨z, middle, tookCondition, x, rest, tookBranch, rfl⟩

end Nodes

/-- Lowering a node takes its operands one after another and repeats the node over them. -/
theorem lower_unfolds {nodes : Program α} {mode : Mode} {slots : List Nat} {index : Nat}
    {operands rest : Array (Option (Operand α))} {node : Node α} {expression : Expression α}
    (table : Table nodes mode slots operands) (held : node? nodes index = some node)
    (lowered : lower mode index operands node = .ok (expression, rest)) :
    expression.Unfolds nodes mode slots index ∧ Table nodes mode slots rest ∧
      rest.size = operands.size := by
  cases node with
  | constant value => simp [lower] at lowered
  | argument parameter => simp [lower] at lowered
  | move target => simp [lower] at lowered
  | binary op lhs rhs =>
    obtain ⟨x, middle, y, left, right, rfl⟩ := (lower_binary_iff op lhs rhs).mp lowered
    obtain ⟨leftUnfolds, leftTable, leftSize⟩ := take_unfolds table left
    obtain ⟨rightUnfolds, rightTable, rightSize⟩ := take_unfolds leftTable right
    exact ⟨.binary held leftUnfolds rightUnfolds, rightTable, rightSize.trans leftSize⟩
  | conditional x y cond =>
    obtain ⟨first, early, second, late, condition, tookFirst, tookSecond, tookCondition, rfl⟩ :=
      (lower_conditional_iff x y cond).mp lowered
    obtain ⟨firstUnfolds, firstTable, firstSize⟩ := take_unfolds table tookFirst
    obtain ⟨secondUnfolds, secondTable, secondSize⟩ := take_unfolds firstTable tookSecond
    obtain ⟨conditionUnfolds, lastTable, lastSize⟩ := take_unfolds secondTable tookCondition
    exact ⟨.conditional held firstUnfolds secondUnfolds conditionUnfolds, lastTable,
      lastSize.trans (secondSize.trans firstSize)⟩
  | guarded branch cond taken =>
    obtain ⟨condition, middle, kept, tookCondition, tookKept, rfl⟩ :=
      (lower_guarded_iff branch cond taken).mp lowered
    obtain ⟨conditionUnfolds, conditionTable, conditionSize⟩ := take_unfolds table tookCondition
    obtain ⟨keptUnfolds, keptTable, keptSize⟩ := take_unfolds conditionTable tookKept
    exact ⟨.guarded held keptUnfolds conditionUnfolds, keptTable, keptSize.trans conditionSize⟩

/-- What lowering has established after a number of slots. The listed slots are those with a
temporary, in the order of their steps. -/
structure Lowered (nodes : Program α) (mode : Mode) (count : Nat) (state : Lowering α)
    (slots : List Nat) : Prop where
  size : state.operands.size = count
  table : Table nodes mode slots state.operands
  fills : Expression.Fills nodes mode [] state.steps.toList slots
  covers : ∀ slot parameter, slot < count → node? nodes slot = some (.argument parameter) →
    parameter.toNat < state.arity
  least : ∀ bound, (∀ slot parameter, node? nodes slot = some (.argument parameter) →
    parameter.toNat < bound) → state.arity ≤ bound

/-- Before the first slot there is nothing to stand for. -/
theorem lowered_start (nodes : Program α) (mode : Mode) :
    Lowered nodes mode 0 ⟨#[], #[], 0⟩ [] where
  size := rfl
  table := fun slot operand found => by simp at found
  fills := .done
  covers := fun slot parameter impossible => by omega
  least := fun bound _ => Nat.zero_le bound

/-- A slot that holds no argument adds an entry and leaves the arity. -/
theorem lowered_push {nodes : Program α} {mode : Mode} {count : Nat} {state : Lowering α}
    {slots : List Nat} (before : Lowered nodes mode count state slots)
    (entry : Option (Operand α))
    (stands : ∀ operand, entry = some operand → operand.Stands nodes mode slots count)
    (other : ∀ parameter, node? nodes count ≠ some (.argument parameter)) :
    Lowered nodes mode (count + 1) { state with operands := state.operands.push entry } slots where
  size := by simp [before.size]
  table := table_push before.table entry (by rw [before.size]; exact stands)
  fills := before.fills
  covers := by
    intro slot parameter bounded held
    by_cases last : slot = count
    · subst last
      exact absurd held (other parameter)
    · exact before.covers slot parameter (by omega) held
  least := before.least

/-- A computed node is lowered, and then gets a temporary or stays an expression. -/
theorem step_computed (mode : Mode) (temporaries : Array Bool) (state : Lowering α) (node : Node α)
    (computed : node.isDirect = false) :
    step mode temporaries state (some node) =
      lower mode state.operands.size state.operands node >>= fun lowered =>
        if temporaries.getD state.operands.size false then
          pure ⟨lowered.2.push (some (.value (.temporary state.steps.size))),
            state.steps.push lowered.1, state.arity⟩
        else pure ⟨lowered.2.push (some (.inline lowered.1)), state.steps, state.arity⟩ := by
  cases node with
  | constant value => simp [Node.isDirect] at computed
  | argument parameter => simp [Node.isDirect] at computed
  | move target => simp [Node.isDirect] at computed
  | binary op lhs rhs => rfl
  | conditional x y cond => rfl
  | guarded branch cond taken => rfl

/-- Lowering a computed node adds an expression to the table, or a step and its temporary. -/
theorem lowered_computed {nodes : Program α} {mode : Mode} {temporaries : Array Bool}
    {count : Nat} {state next : Lowering α} {slots : List Nat} {node : Node α}
    (before : Lowered nodes mode count state slots) (held : node? nodes count = some node)
    (computed : node.isDirect = false)
    (stepped : step mode temporaries state (some node) = .ok next) :
    ∃ more, Lowered nodes mode (count + 1) next more := by
  rw [step_computed mode temporaries state node computed, Refusal.bind_ok_iff] at stepped
  obtain ⟨⟨expression, rest⟩, lowered, finished⟩ := stepped
  rw [before.size] at lowered
  obtain ⟨unfolds, table, sized⟩ := lower_unfolds before.table held lowered
  have other : ∀ parameter, node? nodes count ≠ some (.argument parameter) := by
    intro parameter argument
    rw [held] at argument
    simp [Option.some.inj argument, Node.isDirect] at computed
  have remaining : Lowered nodes mode count { state with operands := rest } slots :=
    ⟨sized.trans before.size, table, before.fills, before.covers, before.least⟩
  by_cases temporary : temporaries.getD state.operands.size false = true
  · simp only [temporary, if_true] at finished
    obtain rfl := Except.ok.inj finished
    have stored : Lowered nodes mode count
        ⟨rest, state.steps.push expression, state.arity⟩ (slots ++ [count]) :=
      ⟨sized.trans before.size, table_append table [count],
        by simpa using before.fills.snoc (by simpa using unfolds), before.covers, before.least⟩
    have index : (slots ++ [count])[state.steps.size]? = some count := by
      rw [← Array.length_toList, before.fills.length]
      simp
    refine ⟨slots ++ [count], lowered_push stored (some (.value (.temporary state.steps.size))) ?_
      other⟩
    rintro operand same
    obtain rfl := Option.some.inj same
    exact .temporary index
  · simp only [temporary] at finished
    obtain rfl := Except.ok.inj finished
    refine ⟨slots, lowered_push remaining (some (.inline expression)) ?_ other⟩
    rintro operand same
    obtain rfl := Option.some.inj same
    exact unfolds

/-- Lowering one slot extends the invariant by that slot. -/
theorem lowered_step {nodes : Program α} {mode : Mode} {temporaries : Array Bool} {count : Nat}
    {state next : Lowering α} {slots : List Nat}
    (before : Lowered nodes mode count state slots) (slot : Option (Node α))
    (held : node? nodes count = slot) (stepped : step mode temporaries state slot = .ok next) :
    ∃ more, Lowered nodes mode (count + 1) next more := by
  cases slot with
  | none =>
    obtain rfl := Except.ok.inj stepped
    exact ⟨slots, lowered_push before none (by simp) (by simp [held])⟩
  | some node =>
    cases node with
    | constant value =>
      obtain rfl := Except.ok.inj stepped
      refine ⟨slots, lowered_push before (some (.value (.constant value))) ?_ (by simp [held])⟩
      rintro operand same
      obtain rfl := Option.some.inj same
      exact .constant held
    | argument parameter =>
      obtain rfl := Except.ok.inj stepped
      -- Only an argument raises the arity, and no further than to its own parameter.
      refine ⟨slots, by simp [before.size], table_push before.table _ ?_, before.fills, ?_, ?_⟩
      · rintro operand same
        obtain rfl := Option.some.inj same
        rw [before.size]
        exact .input held
      · intro slot other bounded argument
        by_cases last : slot = count
        · subst last
          rw [held] at argument
          obtain rfl := Node.argument.inj (Option.some.inj argument)
          simp only
          omega
        · have covered := before.covers slot other (by omega) argument
          simp only
          omega
      · intro bound covered
        have here := covered count parameter held
        have earlier := before.least bound covered
        simp only
        omega
    | move target =>
      cases found : state.operands[target.toNat]?.join with
      | none => simp [step, found] at stepped
      | some operand =>
        cases operand with
        | inline expression => simp [step, found] at stepped
        | value leaf =>
          simp only [step, found] at stepped
          obtain rfl := Except.ok.inj stepped
          refine ⟨slots, lowered_push before (some (.value leaf)) ?_ (by simp [held])⟩
          rintro operand same
          obtain rfl := Option.some.inj same
          exact .move held (before.table target.toNat _ found)
    | binary op lhs rhs => exact lowered_computed before held rfl stepped
    | conditional x y cond => exact lowered_computed before held rfl stepped
    | guarded branch cond taken => exact lowered_computed before held rfl stepped

end Lowering

end ProgramSearch.Program
