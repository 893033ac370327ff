import ProgramSearch.Proofs.Program.Linkage

/-!
# Every node has one place in the code

While a program is lowered, a computed node becomes either a step or an expression that waits in
the table of operands. A reader that takes the expression over removes it from the table, and taking
a value copies no code. So code is moved and never copied: every computed node of the slots so far
has at most one place, among the steps and the waiting expressions together.

This does not depend on which nodes get temporaries, nor on the order of the slots. A bad choice of
temporaries can make lowering stop, but it cannot make it compute a node in two places.
-/

namespace ProgramSearch

variable {α : Type}

namespace Expression

/-- The slots of the nodes that an expression computes. -/
def slots : Expression α → List Nat
  | value _ => []
  | binary slot _ _ lhs rhs => slot :: (lhs.slots ++ rhs.slots)
  | conditional slot _ x y cond => slot :: (cond.slots ++ (x.slots ++ y.slots))
  | guarded slot _ branch cond => slot :: (cond.slots ++ branch.slots)

/-- The slots of the conditionals in an expression. -/
def choices : Expression α → List Nat
  | value _ => []
  | binary _ _ _ lhs rhs => lhs.choices ++ rhs.choices
  | conditional slot _ x y cond => cond.choices ++ slot :: (x.choices ++ y.choices)
  | guarded _ _ branch cond => cond.choices ++ branch.choices

/-- Conditionals are among the nodes that an expression computes. -/
theorem choices_le (expression : Expression α) (slot : Nat) :
    expression.choices.count slot ≤ expression.slots.count slot := by
  induction expression with
  | value => exact Nat.le_refl 0
  | binary | conditional | guarded =>
    simp only [choices, slots, List.count_append, List.count_cons]
    omega

/-- Among the nodes of several expressions, too, a conditional is counted at most as often as its
slot. -/
theorem all_choices_le (expressions : List (Expression α)) (slot : Nat) :
    (expressions.flatMap choices).count slot ≤ (expressions.flatMap slots).count slot := by
  induction expressions with
  | nil => exact Nat.le_refl 0
  | cons expression rest inductionHypothesis =>
    rw [List.flatMap_cons, List.flatMap_cons, List.count_append, List.count_append]
    exact Nat.add_le_add (expression.choices_le slot) inductionHypothesis

end Expression

/-- The slots of the nodes that an operand brings with it. A value brings none. -/
def Operand.slots : Operand α → List Nat
  | value _ => []
  | inline expression => expression.slots

namespace Program.Lowering

/-- The slots of the nodes whose expressions wait for their readers. -/
def waitingSlots (entries : List (Option (Operand α))) : List Nat :=
  entries.flatMap fun entry => (entry.map Operand.slots).getD []

/-- The slots of the nodes in all code that was made so far. -/
def codedSlots (state : Lowering α) : List Nat :=
  state.steps.toList.flatMap Expression.slots ++ waitingSlots state.operands.toList

/-- An entry that is removed takes the code of its operand with it. -/
theorem waiting_slots_clear (entries : List (Option (Operand α))) (index : Nat)
    (operand : Operand α) (found : entries[index]?.join = some operand) (slot : Nat) :
    (waitingSlots entries).count slot =
      operand.slots.count slot + (waitingSlots (entries.set index none)).count slot := by
  induction entries generalizing index with
  | nil => simp at found
  | cons entry rest inductionHypothesis =>
    cases index with
    | zero =>
      obtain rfl : entry = some operand := by simpa using found
      simp [waitingSlots]
    | succ index =>
      have others := inductionHypothesis index (by simpa using found)
      simp only [waitingSlots, List.set_cons_succ, List.flatMap_cons, List.count_append] at others ⊢
      omega

theorem waiting_slots_push (operands : Array (Option (Operand α)))
    (entry : Option (Operand α)) (slot : Nat) :
    (waitingSlots (operands.push entry).toList).count slot =
      (waitingSlots operands.toList).count slot +
        ((entry.map Operand.slots).getD []).count slot := by
  simp [waitingSlots]

/-- Taking an operand moves its code out of the table. -/
theorem take_moves {operands rest : Array (Option (Operand α))} {read : UInt16}
    {expression : Expression α} (taken : take operands read = .ok (expression, rest)) :
    rest.size = operands.size ∧ ∀ slot, (waitingSlots operands.toList).count slot =
      expression.slots.count slot + (waitingSlots rest.toList).count slot := by
  cases found : operands[read.toNat]?.join with
  | none => simp [take, found] at taken
  | some operand =>
    cases operand with
    | value leaf =>
      simp only [take, found, Except.ok.injEq, Prod.mk.injEq] at taken
      obtain ⟨rfl, rfl⟩ := taken
      exact ⟨rfl, fun slot => by simp [Expression.slots]⟩
    | inline inner =>
      simp only [take, found, Except.ok.injEq, Prod.mk.injEq] at taken
      obtain ⟨rfl, rfl⟩ := taken
      refine ⟨by simp, fun slot => ?_⟩
      rw [← Array.getElem?_toList] at found
      simpa [Operand.slots] using waiting_slots_clear operands.toList read.toNat _ found slot

/-- Lowering a node moves the code of its operands out of the table and adds the node itself. -/
theorem lower_moves {mode : Mode} {index : Nat} {operands rest : Array (Option (Operand α))}
    {node : Node α} {expression : Expression α}
    (lowered : lower mode index operands node = .ok (expression, rest)) :
    rest.size = operands.size ∧ ∀ slot,
      expression.slots.count slot + (waitingSlots rest.toList).count slot =
        (waitingSlots operands.toList).count slot + if index = slot then 1 else 0 := by
  cases node with
  | constant | argument | move => simp [lower] at lowered
  | binary op lhs rhs =>
    obtain ⟨x, middle, y, left, right, rfl⟩ := (lower_binary_iff op lhs rhs).mp lowered
    obtain ⟨leftSize, leftMoves⟩ := take_moves left
    obtain ⟨rightSize, rightMoves⟩ := take_moves right
    refine ⟨rightSize.trans leftSize, fun slot => ?_⟩
    simp only [Expression.slots, List.count_cons, List.count_append, beq_iff_eq, leftMoves slot,
      rightMoves slot]
    omega
  | conditional x y cond =>
    obtain ⟨first, early, second, late, condition, tookFirst, tookSecond, tookCondition, rfl⟩ :=
      (lower_conditional_iff x y cond).mp lowered
    obtain ⟨firstSize, firstMoves⟩ := take_moves tookFirst
    obtain ⟨secondSize, secondMoves⟩ := take_moves tookSecond
    obtain ⟨conditionSize, conditionMoves⟩ := take_moves tookCondition
    refine ⟨conditionSize.trans (secondSize.trans firstSize), fun slot => ?_⟩
    simp only [Expression.slots, List.count_cons, List.count_append, beq_iff_eq, firstMoves slot,
      secondMoves slot, conditionMoves slot]
    omega
  | guarded branch cond taken =>
    obtain ⟨condition, middle, kept, tookCondition, tookKept, rfl⟩ :=
      (lower_guarded_iff branch cond taken).mp lowered
    obtain ⟨conditionSize, conditionMoves⟩ := take_moves tookCondition
    obtain ⟨keptSize, keptMoves⟩ := take_moves tookKept
    refine ⟨keptSize.trans conditionSize, fun slot => ?_⟩
    simp only [Expression.slots, List.count_cons, List.count_append, beq_iff_eq,
      conditionMoves slot, keptMoves slot]
    omega

/-- No node of the slots so far has two places in the code, and no other slot has one. -/
def Placed (state : Lowering α) : Prop :=
  ∀ slot, (codedSlots state).count slot ≤ if slot < state.operands.size then 1 else 0

/-- A slot that brings no code leaves the places as they are. -/
theorem Placed.push {state : Lowering α} (placed : Placed state) (leaf : Option (Value α))
    (arity : Nat) :
    Placed ⟨state.operands.push (leaf.map .value), state.steps, arity⟩ := by
  intro slot
  have before := placed slot
  have codeless : ((((leaf.map Operand.value).map Operand.slots).getD []) : List Nat) = [] := by
    cases leaf <;> rfl
  simp only [codedSlots, List.count_append, waiting_slots_push, codeless, List.count_nil,
    Array.size_push] at before ⊢
  split at before <;> split <;> omega

/-- A computed node takes the code of its operands with it, to the steps or to the table, and adds a
place for its own slot. -/
theorem Placed.computed {mode : Mode} {temporaries : Array Bool} {state next : Lowering α}
    {node : Node α} (placed : Placed state) (computed : node.isDirect = false)
    (stepped : step mode temporaries state (some node) = .ok next) : Placed next := by
  rw [step_computed mode temporaries state node computed, Refusal.bind_ok_iff] at stepped
  obtain ⟨⟨expression, rest⟩, lowered, finished⟩ := stepped
  obtain ⟨sized, moves⟩ := lower_moves lowered
  intro slot
  have before := placed slot
  have moved := moves slot
  have stored : ((state.steps.push expression).toList.flatMap Expression.slots).count slot =
      (state.steps.toList.flatMap Expression.slots).count slot + expression.slots.count slot := by
    simp
  simp only [codedSlots, List.count_append] at before
  split at finished
  all_goals
    obtain rfl := Except.ok.inj finished
    simp only [codedSlots, List.count_append, waiting_slots_push, stored, Array.size_push, sized,
      Option.map_some, Option.getD_some, Operand.slots, List.count_nil]
    split at before <;> split at moved <;> split <;> omega

/-- The next slot gets at most one place, and the others keep theirs. -/
theorem Placed.step {mode : Mode} {temporaries : Array Bool} {state next : Lowering α}
    {slot : Option (Node α)} (placed : Placed state)
    (stepped : step mode temporaries state slot = .ok next) : Placed next := by
  cases slot with
  | none =>
    obtain rfl := Except.ok.inj stepped
    exact placed.push none _
  | some node =>
    cases node with
    | constant value =>
      obtain rfl := Except.ok.inj stepped
      exact placed.push (some _) _
    | argument parameter =>
      obtain rfl := Except.ok.inj stepped
      exact placed.push (some _) _
    | move target =>
      simp only [Lowering.step] at stepped
      split at stepped
      · obtain rfl := Except.ok.inj stepped
        exact placed.push (some _) _
      · cases stepped
    | binary | conditional | guarded => exact placed.computed rfl stepped

/-- Lowering slot after slot gives every node at most one place. -/
theorem Placed.walk {mode : Mode} {temporaries : Array Bool} (slots : List (Option (Node α)))
    {state final : Lowering α} (placed : Placed state)
    (walked : slots.foldlM (Lowering.step mode temporaries) state = .ok final) :
    Placed final := by
  induction slots generalizing state with
  | nil =>
    obtain rfl := Except.ok.inj walked
    exact placed
  | cons slot rest inductionHypothesis =>
    rw [List.foldlM_cons, Refusal.bind_ok_iff] at walked
    obtain ⟨next, stepped, remaining⟩ := walked
    exact inductionHypothesis (placed.step stepped) remaining

end Program.Lowering

/-- In compiled code every node has at most one place, and only slots of the program have one. -/
theorem Program.compiled_once {nodes : Program α} {outputs : Nat} {mode : Mode}
    {program : Compiled α} (compiled : compile nodes outputs mode = .ok program) (slot : Nat) :
    (program.steps.flatMap Expression.slots).count slot ≤
      if slot < nodes.size then 1 else 0 := by
  obtain ⟨_, state, walked, _, steps, _⟩ := (compile_ok_iff nodes outputs mode program).mp compiled
  obtain ⟨_, lowered⟩ := steps_lowered walked
  have start : Lowering.Placed (⟨#[], #[], 0⟩ : Lowering α) := fun slot => Nat.zero_le _
  have placed := start.walk nodes.toList walked slot
  rw [Lowering.codedSlots, List.count_append, ← steps, lowered.size] at placed
  exact Nat.le_trans (Nat.le_add_right _ _) placed

end ProgramSearch
