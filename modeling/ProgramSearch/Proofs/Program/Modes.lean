import ProgramSearch.Proofs.Program.Passage

/-!
# The same code in other modes

Checks and instrumentation are flags of the code: which operands are moved where, which nodes get
temporaries and what is refused does not depend on them. Compiling in another mode therefore gives
the same code with other flags.

Without checks such code goes at least as far. An execution with checks that comes to an end has
refused nothing, and every selection, guard and value is the same without them.
-/

namespace ProgramSearch

variable {α : Type}

/-- The same expression in another mode. -/
def Expression.inMode (mode : Program.Mode) : Expression α → Expression α
  | value leaf => value leaf
  | binary slot _ op lhs rhs =>
    binary slot (mode.checked && op.isChecked) op (lhs.inMode mode) (rhs.inMode mode)
  | conditional slot _ x y cond =>
    conditional slot mode.profile (x.inMode mode) (y.inMode mode) (cond.inMode mode)
  | guarded slot taken branch cond => guarded slot taken (branch.inMode mode) (cond.inMode mode)

/-- The same code in another mode. -/
def Compiled.inMode (mode : Program.Mode) (program : Compiled α) : Compiled α :=
  { program with steps := program.steps.map (Expression.inMode mode) }

/-- The same operand in another mode. -/
def Operand.inMode (mode : Program.Mode) : Operand α → Operand α
  | value leaf => value leaf
  | inline expression => inline (expression.inMode mode)

namespace Program

/-- The same table of operands in another mode. -/
def tableInMode (mode : Mode) (operands : Array (Option (Operand α))) :
    Array (Option (Operand α)) :=
  operands.map (·.map (Operand.inMode mode))

namespace Lowering

/-- The same compilation in progress in another mode. -/
def inMode (mode : Mode) (state : Lowering α) : Lowering α :=
  ⟨tableInMode mode state.operands, state.steps.map (Expression.inMode mode), state.arity⟩

variable (mode other : Mode)

/-- What an entry of the table is in another mode. -/
theorem table_in_mode_entry (operands : Array (Option (Operand α))) (slot : Nat) :
    (tableInMode other operands)[slot]?.join =
      operands[slot]?.join.map (Operand.inMode other) := by
  rw [tableInMode, Array.getElem?_map]
  rcases operands[slot]? with _ | _ | operand <;> rfl

theorem table_in_mode_push (operands : Array (Option (Operand α))) (entry : Option (Operand α)) :
    tableInMode other (operands.push entry) =
      (tableInMode other operands).push (entry.map (Operand.inMode other)) := by
  simp [tableInMode]

/-- Taking an operand does not depend on the mode. -/
theorem take_in_mode (operands : Array (Option (Operand α))) (slot : UInt16) :
    take (tableInMode other operands) slot =
      (take operands slot).map fun taken => (taken.1.inMode other, tableInMode other taken.2) := by
  simp only [take, table_in_mode_entry]
  rcases operands[slot.toNat]?.join with _ | leaf | expression
  · rfl
  · rfl
  · simp [Operand.inMode, Except.map, tableInMode]

/-- Lowering a node differs in the flags only. -/
theorem lower_in_mode (index : Nat) (operands : Array (Option (Operand α))) (node : Node α) :
    lower other index (tableInMode other operands) node =
      (lower mode index operands node).map fun lowered =>
        (lowered.1.inMode other, tableInMode other lowered.2) := by
  cases node with
  | constant | argument | move => rfl
  | binary op lhs rhs =>
    simp only [lower, take_in_mode]
    cases take operands lhs with
    | error => rfl
    | ok first =>
      simp only [Except.map, Refusal.ok_bind, take_in_mode]
      cases take first.2 rhs <;> rfl
  | conditional x y cond =>
    simp only [lower, take_in_mode]
    cases take operands x with
    | error => rfl
    | ok first =>
      simp only [Except.map, Refusal.ok_bind, take_in_mode]
      cases take first.2 y with
      | error => rfl
      | ok second =>
        simp only [Refusal.ok_bind, take_in_mode]
        cases take second.2 cond <;> rfl
  | guarded branch cond taken =>
    simp only [lower, take_in_mode]
    cases take operands cond with
    | error => rfl
    | ok first =>
      simp only [Except.map, Refusal.ok_bind, take_in_mode]
      cases take first.2 branch <;> rfl

/-- Compiling a slot differs in the flags only. -/
theorem step_in_mode (temporaries : Array Bool) (state : Lowering α) (slot : Option (Node α)) :
    step other temporaries (state.inMode other) slot =
      (step mode temporaries state slot).map (inMode other) := by
  have sized : (tableInMode other state.operands).size = state.operands.size := by
    simp [tableInMode]
  have computed : ∀ node : Node α, node.isDirect = false →
      step other temporaries (state.inMode other) (some node) =
        (step mode temporaries state (some node)).map (inMode other) := by
    intro node computed
    simp only [step_computed _ _ _ _ computed, inMode, sized, lower_in_mode mode]
    cases lower mode state.operands.size state.operands node with
    | error => rfl
    | ok lowered =>
      simp only [Except.map, Refusal.ok_bind]
      split <;> simp [pure, Except.pure, inMode, table_in_mode_push, Operand.inMode]
  rcases slot with _ | node
  · simp [step, inMode, table_in_mode_push, Except.map]
  · cases node with
    | constant | argument => simp [step, inMode, table_in_mode_push, Except.map, Operand.inMode]
    | move target =>
      simp only [step, inMode, table_in_mode_entry, sized]
      rcases state.operands[target.toNat]?.join with _ | leaf | expression <;>
        simp [table_in_mode_push, Except.map, Operand.inMode, inMode]
    | binary | conditional | guarded => exact computed _ rfl

/-- Compiling slot after slot differs in the flags only. -/
theorem steps_in_mode (temporaries : Array Bool) (slots : List (Option (Node α)))
    (state : Lowering α) :
    slots.foldlM (step other temporaries) (state.inMode other) =
      (slots.foldlM (step mode temporaries) state).map (inMode other) := by
  induction slots generalizing state with
  | nil => rfl
  | cons slot rest inductionHypothesis =>
    rw [List.foldlM_cons, List.foldlM_cons, step_in_mode mode]
    cases step mode temporaries state slot with
    | error => rfl
    | ok next => exact inductionHypothesis next

end Lowering

/-- A program that compiles in one mode compiles in every other, to the same code with other
flags. -/
theorem compile_in_mode {nodes : Program α} {outputs : Nat} {mode : Mode} {program : Compiled α}
    (compiled : compile nodes outputs mode = .ok program) (other : Mode) :
    compile nodes outputs other = .ok (program.inMode other) := by
  rw [compile_ok_iff] at compiled ⊢
  obtain ⟨ready, state, walked, collected, steps, arity⟩ := compiled
  refine ⟨ready, state.inMode other, ?_, ?_, ?_, arity⟩
  · have same := Lowering.steps_in_mode mode other
      (temporarySlots nodes (nodes.size - outputs)) nodes.toList ⟨#[], #[], 0⟩
    rw [Lowering.steps?] at walked ⊢
    rw [walked] at same
    simpa [Lowering.inMode, tableInMode, Except.map] using same
  · have mapped := congrArg (List.map (Option.map (Operand.inMode other))) collected
    simpa [Lowering.inMode, tableInMode, Compiled.inMode, List.map_drop, Operand.inMode,
      Function.comp_def] using mapped
  · simp [Lowering.inMode, Compiled.inMode, steps]

end Program

section Evaluation

variable [Number α] {mode other : Program.Mode}

/-- An evaluation that comes to an end does so with the same value when nothing is checked. -/
theorem Expression.evaluate_unchecked (unchecked : other.checked = false) (frame : Frame α)
    (expression : Expression α) (value : α)
    (ended : (expression.evaluate frame).result = .ok value) :
    ((expression.inMode other).evaluate frame).result = .ok value := by
  induction expression generalizing value with
  | value leaf => exact ended
  | binary slot checked op lhs rhs left right =>
    simp only [evaluate, inMode, Traced.result_bind, Refusal.bind_ok_iff] at ended ⊢
    obtain ⟨x, first, y, second, operated⟩ := ended
    refine ⟨x, left x first, y, right y second, ?_⟩
    unfold operate at operated
    split at operated
    · cases operated
    · simpa [operate, unchecked] using operated
  | conditional slot profile x y cond onPositive onOther decided =>
    simp only [evaluate_conditional, inMode, Traced.result_bind, Refusal.bind_ok_iff] at ended ⊢
    obtain ⟨z, decision, _, _, selected⟩ := ended
    refine ⟨z, decided z decision, (), by cases other.profile <;> rfl, ?_⟩
    split at selected
    · rename_i positive
      rw [if_pos positive]
      exact onPositive value selected
    · rename_i positive
      rw [if_neg positive]
      exact onOther value selected
  | guarded slot taken branch cond continued decided =>
    simp only [evaluate, inMode, Traced.result_bind, Refusal.bind_ok_iff] at ended ⊢
    obtain ⟨z, decision, selected⟩ := ended
    refine ⟨z, decided z decision, ?_⟩
    split at selected
    · rename_i agrees
      rw [if_pos agrees]
      exact continued value selected
    · cases selected

/-- Filling temporaries comes to the same end when nothing is checked. -/
theorem Compiled.fill_unchecked (unchecked : other.checked = false) (inputs : Array α)
    (steps : List (Expression α)) (temporaries final : Array α)
    (ended : (Compiled.fill inputs steps temporaries).result = .ok final) :
    (Compiled.fill inputs (steps.map (Expression.inMode other)) temporaries).result =
      .ok final := by
  induction steps generalizing temporaries with
  | nil => exact ended
  | cons step rest inductionHypothesis =>
    simp only [Compiled.fill, Traced.result_bind, Refusal.bind_ok_iff, List.map_cons] at ended ⊢
    obtain ⟨value, first, others⟩ := ended
    exact ⟨value, step.evaluate_unchecked unchecked _ value first,
      inductionHypothesis _ others⟩

/-- A run that comes to an end has the same results when nothing is checked. -/
theorem Compiled.run_unchecked (unchecked : other.checked = false) (program : Compiled α)
    (inputs buffer results : Array α) (ended : (program.run inputs buffer).result = .ok results) :
    ((program.inMode other).run inputs buffer).result = .ok results := by
  simp only [Compiled.run, Traced.result_bind, Refusal.bind_ok_iff] at ended ⊢
  obtain ⟨temporaries, filled, rest⟩ := ended
  exact ⟨temporaries, Compiled.fill_unchecked unchecked inputs _ _ _ filled, rest⟩

/-- Whether conditionals report or not, an evaluation has the same result, if both modes check
alike. -/
theorem Expression.evaluate_alike (alike : mode.checked = other.checked) (frame : Frame α)
    (expression : Expression α) :
    ((expression.inMode mode).evaluate frame).result =
      ((expression.inMode other).evaluate frame).result := by
  induction expression with
  | value leaf => rfl
  | binary slot checked op lhs rhs left right =>
    simp only [inMode, evaluate, Traced.result_bind, left, right, alike]
  | conditional slot profile x y cond onPositive onOther decided =>
    have silent : ∀ (mode : Program.Mode) (taken : Bool),
        (reportIf slot mode.profile taken).result = .ok () := by
      intro mode taken
      cases mode.profile <;> rfl
    simp only [inMode, evaluate_conditional, Traced.result_bind, decided, silent]
    congr 1
    funext z
    split
    · exact congrArg _ (funext fun _ => onPositive)
    · exact congrArg _ (funext fun _ => onOther)
  | guarded slot taken branch cond continued decided =>
    simp only [inMode, evaluate, Traced.result_bind, decided]
    congr 1
    funext z
    split
    · exact continued
    · rfl

/-- Filling temporaries has the same result in modes that check alike. -/
theorem Compiled.fill_alike (alike : mode.checked = other.checked) (inputs : Array α)
    (steps : List (Expression α)) (temporaries : Array α) :
    (Compiled.fill inputs (steps.map (Expression.inMode mode)) temporaries).result =
      (Compiled.fill inputs (steps.map (Expression.inMode other)) temporaries).result := by
  induction steps generalizing temporaries with
  | nil => rfl
  | cons step rest inductionHypothesis =>
    simp only [List.map_cons, Compiled.fill, Traced.result_bind, step.evaluate_alike alike,
      inductionHypothesis]

/-- Instrumentation does not matter for results: compiled in two modes that check alike, a program
has the same outputs or stops for the same reason. -/
theorem Program.run_alike {nodes : Program α} {outputs : Nat} {program instrumented : Compiled α}
    (compiled : compile nodes outputs mode = .ok program)
    (instruments : compile nodes outputs other = .ok instrumented)
    (alike : mode.checked = other.checked) (inputs buffer : Array α) :
    (program.run inputs buffer).result = (instrumented.run inputs buffer).result := by
  obtain rfl := Except.ok.inj (instruments.symm.trans (compile_in_mode compiled other))
  have same := Except.ok.inj (compiled.symm.trans (compile_in_mode compiled mode))
  calc (program.run inputs buffer).result
      = ((program.inMode mode).run inputs buffer).result :=
        congrArg (fun code => (Compiled.run code inputs buffer).result) same
    _ = ((program.inMode other).run inputs buffer).result := by
        simp only [Compiled.run, Traced.result_bind]
        exact congrArg (· >>= _) (Compiled.fill_alike alike inputs program.steps #[])

end Evaluation

end ProgramSearch
