import ProgramSearch.Proofs.Program.Lowering

/-!
# Compiled programs are linked to their source

A compiled program is linked to the program that it was made from when its steps fill the
temporaries of some slots in order, each output leads to its output slot, and its arity is the
least number of inputs that covers all arguments. Every successful compilation links its result,
and it succeeds only on programs that are ready for the number of outputs.
-/

namespace ProgramSearch.Program

variable {α : Type}

/-- How a compiled program is made from a program with a number of outputs. The listed slots are
those with a temporary. -/
structure Linked (nodes : Program α) (outputs : Nat) (mode : Mode) (program : Compiled α)
    (slots : List Nat) : Prop where
  fills : Expression.Fills nodes mode [] program.steps slots
  outputCount : program.outputs.length = outputs
  outputLeads : ∀ (index : Nat) (leaf : Value α), program.outputs[index]? = some leaf →
    leaf.Leads nodes slots (nodes.size - outputs + index)
  covers : ∀ slot parameter, node? nodes slot = some (.argument parameter) →
    parameter.toNat < program.arity
  least : ∀ bound, (∀ slot parameter, node? nodes slot = some (.argument parameter) →
    parameter.toNat < bound) → program.arity ≤ bound

/-- Lowering the remaining slots completes the invariant of the slots before them. -/
theorem lowered_rest {nodes : Program α} {mode : Mode} {temporaries : Array Bool}
    (before rest : List (Option (Node α))) {state final : Lowering α} {slots : List Nat}
    (whole : nodes.toList = before ++ rest)
    (lowered : Lowering.Lowered nodes mode before.length state slots)
    (walked : rest.foldlM (Lowering.step mode temporaries) state = .ok final) :
    ∃ more, Lowering.Lowered nodes mode nodes.size final more := by
  induction rest generalizing before state slots with
  | nil =>
    obtain rfl := Except.ok.inj walked
    have sized : before.length = nodes.size := by
      rw [← Array.length_toList, whole, List.append_nil]
    exact ⟨slots, sized ▸ lowered⟩
  | cons slot rest inductionHypothesis =>
    rw [List.foldlM_cons, Refusal.bind_ok_iff] at walked
    obtain ⟨next, stepped, remaining⟩ := walked
    have held : node? nodes before.length = slot := by
      simp [node?, ← Array.getElem?_toList, whole]
    obtain ⟨more, extended⟩ := Lowering.lowered_step lowered slot held stepped
    exact inductionHypothesis (before ++ [slot]) (by simp [whole]) (by simpa using extended)
      remaining

/-- Lowering a whole program establishes the invariant for all its slots. -/
theorem steps_lowered {nodes : Program α} {mode : Mode} {temporaries : Array Bool}
    {state : Lowering α} (walked : Lowering.steps? mode temporaries nodes = .ok state) :
    ∃ slots, Lowering.Lowered nodes mode nodes.size state slots :=
  lowered_rest [] nodes.toList rfl (Lowering.lowered_start nodes mode) walked

/-- Outputs are collected exactly when every entry is a value, and then these are the outputs. -/
theorem output_values_ok_iff (index : Nat) (entries : List (Option (Operand α)))
    (values : List (Value α)) :
    outputValues index entries = .ok values ↔
      entries = values.map fun leaf => some (.value leaf) := by
  induction entries generalizing index values with
  | nil => cases values <;> simp [outputValues]
  | cons entry rest inductionHypothesis =>
    cases entry with
    | none => cases values <;> simp [outputValues]
    | some operand =>
      cases operand with
      | inline expression => cases values <;> simp [outputValues]
      | value leaf =>
        simp only [outputValues, Refusal.map_ok_iff, inductionHypothesis]
        cases values with
        | nil => simp
        | cons first others =>
          simp only [List.cons.injEq, List.map_cons, Option.some.injEq, Operand.value.injEq]
          constructor
          · rintro ⟨tail, rfl, rfl, rfl⟩
            exact ⟨rfl, rfl⟩
          · rintro ⟨rfl, rfl⟩
            exact ⟨others, rfl, rfl, rfl⟩

/-- The leading node passes its check exactly when there is one and it is direct. -/
theorem leading_direct_iff (nodes : Program α) :
    ((node? nodes 0).map Node.isDirect).getD false = true ↔
      ∃ node, node? nodes 0 = some node ∧ node.isDirect = true := by
  cases node? nodes 0 <;> simp

/-- The output slots pass their check exactly when each holds a node. -/
theorem outputs_present_iff (nodes : Program α) (outputs : Nat) (enough : outputs ≤ nodes.size) :
    (List.range' (nodes.size - outputs) outputs).forM (fun index =>
        if isPresent nodes index then Except.ok () else Except.error (Fault.absentOutput index)) =
          .ok () ↔
      ∀ slot, nodes.size - outputs ≤ slot → slot < nodes.size →
        isPresent nodes slot = true := by
  rw [Refusal.forM_ok_iff]
  constructor
  · intro checked slot above below
    have member : slot ∈ List.range' (nodes.size - outputs) outputs := by
      rw [List.mem_range'_1]
      omega
    have passed := checked slot member
    by_cases present : isPresent nodes slot = true
    · exact present
    · simp [present] at passed
  · intro present slot member
    rw [List.mem_range'_1] at member
    simp [present slot (by omega) (by omega)]

/-- Compiling succeeds exactly on programs that are ready for the number of outputs and that
lowering does not refuse, and its result is what lowering leaves. -/
theorem compile_ok_iff (nodes : Program α) (outputs : Nat) (mode : Mode) (program : Compiled α) :
    compile nodes outputs mode = .ok program ↔
      Ready nodes outputs ∧ ∃ state,
        Lowering.steps? mode (temporarySlots nodes (nodes.size - outputs)) nodes = .ok state ∧
        state.operands.toList.drop (nodes.size - outputs) =
          program.outputs.map (fun leaf => some (.value leaf)) ∧
        program.steps = state.steps.toList ∧ program.arity = state.arity := by
  unfold compile
  by_cases misfit : outputs = 0 ∨ nodes.size < outputs
  · have unready : ¬ Ready nodes outputs := by
      intro ready
      have positive := ready.positive
      have enough := ready.enough
      omega
    simp only [misfit, if_true, unready, false_and, iff_false]
    exact fun refused => nomatch refused
  · have positive : 0 < outputs := by omega
    have enough : outputs ≤ nodes.size := by omega
    simp only [misfit, if_false]
    by_cases leading : ((node? nodes 0).map Node.isDirect).getD false = true
    · simp only [leading, if_true]
      rw [Refusal.check_ok_iff, validate_ok_iff, Refusal.check_ok_iff,
        outputs_present_iff nodes outputs enough]
      simp only [Refusal.bind_ok_iff, output_values_ok_iff]
      constructor
      · rintro ⟨valid, present, state, walked, values, collected, same⟩
        obtain rfl := Except.ok.inj same
        exact ⟨⟨positive, enough, (leading_direct_iff nodes).mp leading, valid, present⟩, state,
          walked, collected, rfl, rfl⟩
      · rintro ⟨ready, state, walked, collected, steps, arity⟩
        refine ⟨ready.valid, ready.present, state, walked, program.outputs, collected, ?_⟩
        simp [pure, Except.pure, ← steps, ← arity]
    · have unready : ¬ Ready nodes outputs :=
        fun ready => leading ((leading_direct_iff nodes).mpr ready.leading)
      simp only [leading, unready, false_and, iff_false]
      exact fun refused => nomatch refused

/-- A program that compiles is ready, and the result is linked to it. -/
theorem linked_of_compile {nodes : Program α} {outputs : Nat} {mode : Mode} {program : Compiled α}
    (compiled : compile nodes outputs mode = .ok program) :
    Ready nodes outputs ∧ ∃ slots, Linked nodes outputs mode program slots := by
  obtain ⟨ready, state, walked, collected, steps, arity⟩ :=
    (compile_ok_iff nodes outputs mode program).mp compiled
  obtain ⟨slots, lowered⟩ := steps_lowered walked
  have enough := ready.enough
  refine ⟨ready, slots, steps ▸ lowered.fills, ?_, ?_, ?_, ?_⟩
  · have counted := congrArg List.length collected
    simp only [List.length_drop, Array.length_toList, lowered.size, List.length_map] at counted
    omega
  · intro index leaf found
    have entry : state.operands[nodes.size - outputs + index]?.join = some (.value leaf) := by
      have read := congrArg (·[index]?) collected
      simp only [List.getElem?_drop, List.getElem?_map, found, Option.map_some] at read
      rw [← Array.getElem?_toList, read]
      rfl
    exact lowered.table _ _ entry
  · intro slot parameter held
    rw [arity]
    exact lowered.covers slot parameter (node_bound nodes slot _ held) held
  · intro bound covered
    rw [arity]
    exact lowered.least bound covered

/-- A program whose arguments are all arguments of another program needs no more inputs than that
one. -/
theorem Linked.arity_le {nodes other : Program α} {outputs otherOutputs : Nat}
    {mode otherMode : Mode} {program otherProgram : Compiled α} {slots otherSlots : List Nat}
    (linked : Linked nodes outputs mode program slots)
    (linkedOther : Linked other otherOutputs otherMode otherProgram otherSlots)
    (borrowed : ∀ slot parameter, node? other slot = some (.argument parameter) →
      ∃ origin, node? nodes origin = some (.argument parameter)) :
    otherProgram.arity ≤ program.arity := by
  refine linkedOther.least program.arity fun slot parameter held => ?_
  obtain ⟨origin, found⟩ := borrowed slot parameter held
  exact linked.covers origin parameter found

end ProgramSearch.Program
