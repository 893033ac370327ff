import ProgramSearch.Number.Double
import ProgramSearch.Proofs.Program.Linkage
import ProgramSearch.Proofs.Program.Meaning

/-!
# Running compiled code

Compiled code evaluates a node only where a reader needs it, and a node with a temporary once and
ahead of its readers. Whatever the order, a result is the one that the valuation of the slots
predicts, for every valuation that explains the program: an execution that comes to an end has only
used guards that agreed. An execution that stops was stopped by a guard or a checked operator that
the valuation blames.

Evaluated eagerly, a program without guards explains itself and blames nothing when no operator is
checked. Its compiled form then always comes to an end, with the eager values of its output slots.
-/

namespace ProgramSearch

variable {α : Type}

namespace Traced

/-- The result of a sequence is the sequence of the results; reports do not matter for it. -/
theorem result_bind {β γ : Type} (first : Traced β) (next : β → Traced γ) :
    (first >>= next).result = first.result >>= fun value => (next value).result := by
  change (andThen first next).result = _
  unfold andThen
  cases first.result <;> rfl

end Traced

/-- An execution settles on a value when it either ends with it or stops for a reason that is
excused. -/
def Settles {β : Type} (excused : Halt → Prop) (expected : β) : Except Halt β → Prop
  | .ok value => value = expected
  | .error halt => excused halt

namespace Settles

variable {β γ : Type} {excused : Halt → Prop} {expected : β}

/-- After a first part that settles, only the continuation from its value matters. -/
theorem bind {first : Except Halt β} {next : β → Except Halt γ} {final : γ}
    (settled : Settles excused expected first)
    (continued : Settles excused final (next expected)) :
    Settles excused final (first >>= next) := by
  cases first with
  | error halt => exact settled
  | ok value =>
    have same : value = expected := settled
    exact same ▸ continued

/-- When nothing is excused, an execution that settles ends with the value. -/
theorem ended {result : Except Halt β} (settled : Settles excused expected result)
    (strict : ∀ halt, ¬ excused halt) : result = .ok expected := by
  cases result with
  | error halt => exact absurd settled (strict halt)
  | ok value => exact congrArg Except.ok settled

end Settles

namespace Program

/-- A buffer whose leading cells were replaced by the values of the slots from one slot on. -/
def overwritten (values : Nat → α) (start outputs : Nat) (buffer : Array α) : Array α :=
  buffer.mapIdx fun index old => if index < outputs then values (start + index) else old

theorem overwritten_size (values : Nat → α) (start outputs : Nat) (buffer : Array α) :
    (overwritten values start outputs buffer).size = buffer.size := by
  simp [overwritten]

/-- A cell that belongs to an output holds the value of its slot. -/
theorem overwritten_output (values : Nat → α) (start outputs : Nat) (buffer : Array α) (index : Nat)
    (inside : index < buffer.size) (replaced : index < outputs) :
    (overwritten values start outputs buffer)[index]? = some (values (start + index)) := by
  simp [overwritten, inside, replaced]

/-- A cell past the outputs keeps its content. -/
theorem overwritten_rest (values : Nat → α) (start outputs : Nat) (buffer : Array α) (index : Nat)
    (beyond : outputs ≤ index) :
    (overwritten values start outputs buffer)[index]? = buffer[index]? := by
  simp only [overwritten, Array.getElem?_mapIdx, Nat.not_lt_of_le beyond, if_false]
  cases buffer[index]? <;> rfl

/-- If the output slots are related under two valuations, then so are the cells of two buffers that
belong to outputs, once each buffer is overwritten by one of the valuations. -/
theorem overwritten_related {relation : α → α → Prop} {values others : Nat → α}
    {start outputs : Nat}
    (related : ∀ index, index < outputs →
      relation (values (start + index)) (others (start + index)))
    (buffer other : Array α) (index : Nat) (x y : α) (replaced : index < outputs)
    (left : (overwritten values start outputs buffer)[index]? = some x)
    (right : (overwritten others start outputs other)[index]? = some y) : relation x y := by
  have inside : index < buffer.size := by
    have found := (Array.getElem?_eq_some_iff.mp left).1
    rwa [overwritten_size] at found
  have insideOther : index < other.size := by
    have found := (Array.getElem?_eq_some_iff.mp right).1
    rwa [overwritten_size] at found
  rw [overwritten_output _ _ _ _ _ inside replaced] at left
  rw [overwritten_output _ _ _ _ _ insideOther replaced] at right
  obtain rfl := Option.some.inj left
  obtain rfl := Option.some.inj right
  exact related index replaced

/-- The values of the first output slots, as many as the buffer holds. -/
def leadingOutputs (values : Nat → α) (start outputs : Nat) (buffer : Array α) : List α :=
  (List.range (min buffer.size outputs)).map fun index => values (start + index)

/-- Putting the values of the output slots before the rest of the buffer overwrites its leading
cells. -/
theorem leading_outputs_append (values : Nat → α) (start outputs : Nat) (buffer : Array α) :
    let fresh := leadingOutputs values start outputs buffer
    fresh.toArray ++ buffer.extract fresh.length buffer.size =
      overwritten values start outputs buffer := by
  have counted : (leadingOutputs values start outputs buffer).length = min buffer.size outputs := by
    simp [leadingOutputs]
  apply Array.ext
  · simp only [Array.size_append, List.size_toArray, counted, Array.size_extract, overwritten_size]
    omega
  · intro index inside bounded
    have within : index < buffer.size := by simpa [overwritten] using bounded
    by_cases replaced : index < outputs
    · have early : index < min buffer.size outputs := by omega
      simp [leadingOutputs, overwritten, early, replaced]
    · have late : ¬ index < min buffer.size outputs := by omega
      have position : min buffer.size outputs + (index - min buffer.size outputs) = index := by
        omega
      simp [leadingOutputs, overwritten, Array.getElem_append, late, replaced, position]

end Program

variable [Number α]

/-- A valuation blames a guard whose condition it puts on the other side and, in checked code, a
checked operator whose operands it puts outside the domain. -/
inductive Program.Blames (nodes : Program α) (mode : Program.Mode) (values : Nat → α) :
    Halt → Prop where
  | guarded {slot : Nat} {branch cond : UInt16} {taken : Bool} :
      nodes.node? slot = some (.guarded branch cond taken) →
      Number.positive (values cond.toNat) ≠ taken → Blames nodes mode values (.signal .bailout)
  | operator {slot : Nat} {op : Operator} {lhs rhs : UInt16} :
      nodes.node? slot = some (.binary op lhs rhs) →
      mode.checked = true → op.isChecked = true →
      op.isInvalid (values lhs.toNat) (values rhs.toNat) = true →
        Blames nodes mode values (.signal (.invalidOperation (UInt16.ofNat slot)))

/-- The inputs cover a program when every argument is among them. -/
def Program.Covered (nodes : Program α) (inputs : Array α) : Prop :=
  ∀ slot parameter, nodes.node? slot = some (.argument parameter) →
    parameter.toNat < inputs.size

section Evaluation

variable {nodes : Program α} {mode : Program.Mode} {slots : List Nat} {values : Nat → α}
  {inputs temporaries : Array α}

/-- Reading a leaf gives the value of the slot that it leads to. -/
theorem Value.Leads.read_exact {leaf : Value α} {slot : Nat}
    (leads : leaf.Leads nodes slots slot) (explained : nodes.Explains inputs values)
    (covered : nodes.Covered inputs)
    (filled : ∀ index slot : Nat, slots[index]? = some slot →
      temporaries[index]? = some (values slot)) :
    leaf.read ⟨inputs, temporaries⟩ = .ok (values slot) := by
  induction leads with
  | constant held => simp [Value.read, explained _ _ held trivial, Node.eager]
  | @input slot parameter held =>
    have inside := covered slot parameter held
    simp [Value.read, explained _ _ held trivial, Node.eager, Array.getElem?_eq_getElem inside,
      Array.getD_eq_getD_getElem?]
  | @temporary slot index listed =>
    simp [Value.read, Array.getD_eq_getD_getElem?, filled index slot listed]
  | move held _ inductionHypothesis =>
    rw [inductionHypothesis, explained _ _ held trivial]
    rfl

/-- Evaluating an expression settles on the value of the slot that it unfolds.

The induction follows the expression. A conditional only evaluates the selected side, and a guard
that lets the execution go on agrees with the valuation, so that the slot has the value of the side
or of the branch. -/
theorem Expression.Unfolds.evaluate_settles {expression : Expression α} {slot : Nat}
    (unfolds : expression.Unfolds nodes mode slots slot) (explained : nodes.Explains inputs values)
    (covered : nodes.Covered inputs)
    (filled : ∀ index slot : Nat, slots[index]? = some slot →
      temporaries[index]? = some (values slot)) :
    Settles (nodes.Blames mode values) (values slot)
      (expression.evaluate ⟨inputs, temporaries⟩).result := by
  induction unfolds with
  | value leads =>
    simp only [Expression.evaluate, Traced.ofResult,
      leads.read_exact explained covered filled]
    exact rfl
  | @binary slot op lhs rhs x y held _ _ left right =>
    simp only [Expression.evaluate, Traced.result_bind]
    refine left.bind (right.bind ?_)
    by_cases refused : (mode.checked && op.isChecked &&
        op.isInvalid (values lhs.toNat) (values rhs.toNat)) = true
    · simp only [Expression.operate, refused, if_true]
      simp only [Bool.and_eq_true] at refused
      exact .operator held refused.1.1 refused.1.2 refused.2
    · simp only [Expression.operate, refused, Bool.false_eq_true, if_false]
      exact (explained _ _ held trivial).symm
  | @conditional slot x y cond first second condition held _ _ _ selected other decided =>
    simp only [Expression.evaluate, Traced.result_bind]
    refine decided.bind ?_
    have reported : ∀ side,
        (Expression.reportIf slot mode.profile side).result = .ok () := by
      intro side
      cases mode.profile <;> rfl
    have value := explained _ _ held trivial
    by_cases positive : Number.positive (values cond.toNat) = true
    · simp only [positive, if_true, Traced.result_bind, reported]
      rw [Node.eager, if_pos positive] at value
      exact value ▸ selected
    · simp only [positive, Bool.false_eq_true, if_false, Traced.result_bind, reported]
      rw [Node.eager, if_neg positive] at value
      exact value ▸ other
  | @guarded slot branch cond taken kept condition held _ _ continued decided =>
    simp only [Expression.evaluate, Traced.result_bind]
    refine decided.bind ?_
    by_cases agrees : Number.positive (values cond.toNat) = taken
    · simp only [agrees, beq_self_eq_true, if_true]
      have value : values slot = values branch.toNat := explained _ _ held agrees
      exact value ▸ continued
    · have opposed : (Number.positive (values cond.toNat) == taken) = false := by
        simpa using agrees
      simp only [opposed, Bool.false_eq_true, if_false]
      exact .guarded held agrees

/-- Filling temporaries settles on the values of their slots. Each step reads only temporaries that
hold the values of their slots already. -/
theorem Expression.Fills.fill_settles {filled : List Nat} {steps : List (Expression α)}
    (fills : Expression.Fills nodes mode filled steps slots)
    (explained : nodes.Explains inputs values) (covered : nodes.Covered inputs) :
    Settles (nodes.Blames mode values) ((filled ++ slots).map values).toArray
      (Compiled.fill inputs steps (filled.map values).toArray).result := by
  induction fills with
  | done => simp [Compiled.fill, pure, Traced.ofResult, Settles]
  | @next filled slots slot step steps unfolds _ inductionHypothesis =>
    simp only [Compiled.fill, Traced.result_bind]
    have read : ∀ index slot : Nat, filled[index]? = some slot →
        (filled.map values).toArray[index]? = some (values slot) := by
      intro index slot listed
      simp [listed]
    refine (unfolds.evaluate_settles explained covered read).bind ?_
    simpa using inductionHypothesis

/-- Reading leaves one after another gives the values that each of them has. -/
theorem Compiled.read_all_exact (frame : Frame α) (leaves : List (Value α)) (expected : List α)
    (counted : leaves.length = expected.length)
    (read : ∀ (index : Nat) (leaf : Value α) (value : α), leaves[index]? = some leaf →
      expected[index]? = some value → leaf.read frame = .ok value) :
    Compiled.readAll frame leaves = .ok expected := by
  induction leaves generalizing expected with
  | nil =>
    cases expected with
    | nil => rfl
    | cons value others => simp at counted
  | cons leaf rest inductionHypothesis =>
    cases expected with
    | nil => simp at counted
    | cons value others =>
      have first : leaf.read frame = .ok value := read 0 leaf value rfl rfl
      have remaining : Compiled.readAll frame rest = .ok others :=
        inductionHypothesis others (by simpa using counted)
          fun index leaf value found given => read (index + 1) leaf value found given
      simp [Compiled.readAll, first, remaining, Except.map]

end Evaluation

namespace Program

/-- Once the temporaries are filled, the outputs that the buffer holds can be read. -/
theorem Linked.read_outputs {nodes : Program α} {outputs : Nat} {mode : Mode}
    {program : Compiled α} {slots : List Nat} (linked : Linked nodes outputs mode program slots)
    {inputs : Array α} {values : Nat → α} (explained : Explains inputs values nodes)
    (covered : Covered nodes inputs) (buffer : Array α) :
    Compiled.readAll ⟨inputs, (slots.map values).toArray⟩ (program.outputs.take buffer.size) =
      .ok (leadingOutputs values (nodes.size - outputs) outputs buffer) := by
  have filled : ∀ index slot : Nat, slots[index]? = some slot →
      (slots.map values).toArray[index]? = some (values slot) := by
    intro index slot listed
    simp [listed]
  apply Compiled.read_all_exact
  · simp [leadingOutputs, linked.outputCount]
  · intro index leaf value found given
    have inside : index < buffer.size := by
      have bound := (List.getElem?_eq_some_iff.mp found).1
      rw [List.length_take] at bound
      omega
    rw [List.getElem?_take, if_pos inside] at found
    rw [(linked.outputLeads index leaf found).read_exact explained covered filled]
    obtain ⟨_, same⟩ := List.getElem?_eq_some_iff.mp given
    exact congrArg Except.ok (by simpa [leadingOutputs] using same)

/-- Running a compiled program settles on the buffer whose leading cells hold the values of the
output slots. -/
theorem Linked.run_settles {nodes : Program α} {outputs : Nat} {mode : Mode}
    {program : Compiled α} {slots : List Nat} (linked : Linked nodes outputs mode program slots)
    {inputs : Array α} {values : Nat → α} (explained : Explains inputs values nodes)
    (sufficient : program.arity ≤ inputs.size) (buffer : Array α) :
    Settles (Blames nodes mode values)
      (overwritten values (nodes.size - outputs) outputs buffer)
      (program.run inputs buffer).result := by
  have covered : Covered nodes inputs := fun slot parameter held =>
    Nat.lt_of_lt_of_le (linked.covers slot parameter held) sufficient
  have settled := linked.fills.fill_settles explained covered
  simp only [Compiled.run, Traced.result_bind]
  refine settled.bind ?_
  rw [List.nil_append, linked.read_outputs explained covered buffer]
  exact leading_outputs_append values (nodes.size - outputs) outputs buffer

/-- A run that comes to an end leaves the values that a valuation predicts. -/
theorem Linked.run_exact {nodes : Program α} {outputs : Nat} {mode : Mode}
    {program : Compiled α} {slots : List Nat} (linked : Linked nodes outputs mode program slots)
    {inputs : Array α} {values : Nat → α} (explained : Explains inputs values nodes)
    (sufficient : program.arity ≤ inputs.size) {buffer results : Array α}
    (ended : (program.run inputs buffer).result = .ok results) :
    results = overwritten values (nodes.size - outputs) outputs buffer := by
  have settled := linked.run_settles explained sufficient buffer
  rw [ended] at settled
  exact settled

/-- When all guards agree and no operator is checked, there is nothing to blame. -/
theorem blames_nothing {nodes : Program α} {mode : Mode} {values : Nat → α}
    (agrees : Agrees nodes values) (unchecked : mode.checked = false) (halt : Halt) :
    ¬ Blames nodes mode values halt := by
  intro blamed
  cases blamed with
  | guarded held opposed => exact opposed (agrees _ _ held)
  | operator _ checked _ _ => simp [unchecked] at checked

/-- When all guards agree with the eager values and no operator is checked, the compiled form of a
program ends with the eager values of its output slots in the leading cells of the buffer.
Instrumentation does not matter for the result. -/
theorem run_agreeing {nodes : Program α} {outputs : Nat} {mode : Mode} {program : Compiled α}
    (compiled : compile nodes outputs mode = .ok program) (unchecked : mode.checked = false)
    {inputs : Array α} (agrees : Agrees nodes (eager inputs nodes))
    (sufficient : program.arity ≤ inputs.size) (buffer : Array α) :
    (program.run inputs buffer).result =
      .ok (overwritten (eager inputs nodes) (nodes.size - outputs) outputs buffer) := by
  obtain ⟨ready, slots, linked⟩ := linked_of_compile compiled
  exact (linked.run_settles (eager_explains inputs nodes ready.valid) sufficient buffer).ended
    (blames_nothing agrees unchecked)

/-- Without guards and checks, the compiled form of a program always ends with the eager values. -/
theorem run_unguarded {nodes : Program α} {outputs : Nat} {mode : Mode} {program : Compiled α}
    (compiled : compile nodes outputs mode = .ok program) (unguarded : Unguarded nodes)
    (unchecked : mode.checked = false) {inputs : Array α}
    (sufficient : program.arity ≤ inputs.size) (buffer : Array α) :
    (program.run inputs buffer).result =
      .ok (overwritten (eager inputs nodes) (nodes.size - outputs) outputs buffer) :=
  run_agreeing compiled unchecked (agrees_of_unguarded unguarded _) sufficient buffer

/-- Compiled code refines plain evaluation. Without guards and checks it always comes to an end on
inputs that reach its arity. Each cell of the buffer that belongs to an output then holds exactly
the value that eager evaluation gives to the output's slot, and the cells past the outputs keep
their content. -/
theorem compiled_code_refines_evaluation (nodes : Program α) (outputs : Nat)
    (program : Compiled α) (inputs buffer : Array α)
    (compiled : compile nodes outputs { checked := false, profile := none } = .ok program)
    (unguarded : Unguarded nodes) (sufficient : program.arity ≤ inputs.size) :
    ∃ results, (program.run inputs buffer).result = .ok results ∧
      results.size = buffer.size ∧
      (∀ index, index < min buffer.size outputs →
        results[index]? = some (eager inputs nodes (nodes.size - outputs + index))) ∧
      ∀ index, outputs ≤ index → results[index]? = buffer[index]? := by
  refine ⟨_, run_unguarded compiled unguarded rfl sufficient buffer, overwritten_size .., ?_, ?_⟩
  · intro index inside
    exact overwritten_output _ _ _ buffer index (by omega) (by omega)
  · intro index beyond
    exact overwritten_rest _ _ _ buffer index beyond

/-- A sum that is shared and renamed, a hole, a dead difference, and a conditional whose product
stays inside it. -/
def sharedSum : Program Float :=
  #[some (.argument 0), some (.argument 1), none, some (.binary .add 0 1), some (.move 3),
    some (.binary .sub 4 1), some (.binary .mul 3 0), some (.conditional 6 4 1)]

/-- The sum and the output have temporaries, and the product is evaluated in its only reader. -/
theorem shared_sum_refines :
    ∃ program results,
      compile sharedSum 1 { checked := false, profile := none } = .ok program ∧
      Unguarded sharedSum ∧ program.arity ≤ #[2.0, (3.0 : Float)].size ∧
      (program.run #[2.0, 3.0] #[0.0, 7.0]).result = .ok results ∧
      results[0]? = some 10.0 ∧ results[1]? = some 7.0 := by
  have compiled : compile sharedSum 1 { checked := false, profile := none } = .ok
      ⟨[.binary 3 false .add (.value (.input 0)) (.value (.input 1)),
        .conditional 7 none
          (.binary 6 false .mul (.value (.temporary 0)) (.value (.input 0)))
          (.value (.temporary 0)) (.value (.input 1))], [.temporary 1], 2⟩ := by rfl
  obtain ⟨results, ran, _, replaced, kept⟩ := compiled_code_refines_evaluation sharedSum 1 _
    #[2.0, 3.0] #[0.0, 7.0] compiled (by decide) (by decide)
  have output : eager #[2.0, 3.0] sharedSum 7 = 10.0 := by decide +kernel
  exact ⟨_, results, compiled, by decide, by decide, ran,
    (replaced 0 (by decide)).trans (congrArg some output), kept 1 (by decide)⟩

end Program

end ProgramSearch
