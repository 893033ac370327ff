import ProgramSearch.Proofs.Program.Checking
import ProgramSearch.Proofs.Program.Knowledge

/-!
# What is known before a run

A value that is known of a node without any inputs is the value that eager evaluation gives to the
node, whatever the inputs are. Nothing is known of an argument; of a conditional, the condition and
the selected side have to be known, and the other side may depend on the inputs; a guard has a known
value only if its condition is known to agree.

An operator that is known to be invalid therefore has eager operands outside its domain on all
inputs. Checked code refuses it as soon as it has evaluated both of its operands, and blames no slot
that it did not get to in this way.
-/

namespace ProgramSearch

variable {α : Type} [Number α]

/-- What is known of a slot predicts the value of the slot. -/
def Known.Predicts (values : Nat → α) (slot : Nat) (known : Known α) : Prop :=
  ∀ value, known.value = some value → values slot = value

section Knowledge

variable {prior : Prior α} {values : Nat → α}

omit [Number α] in
/-- A known operand has the value that is known of it. -/
theorem Prior.Every.operand_predicted (predicts : prior.Every (Known.Predicts values))
    {read : UInt16} {value : α} (known : prior.value? read = some value) :
    values read.toNat = value := by
  obtain ⟨found, lookup, valued⟩ := Option.bind_eq_some_iff.mp known
  exact predicts read.toNat found lookup value valued

/-- A node that is known to have a value computes it from its operands, if what is known of these
predicts them. A guard that has a known value is known to agree. -/
theorem Prior.Every.node_predicted (predicts : prior.Every (Known.Predicts values))
    (inputs : Array α) {node : Node α} {value : α} (known : node.value? prior = some value) :
    node.Agrees values ∧ node.eager inputs values = value := by
  cases node with
  | constant given => exact ⟨trivial, Option.some.inj known⟩
  | argument parameter => cases known
  | binary op lhs rhs =>
    obtain ⟨x, knownLeft, rest⟩ := Option.bind_eq_some_iff.mp known
    obtain ⟨y, knownRight, rfl⟩ := Option.map_eq_some_iff.mp rest
    refine ⟨trivial, ?_⟩
    rw [Node.eager, predicts.operand_predicted knownLeft, predicts.operand_predicted knownRight]
  | move target => exact ⟨trivial, predicts.operand_predicted known⟩
  | conditional x y cond =>
    obtain ⟨z, decided, selected⟩ := Option.bind_eq_some_iff.mp known
    refine ⟨trivial, ?_⟩
    rw [Node.eager, predicts.operand_predicted decided]
    split at selected
    · rename_i positive
      rw [if_pos positive]
      exact predicts.operand_predicted selected
    · rename_i other
      rw [if_neg other]
      exact predicts.operand_predicted selected
  | guarded branch cond taken =>
    obtain ⟨z, decided, selected⟩ := Option.bind_eq_some_iff.mp known
    split at selected
    · rename_i agrees
      refine ⟨?_, predicts.operand_predicted selected⟩
      rw [Node.Agrees, predicts.operand_predicted decided]
      exact beq_iff_eq.mp agrees
    · cases selected

/-- An operator that is known to be invalid has a domain, and the values of its operands lie outside
of it. Only one of the operands needs to be known. -/
theorem Prior.Every.invalid_predicted (predicts : prior.Every (Known.Predicts values))
    {node : Node α} (invalid : node.isStaticInvalid prior = true) :
    ∃ op lhs rhs, node = .binary op lhs rhs ∧ op.isChecked = true ∧
      op.isInvalid (values lhs.toNat) (values rhs.toNat) = true := by
  cases node with
  | binary op lhs rhs =>
    refine ⟨op, lhs, rhs, rfl, ?_⟩
    cases op with
    | add | sub | mul => cases invalid
    | div | mod | log =>
      obtain ⟨y, known, outside⟩ := (Option.any_eq_true _ _).mp invalid
      rw [predicts.operand_predicted known]
      exact ⟨rfl, outside⟩
    | pow =>
      obtain ⟨x, known, outside⟩ := (Option.any_eq_true _ _).mp invalid
      rw [predicts.operand_predicted known]
      exact ⟨rfl, outside⟩
  | constant | argument | move | conditional | guarded => cases invalid

end Knowledge

namespace Program

/-- What is known of the leading slots of a valid program predicts their eager values.

The induction is on the number of slots. A slot is added with what is known of its node from the
slots before it, which predicts these. -/
theorem prior_predicts {nodes : Program α} (valid : Valid nodes) (inputs : Array α) (count : Nat)
    (inside : count ≤ nodes.size) :
    (prior (nodes.extract 0 count)).Every (Known.Predicts (eager inputs nodes)) := by
  induction count with
  | zero =>
    rw [Array.extract_zero]
    exact Prior.every_empty _
  | succ count inductionHypothesis =>
    have before := inductionHypothesis (Nat.le_of_succ_le inside)
    rw [prior_extract_succ nodes count inside]
    refine Prior.every_extend before _ fun node held value known => ?_
    rw [prior_size, Array.size_extract, Nat.min_eq_left (Nat.le_of_succ_le inside), Nat.sub_zero,
      eager_exact inputs nodes valid count node ((node_inside nodes count inside).trans held)]
    exact (before.node_predicted inputs known).2

end Program

/-- The evaluation gets to the operator in a slot: both operands are evaluated to the end, and
nothing has stopped the evaluation before. -/
inductive Expression.Operates (frame : Frame α) (slot : Nat) : Expression α → Prop where
  | here {checked : Bool} {op : Operator} {lhs rhs : Expression α} {x y : α} :
      (lhs.evaluate frame).result = .ok x → (rhs.evaluate frame).result = .ok y →
        Operates frame slot (.binary slot checked op lhs rhs)
  | left {other : Nat} {checked : Bool} {op : Operator} {lhs rhs : Expression α} :
      Operates frame slot lhs → Operates frame slot (.binary other checked op lhs rhs)
  | right {other : Nat} {checked : Bool} {op : Operator} {lhs rhs : Expression α} {x : α} :
      (lhs.evaluate frame).result = .ok x → Operates frame slot rhs →
        Operates frame slot (.binary other checked op lhs rhs)
  | decided {other : Nat} {profile : Option Nat} {x y cond : Expression α} :
      Operates frame slot cond → Operates frame slot (.conditional other profile x y cond)
  | selected {other : Nat} {profile : Option Nat} {x y cond : Expression α} {z : α} :
      (cond.evaluate frame).result = .ok z →
      Operates frame slot (if Number.positive z then x else y) →
        Operates frame slot (.conditional other profile x y cond)
  | guarded {other : Nat} {taken : Bool} {branch cond : Expression α} :
      Operates frame slot cond → Operates frame slot (.guarded other taken branch cond)
  | continued {other : Nat} {taken : Bool} {branch cond : Expression α} {z : α} :
      (cond.evaluate frame).result = .ok z → Number.positive z = taken →
      Operates frame slot branch → Operates frame slot (.guarded other taken branch cond)

namespace Compiled

/-- One of the steps gets to the operator in a slot after those before it came to an end. -/
inductive StepsOperate (inputs : Array α) (slot : Nat) :
    List (Expression α) → Array α → Prop where
  | first {step : Expression α} {rest : List (Expression α)} {temporaries : Array α} :
      step.Operates ⟨inputs, temporaries⟩ slot → StepsOperate inputs slot (step :: rest) temporaries
  | later {step : Expression α} {rest : List (Expression α)} {temporaries : Array α} {value : α} :
      (step.evaluate ⟨inputs, temporaries⟩).result = .ok value →
      StepsOperate inputs slot rest (temporaries.push value) →
        StepsOperate inputs slot (step :: rest) temporaries

/-- A run evaluates the operator in a slot, and no signal has stopped it before. -/
def Operates (program : Compiled α) (inputs : Array α) (slot : Nat) : Prop :=
  StepsOperate inputs slot program.steps #[]

end Compiled

/-- A slot is blamed when the execution is stopped by an invalid operation there. -/
def Blamed {β : Type} (slot : Nat) (result : Except Halt β) : Prop :=
  ∃ number : UInt16, number.toNat = slot ∧ result = .error (.signal (.invalidOperation number))

namespace Blamed

variable {β γ : Type} {slot : Nat} {first : Except Halt β} {next : β → Except Halt γ}

/-- What is blamed in the first part of a sequence is blamed in the sequence. -/
theorem early (blamed : Blamed slot first) : Blamed slot (first >>= next) := by
  obtain ⟨number, same, rfl⟩ := blamed
  exact ⟨number, same, rfl⟩

/-- What is blamed after the first part came to an end is blamed in the sequence. -/
theorem late {value : β} (ended : first = .ok value) (blamed : Blamed slot (next value)) :
    Blamed slot (first >>= next) := by
  rw [ended]
  exact blamed

/-- What is blamed in a sequence is blamed in its first part or after that. -/
theorem of_bind (blamed : Blamed slot (first >>= next)) :
    Blamed slot first ∨ ∃ value, first = .ok value ∧ Blamed slot (next value) := by
  obtain ⟨number, same, stopped⟩ := blamed
  rcases (Refusal.bind_refused_iff _ _ _).mp stopped with early | ⟨value, ended, late⟩
  · exact .inl ⟨number, same, early⟩
  · exact .inr ⟨value, ended, number, same, late⟩

end Blamed

section Evaluation

variable {nodes : Program α} {mode : Program.Mode} {slots : List Nat} {values : Nat → α}
  {inputs temporaries : Array α} {slot : Nat}

omit [Number α] in
/-- Reporting a selection does not stop an execution. -/
theorem Expression.report_ends (slot : Nat) (profile : Option Nat) (taken : Bool) :
    (reportIf slot profile taken).result = .ok () := by
  cases profile <;> rfl

/-- An operator that offends is blamed when checked code gets to it.

The induction follows the way to the operator. What was evaluated on the way came to an end, so the
signal of the operator is the first one. -/
theorem Expression.Operates.blamed {expression : Expression α}
    (operates : expression.Operates ⟨inputs, temporaries⟩ slot) {place : Nat}
    (unfolds : expression.Unfolds nodes mode slots place) (checked : mode.checked = true)
    (explained : nodes.Explains inputs values) (covered : nodes.Covered inputs)
    (filled : ∀ index slot : Nat, slots[index]? = some slot →
      temporaries[index]? = some (values slot))
    (offends : nodes.Offends values slot) (addressable : nodes.size ≤ 2 ^ 16) :
    Blamed slot (expression.evaluate ⟨inputs, temporaries⟩).result := by
  induction operates generalizing place with
  | here evaluatedLeft evaluatedRight =>
    cases unfolds with
    | @binary _ op lhs rhs x y held left right =>
      obtain ⟨_, _, _, same, domain, outside⟩ := offends
      cases held.symm.trans same
      have settledLeft := left.evaluate_settles explained covered filled
      have settledRight := right.evaluate_settles explained covered filled
      rw [evaluatedLeft] at settledLeft
      rw [evaluatedRight] at settledRight
      simp only [Expression.evaluate, Traced.result_bind]
      -- The operands came to their eager values, and those are the values that offend.
      refine .late evaluatedLeft (.late evaluatedRight ?_)
      rw [settledLeft, settledRight]
      refine ⟨UInt16.ofNat slot, UInt16.toNat_ofNat_of_lt'
        (Nat.lt_of_lt_of_le (Program.node_bound nodes slot _ held) addressable), ?_⟩
      simp only [operate, checked, domain, outside, Bool.and_true, if_true]
      rfl
  | left _ inductionHypothesis =>
    cases unfolds with
    | binary _ left _ =>
      simp only [Expression.evaluate, Traced.result_bind]
      exact .early (inductionHypothesis left)
  | right evaluated _ inductionHypothesis =>
    cases unfolds with
    | binary _ _ right =>
      simp only [Expression.evaluate, Traced.result_bind]
      exact .late evaluated (.early (inductionHypothesis right))
  | decided _ inductionHypothesis =>
    cases unfolds with
    | conditional _ _ _ decides =>
      rw [evaluate_conditional, Traced.result_bind]
      exact .early (inductionHypothesis decides)
  | @selected other profile first second condition z evaluated _ inductionHypothesis =>
    cases unfolds with
    | @conditional _ x y _ _ _ _ _ onPositive onOther _ =>
      have side : (if Number.positive z then first else second).Unfolds nodes mode slots
          (if Number.positive z then x else y).toNat := by
        split
        · exact onPositive
        · exact onOther
      rw [evaluate_conditional, Traced.result_bind]
      refine .late evaluated ?_
      rw [Traced.result_bind]
      exact .late (report_ends ..) (inductionHypothesis side)
  | guarded _ inductionHypothesis =>
    cases unfolds with
    | guarded _ _ decides =>
      simp only [Expression.evaluate, Traced.result_bind]
      exact .early (inductionHypothesis decides)
  | continued evaluated agrees _ inductionHypothesis =>
    cases unfolds with
    | guarded _ continues _ =>
      simp only [Expression.evaluate, Traced.result_bind]
      refine .late evaluated ?_
      rw [if_pos (beq_iff_eq.mpr agrees)]
      exact inductionHypothesis continues

/-- Checked code that blames a slot got to the operator there.

The induction follows the expression. Guards bail out and leaves lack an input, so only operators
blame, and each blames its own slot. -/
theorem Expression.Unfolds.operates {expression : Expression α} {place : Nat}
    (unfolds : expression.Unfolds nodes mode slots place) (addressable : nodes.size ≤ 2 ^ 16)
    (blamed : Blamed slot (expression.evaluate ⟨inputs, temporaries⟩).result) :
    expression.Operates ⟨inputs, temporaries⟩ slot := by
  induction unfolds with
  | @value _ leaf leads =>
    obtain ⟨number, _, stopped⟩ := blamed
    change leaf.read ⟨inputs, temporaries⟩ = _ at stopped
    have unread : Compiled.readAll ⟨inputs, temporaries⟩ [leaf] =
        .error (.signal (.invalidOperation number)) := by rw [Compiled.readAll, stopped]
    cases Compiled.read_all_halts _ _ _ unread
  | @binary place op lhs rhs x y held _ _ left right =>
    simp only [Expression.evaluate, Traced.result_bind] at blamed
    rcases blamed.of_bind with early | ⟨first, evaluatedLeft, blamed⟩
    · exact .left (left early)
    rcases blamed.of_bind with early | ⟨second, evaluatedRight, blamed⟩
    · exact .right evaluatedLeft (right early)
    obtain ⟨number, same, stopped⟩ := blamed
    unfold operate at stopped
    split at stopped
    · cases stopped
      have own : (UInt16.ofNat place).toNat = place := UInt16.toNat_ofNat_of_lt'
        (Nat.lt_of_lt_of_le (Program.node_bound nodes place _ held) addressable)
      rw [← same, own]
      exact .here evaluatedLeft evaluatedRight
    · cases stopped
  | @conditional place x y cond first second condition held _ _ _ onPositive onOther decided =>
    rw [evaluate_conditional, Traced.result_bind] at blamed
    rcases blamed.of_bind with early | ⟨z, evaluated, blamed⟩
    · exact .decided (decided early)
    rw [Traced.result_bind, report_ends, Refusal.ok_bind] at blamed
    refine .selected evaluated ?_
    split at blamed
    · rename_i positive
      rw [if_pos positive]
      exact onPositive blamed
    · rename_i other
      rw [if_neg other]
      exact onOther blamed
  | guarded held _ _ continued decided =>
    simp only [Expression.evaluate, Traced.result_bind] at blamed
    rcases blamed.of_bind with early | ⟨z, evaluated, blamed⟩
    · exact .guarded (decided early)
    split at blamed
    · rename_i agrees
      exact .continued evaluated (beq_iff_eq.mp agrees) (continued blamed)
    · obtain ⟨number, _, stopped⟩ := blamed
      cases stopped

/-- An operator that offends is blamed when the steps of checked code get to it. -/
theorem Expression.Fills.operated_blamed {filled : List Nat} {steps : List (Expression α)}
    (fills : Expression.Fills nodes mode filled steps slots) (checked : mode.checked = true)
    (explained : nodes.Explains inputs values) (covered : nodes.Covered inputs)
    (offends : nodes.Offends values slot) (addressable : nodes.size ≤ 2 ^ 16)
    (operates : Compiled.StepsOperate inputs slot steps (filled.map values).toArray) :
    Blamed slot (Compiled.fill inputs steps (filled.map values).toArray).result := by
  induction fills with
  | done => cases operates
  | @next filled slots place step steps unfolds _ inductionHypothesis =>
    have read : ∀ index slot : Nat, filled[index]? = some slot →
        (filled.map values).toArray[index]? = some (values slot) := by
      intro index slot listed
      simp [listed]
    simp only [Compiled.fill, Traced.result_bind]
    cases operates with
    | first operates =>
      exact .early (operates.blamed unfolds checked explained covered read offends addressable)
    | @later _ _ _ value evaluated operates =>
      have settled := unfolds.evaluate_settles explained covered read
      rw [evaluated] at settled
      obtain rfl : value = values place := settled
      refine .late evaluated ?_
      simpa using inductionHypothesis (by simpa using operates)

/-- Steps that blame a slot got to the operator there. -/
theorem Expression.Fills.blamed_operates {filled : List Nat} {steps : List (Expression α)}
    (fills : Expression.Fills nodes mode filled steps slots) (addressable : nodes.size ≤ 2 ^ 16)
    (blamed : Blamed slot (Compiled.fill inputs steps temporaries).result) :
    Compiled.StepsOperate inputs slot steps temporaries := by
  induction fills generalizing temporaries with
  | done =>
    obtain ⟨_, _, stopped⟩ := blamed
    cases stopped
  | next unfolds _ inductionHypothesis =>
    simp only [Compiled.fill, Traced.result_bind] at blamed
    rcases blamed.of_bind with early | ⟨value, evaluated, late⟩
    · exact .first (unfolds.operates addressable early)
    · exact .later evaluated (inductionHypothesis late)

end Evaluation

namespace Program

/-- An operator with eager operands outside its domain is blamed by a checked run exactly when the
run gets to it. -/
theorem blamed_iff_operates {nodes : Program α} {outputs : Nat} {mode : Mode}
    {program : Compiled α} (compiled : compile nodes outputs mode = .ok program)
    (checked : mode.checked = true) (addressable : nodes.size ≤ 2 ^ 16) {inputs : Array α}
    (sufficient : program.arity ≤ inputs.size) (buffer : Array α) {slot : Nat}
    (offends : Offends nodes (eager inputs nodes) slot) :
    Blamed slot (program.run inputs buffer).result ↔ program.Operates inputs slot := by
  obtain ⟨ready, slots, linked⟩ := linked_of_compile compiled
  rw [Compiled.run, Traced.result_bind]
  constructor
  · intro blamed
    rcases blamed.of_bind with early | ⟨temporaries, _, number, _, stopped⟩
    · exact linked.fills.blamed_operates addressable early
    · rw [Traced.result_bind] at stopped
      rcases (Refusal.bind_refused_iff _ _ _).mp stopped with unread | ⟨_, _, never⟩
      · cases Compiled.read_all_halts _ _ _ unread
      · cases never
  · intro operates
    have covered : Covered nodes inputs := fun slot parameter held =>
      Nat.lt_of_lt_of_le (linked.covers slot parameter held) sufficient
    exact .early (linked.fills.operated_blamed checked (eager_explains inputs nodes ready.valid)
      covered offends addressable operates)

/-- What is known of a node of a valid program predicts every execution. A known value is the eager
value of the node on all inputs, and a guard with a known value agrees on all inputs. An operator
that is known to be invalid has eager operands outside its domain on all inputs; a checked run that
gets to it, with both operands evaluated and no signal before, is stopped there and blames it, and
blames it in no other case. -/
theorem static_evaluation_predicts_execution (nodes : Program α) (slot : Nat) (node : Node α)
    (accepted : validate nodes = .ok ()) (held : node? nodes slot = some node) :
    (∀ value, node.value? (prior (nodes.extract 0 slot)) = some value →
      ∀ inputs, eager inputs nodes slot = value ∧ node.Agrees (eager inputs nodes)) ∧
    (node.isStaticInvalid (prior (nodes.extract 0 slot)) = true →
      (∀ inputs, Offends nodes (eager inputs nodes) slot) ∧
      ∀ outputs mode program, nodes.size ≤ 2 ^ 16 → mode.checked = true →
        compile nodes outputs mode = .ok program →
        ∀ inputs buffer, program.arity ≤ inputs.size →
          (program.Operates inputs slot ↔ ∃ number : UInt16, number.toNat = slot ∧
            (program.run inputs buffer).result = .error (.signal (.invalidOperation number)))) := by
  have valid := (validate_ok_iff nodes).mp accepted
  have predicts := fun inputs : Array α =>
    prior_predicts valid inputs slot (Nat.le_of_lt (node_bound nodes slot node held))
  constructor
  · intro value known inputs
    obtain ⟨agrees, same⟩ := (predicts inputs).node_predicted inputs known
    exact ⟨(eager_exact inputs nodes valid slot node held).trans same, agrees⟩
  · intro invalid
    have offends : ∀ inputs, Offends nodes (eager inputs nodes) slot := fun inputs => by
      obtain ⟨op, lhs, rhs, rfl, domain, outside⟩ := (predicts inputs).invalid_predicted invalid
      exact ⟨op, lhs, rhs, held, domain, outside⟩
    exact ⟨offends, fun outputs mode program addressable checked compiled inputs buffer sufficient =>
      (blamed_iff_operates compiled checked addressable sufficient buffer (offends inputs)).symm⟩

/-- A sum that does not depend on the inputs is the divisor of a quotient, and only the positive side
of a conditional reads the quotient. -/
def hiddenQuotient : Program Small :=
  #[some (.argument 0), some (.constant (Small.ofInt 0)), some (.binary .add 1 1),
    some (.binary .div 0 2), some (.conditional 3 1 0)]

/-- The sum is zero on all inputs, and so the quotient offends on all of them. A checked run with a
positive input gets to the quotient and blames it; with a negative one it gets to the end. -/
theorem hidden_quotient_predicted :
    ∃ program,
      validate hiddenQuotient = .ok () ∧ hiddenQuotient.size ≤ 2 ^ 16 ∧
      compile hiddenQuotient 1 { checked := true, profile := none } = .ok program ∧
      (∀ inputs, eager inputs hiddenQuotient 2 = Small.ofInt 0) ∧
      (∀ inputs, Offends hiddenQuotient (eager inputs hiddenQuotient) 3) ∧
      program.Operates #[Small.ofInt 1] 3 ∧
      Blamed 3 (program.run #[Small.ofInt 1] #[.undefined]).result ∧
      ¬ program.Operates #[Small.ofInt (-1)] 3 ∧
      (program.run #[Small.ofInt (-1)] #[.undefined]).result = .ok #[Small.ofInt 0] := by
  obtain ⟨program, compiled, arity, refused, skipped⟩ : ∃ program,
      compile hiddenQuotient 1 { checked := true, profile := none } = .ok program ∧
        program.arity = 1 ∧
        (program.run #[Small.ofInt 1] #[.undefined]).result =
          .error (.signal (.invalidOperation 3)) ∧
        (program.run #[Small.ofInt (-1)] #[.undefined]).result = .ok #[Small.ofInt 0] :=
    ⟨_, rfl, rfl, rfl, rfl⟩
  have accepted : validate hiddenQuotient = .ok () := rfl
  have addressable : hiddenQuotient.size ≤ 2 ^ 16 := by decide
  obtain ⟨known, _⟩ :=
    static_evaluation_predicts_execution hiddenQuotient 2 (.binary .add 1 1) accepted rfl
  obtain ⟨_, invalid⟩ :=
    static_evaluation_predicts_execution hiddenQuotient 3 (.binary .div 0 2) accepted rfl
  obtain ⟨offends, blames⟩ := invalid (by decide +kernel)
  have exact := fun input : Small =>
    blames 1 _ program addressable rfl compiled #[input] #[.undefined] (Nat.le_of_eq arity)
  have reached : program.Operates #[Small.ofInt 1] 3 := (exact _).mpr ⟨3, rfl, refused⟩
  refine ⟨program, accepted, addressable, compiled,
    fun inputs => (known _ (by decide +kernel) inputs).1, offends, reached, (exact _).mp reached,
    fun operates => ?_, skipped⟩
  obtain ⟨number, _, stopped⟩ := (exact _).mp operates
  rw [skipped] at stopped
  cases stopped

end Program

end ProgramSearch
