import ProgramSearch.Proofs.Number.Small
import ProgramSearch.Proofs.Program.Acceptance
import ProgramSearch.Proofs.Program.Execution
import ProgramSearch.Proofs.Program.Optimization

/-!
# Simplifying keeps finite results

A program is measured against fixed values of its slots, those that eager evaluation gave before any
simplification, and only where they are demanded. A node yields a value when it computes a
numerically equal one from these fixed values, all operands that it needs for it are demanded, and a
guard agrees. A program supports the values when every demanded node yields the value of its slot.

Every simplification turns a node that yields a finite value into one that yields it too. Because
the values stay the same throughout, rounds compose: nothing is compared with the values that an
intermediate program would compute. What a supporting program computes itself then follows once, by
induction over its slots.
-/

namespace ProgramSearch

variable {α : Type} [Number α]

namespace Node

/-- The operands that a node needs when the slots have the given values: a conditional does not need
the side that is not selected. -/
def needs (values : Nat → α) : Node α → List UInt16
  | conditional x y cond => [cond, if Number.positive (values cond.toNat) then x else y]
  | node => node.reads

/-- A node needs nothing that it does not read. -/
theorem needs_read (values : Nat → α) (node : Node α) (read : UInt16)
    (needed : read ∈ node.needs values) : read ∈ node.reads := by
  cases node with
  | conditional x y cond =>
    simp only [needs, List.mem_cons, List.not_mem_nil, or_false] at needed
    rcases needed with rfl | rfl
    · simp [reads]
    · split <;> simp [reads]
  | constant | argument | binary | move | guarded => exact needed

/-- From the given values of the slots, a node computes a number that is numerically equal to the
target, needs demanded slots only, and agrees if it is a guard. -/
structure Yields (inputs : Array α) (values : Nat → α) (demanded : Nat → Prop) (target : α)
    (node : Node α) : Prop where
  agrees : node.Agrees values
  equal : Number.equal (node.eager inputs values) target = true
  needed : ∀ read ∈ node.needs values, demanded read.toNat

end Node

/-- What is known of a slot is sound for a target: the node and its simplest form yield it, and a
known value is numerically equal to it. -/
structure Known.Sound (inputs : Array α) (values : Nat → α) (demanded : Nat → Prop) (target : α)
    (known : Known α) : Prop where
  node : known.node.Yields inputs values demanded target
  form : known.form.Yields inputs values demanded target
  value : ∀ number, known.value = some number → Number.equal number target = true

namespace Program

/-- Every demanded node of a program yields the value of its slot. -/
def Supports (inputs : Array α) (values : Nat → α) (demanded : Nat → Prop) (nodes : Program α) :
    Prop :=
  ∀ slot node, demanded slot → node? nodes slot = some node →
    node.Yields inputs values demanded (values slot)

/-- What is known of a slot is sound for the value of the slot if that is demanded. -/
def SoundKnown (inputs : Array α) (values : Nat → α) (demanded : Nat → Prop) (slot : Nat)
    (known : Known α) : Prop :=
  demanded slot → known.Sound inputs values demanded (values slot)

end Program

section Simplification

variable {inputs : Array α} {values : Nat → α} {demanded : Nat → Prop} {prior : Prior α}
  {target : α}

namespace Node

/-- A constant yields what it is numerically equal to. -/
theorem constant_yields {number : α} (same : Number.equal number target = true) :
    (constant number).Yields inputs values demanded target :=
  ⟨trivial, same, fun _ none => by simp [needs, reads] at none⟩

section Comparison

variable (comparison : Number.ComparisonLaws α)

include comparison

/-- A node that yields a number yields every numerically equal one. -/
theorem Yields.trans {node : Node α} {other : α}
    (yields : node.Yields inputs values demanded target)
    (same : Number.equal target other = true) : node.Yields inputs values demanded other :=
  ⟨yields.agrees, comparison.equal_trans _ _ _ yields.equal same, yields.needed⟩

/-- A node that yields a finite number computes a finite one. -/
theorem Yields.finite {node : Node α} (yields : node.Yields inputs values demanded target)
    (bounded : Number.isFinite target = true) :
    Number.isFinite (node.eager inputs values) = true :=
  comparison.finite_of_equal _ _ (comparison.equal_symm _ _ yields.equal) bounded

variable (finite : ∀ slot, demanded slot → Number.isFinite (values slot) = true)
  (sound : prior.Every (Program.SoundKnown inputs values demanded)) {read : UInt16}

include sound

omit comparison in
/-- The known value of a demanded operand is numerically equal to the value of its slot. -/
theorem operand_sound (demand : demanded read.toNat) {number : α}
    (known : prior.value? read = some number) :
    Number.equal number (values read.toNat) = true := by
  obtain ⟨found, lookup, value⟩ := Option.bind_eq_some_iff.mp known
  exact (sound read.toNat found lookup demand).value number value

/-- What the known value of a demanded operand is numerically equal to, the value of its slot is. -/
theorem operand_equal (demand : demanded read.toNat) {number other : α}
    (known : prior.value? read = some number) (same : Number.equal number other = true) :
    Number.equal (values read.toNat) other = true := by
  have found := operand_sound sound demand known
  exact comparison.equal_trans _ _ _ (comparison.equal_symm _ _ found) same

/-- The known value of a demanded operand is not "not a number", because it is numerically equal to
something. -/
theorem operand_defined (demand : demanded read.toNat) {number : α}
    (known : prior.value? read = some number) : Number.isNaN number = false := by
  have found := operand_sound sound demand known
  have reflexive := comparison.equal_trans _ _ _ found (comparison.equal_symm _ _ found)
  simp [Number.isNaN, reflexive]

include finite

omit sound in
/-- Another name for a demanded slot yields its value. -/
theorem move_yields (demand : demanded read.toNat) :
    (move read).Yields inputs values demanded (values read.toNat) := by
  refine ⟨trivial, comparison.equal_refl _ (finite read.toNat demand), fun other needed => ?_⟩
  obtain rfl : other = read := by simpa [needs, reads] using needed
  exact demand

/-- A node that stands for a demanded slot yields its value. -/
theorem renamed_yields (demand : demanded read.toNat) :
    (prior.renamed read).Yields inputs values demanded (values read.toNat) := by
  unfold Prior.renamed
  split
  · rename_i found lookup
    split
    · exact (sound read.toNat found lookup demand).node
    · exact move_yields comparison finite demand
  · exact move_yields comparison finite demand

/-- A node that stands for the simplest form of a demanded slot yields its value. -/
theorem selected_yields (demand : demanded read.toNat) :
    (prior.selected read).Yields inputs values demanded (values read.toNat) := by
  unfold Prior.selected
  split
  · rename_i found lookup
    split
    · exact (sound read.toNat found lookup demand).form
    · exact move_yields comparison finite demand
  · exact move_yields comparison finite demand

end Comparison

section Arithmetic

variable (comparison : Number.ComparisonLaws α) (arithmetic : Number.ArithmeticLaws α)
  (bounded : Number.isFinite target = true)

include comparison arithmetic bounded

/-- Operands may be replaced by numerically equal ones, since the result is finite. -/
theorem substitute {op : Operator} {lhs rhs : UInt16}
    (yields : (binary op lhs rhs).Yields inputs values demanded target) {x y : α}
    (left : Number.equal (values lhs.toNat) x = true)
    (right : Number.equal (values rhs.toNat) y = true) :
    Number.equal (op.apply x y) target = true := by
  have computed : Number.isFinite (op.apply (values lhs.toNat) (values rhs.toNat)) = true :=
    yields.finite comparison bounded
  have replaced := arithmetic.apply_equal op _ _ x y computed left right
  exact comparison.equal_trans _ _ _ (comparison.equal_symm _ _ replaced) yields.equal

variable (sound : prior.Every (Program.SoundKnown inputs values demanded))

include sound

/-- The known value of a node is numerically equal to the finite number that the node yields. -/
theorem value_sound {node : Node α} (yields : node.Yields inputs values demanded target)
    {number : α} (known : node.value? prior = some number) :
    Number.equal number target = true := by
  cases node with
  | constant value =>
    obtain rfl := Option.some.inj known
    exact yields.equal
  | argument parameter => cases known
  | binary op lhs rhs =>
    obtain ⟨x, knownLeft, rest⟩ := Option.bind_eq_some_iff.mp known
    obtain ⟨y, knownRight, rfl⟩ := Option.map_eq_some_iff.mp rest
    have left := operand_sound sound (yields.needed lhs (by simp [needs, reads])) knownLeft
    have right := operand_sound sound (yields.needed rhs (by simp [needs, reads])) knownRight
    exact substitute comparison arithmetic bounded yields (comparison.equal_symm _ _ left)
      (comparison.equal_symm _ _ right)
  | move source =>
    have same := operand_sound sound (yields.needed source (by simp [needs, reads])) known
    exact comparison.equal_trans _ _ _ same yields.equal
  | conditional x y cond =>
    obtain ⟨z, knownCond, selected⟩ := Option.bind_eq_some_iff.mp known
    have decided := comparison.positive_of_equal _ _
      (operand_sound sound (yields.needed cond (by simp [needs])) knownCond)
    rw [decided] at selected
    have same := operand_sound sound (yields.needed _ (by simp [needs])) selected
    have computed := yields.equal
    simp only [eager] at computed
    by_cases positive : Number.positive (values cond.toNat) = true
    · rw [if_pos positive] at same computed
      exact comparison.equal_trans _ _ _ same computed
    · rw [if_neg positive] at same computed
      exact comparison.equal_trans _ _ _ same computed
  | guarded branch cond taken =>
    obtain ⟨z, knownCond, selected⟩ := Option.bind_eq_some_iff.mp known
    split at selected
    · have same := operand_sound sound (yields.needed branch (by simp [needs, reads])) selected
      exact comparison.equal_trans _ _ _ same yields.equal
    · cases selected

variable (finite : ∀ slot, demanded slot → Number.isFinite (values slot) = true)

include finite

section Operands

variable {op : Operator} {lhs rhs : UInt16}
  (yields : (binary op lhs rhs).Yields inputs values demanded target)

include yields

omit finite sound in
/-- If an operator gives a number for operands that are numerically equal to its own, then the
constant yields what it yields. -/
theorem result_yields {x y number : α} (left : Number.equal (values lhs.toNat) x = true)
    (right : Number.equal (values rhs.toNat) y = true)
    (law : Number.equal (op.apply x y) number = true) :
    (constant number).Yields inputs values demanded target := by
  have result := substitute comparison arithmetic bounded yields left right
  exact constant_yields (comparison.equal_trans _ _ _ (comparison.equal_symm _ _ law) result)

/-- If the right operand is numerically equal to a neutral one, then the left operand yields what
the operator yields. -/
theorem left_yields {y : α} (right : Number.equal (values rhs.toNat) y = true)
    (law : Number.equal (op.apply (values lhs.toNat) y) (values lhs.toNat) = true) :
    (prior.renamed lhs).Yields inputs values demanded target := by
  have demand : demanded lhs.toNat := yields.needed lhs (by simp [needs, reads])
  have left := comparison.equal_refl _ (finite lhs.toNat demand)
  have result := substitute comparison arithmetic bounded yields left right
  exact (renamed_yields comparison finite sound demand).trans comparison
    (comparison.equal_trans _ _ _ (comparison.equal_symm _ _ law) result)

/-- If the left operand is numerically equal to a neutral one, then the right operand yields what
the operator yields. -/
theorem right_yields {x : α} (left : Number.equal (values lhs.toNat) x = true)
    (law : Number.equal (op.apply x (values rhs.toNat)) (values rhs.toNat) = true) :
    (prior.renamed rhs).Yields inputs values demanded target := by
  have demand : demanded rhs.toNat := yields.needed rhs (by simp [needs, reads])
  have right := comparison.equal_refl _ (finite rhs.toNat demand)
  have result := substitute comparison arithmetic bounded yields left right
  exact (renamed_yields comparison finite sound demand).trans comparison
    (comparison.equal_trans _ _ _ (comparison.equal_symm _ _ law) result)

/-- What an identity leaves yields what the operator yields. A known operand is a neutral or an
absorbing one, and it cannot be undefined because the demanded value of its slot is finite. -/
theorem identity_yields {form : Node α} (identity : Identity prior op lhs rhs form) :
    form.Yields inputs values demanded target := by
  have demandLeft : demanded lhs.toNat := yields.needed lhs (by simp [needs, reads])
  have demandRight : demanded rhs.toNat := yields.needed rhs (by simp [needs, reads])
  have finiteLeft := finite lhs.toNat demandLeft
  have finiteRight := finite rhs.toNat demandRight
  have sameLeft := comparison.equal_refl _ finiteLeft
  have sameRight := comparison.equal_refl _ finiteRight
  cases identity with
  | undefinedLeft known undefined =>
    simp [operand_defined comparison sound demandLeft known] at undefined
  | undefinedRight known undefined =>
    simp [operand_defined comparison sound demandRight known] at undefined
  | zeroAdd known zero =>
    have left := operand_equal comparison sound demandLeft known zero
    have law := arithmetic.zero_add _ finiteRight
    exact right_yields comparison arithmetic bounded sound finite yields left law
  | addZero known zero =>
    have right := operand_equal comparison sound demandRight known zero
    have law := arithmetic.add_zero _ finiteLeft
    exact left_yields comparison arithmetic bounded sound finite yields right law
  | subZero known zero =>
    have right := operand_equal comparison sound demandRight known zero
    have law := arithmetic.sub_zero _ finiteLeft
    exact left_yields comparison arithmetic bounded sound finite yields right law
  | oneMul known one =>
    have left := operand_equal comparison sound demandLeft known one
    have law := arithmetic.one_mul _ finiteRight
    exact right_yields comparison arithmetic bounded sound finite yields left law
  | mulOne known one =>
    have right := operand_equal comparison sound demandRight known one
    have law := arithmetic.mul_one _ finiteLeft
    exact left_yields comparison arithmetic bounded sound finite yields right law
  | zeroMul known zero =>
    have left := operand_equal comparison sound demandLeft known zero
    have law := arithmetic.zero_mul _ finiteRight
    exact result_yields comparison arithmetic bounded yields left sameRight law
  | mulZero known zero =>
    have right := operand_equal comparison sound demandRight known zero
    have law := arithmetic.mul_zero _ finiteLeft
    exact result_yields comparison arithmetic bounded yields sameLeft right law
  | divOne known one =>
    have right := operand_equal comparison sound demandRight known one
    have law := arithmetic.div_one _ finiteLeft
    exact left_yields comparison arithmetic bounded sound finite yields right law
  | onePow known one =>
    have left := operand_equal comparison sound demandLeft known one
    have law := arithmetic.one_pow _ finiteRight
    exact result_yields comparison arithmetic bounded yields left sameRight law
  | powZero known zero =>
    have right := operand_equal comparison sound demandRight known zero
    have law := arithmetic.pow_zero _ finiteLeft
    exact result_yields comparison arithmetic bounded yields sameLeft right law

end Operands

omit arithmetic bounded in
/-- What stands for the selected side of a conditional yields what the conditional yields. -/
theorem side_yields {x y cond : UInt16} {taken : Bool}
    (yields : (conditional x y cond).Yields inputs values demanded target)
    (selected : Number.positive (values cond.toNat) = taken) :
    (prior.selected (if taken then x else y)).Yields inputs values demanded target := by
  have demand : demanded (if taken then x else y).toNat :=
    yields.needed _ (by simp [needs, selected])
  apply (selected_yields comparison finite sound demand).trans comparison
  have computed := yields.equal
  simp only [eager, selected] at computed
  cases taken <;> exact computed

/-- A simpler form yields the finite number that its node yields. -/
theorem simpler_yields {node form : Node α} (yields : node.Yields inputs values demanded target)
    (simpler : Simpler prior node form) : form.Yields inputs values demanded target := by
  cases simpler with
  | known value =>
    exact constant_yields (value_sound comparison arithmetic bounded sound yields value)
  | identity identity =>
    exact identity_yields comparison arithmetic bounded sound finite yields identity
  | @selected x y cond z knownCond =>
    have decided := comparison.positive_of_equal _ _
      (operand_sound sound (yields.needed cond (by simp [needs])) knownCond)
    exact side_yields comparison sound finite yields decided.symm

/-- What is learnt of a node that yields a finite number is sound for it. -/
theorem known_sound {node : Node α} (yields : node.Yields inputs values demanded target) :
    (node.known prior).Sound inputs values demanded target := by
  refine ⟨yields, ?_, fun number known =>
    value_sound comparison arithmetic bounded sound yields known⟩
  simp only [Known.form, Node.known]
  cases found : node.simpler? prior with
  | none => exact yields
  | some form =>
    exact simpler_yields comparison arithmetic bounded sound finite yields
      (simpler_inversion found)

end Arithmetic

end Node

namespace Program

variable {nodes : Program α} {protectedStart : Nat}

/-- Nothing more is demanded of a program with fewer nodes. -/
theorem Supports.fewer {result : Program α} (supports : Supports inputs values demanded nodes)
    (unchanged : ∀ slot node, node? result slot = some node → node? nodes slot = some node) :
    Supports inputs values demanded result :=
  fun slot node demand held => supports slot node demand (unchanged slot node held)

/-- The program that a walk leaves supports the values if everything known in the walk is sound. -/
theorem known_supports (sound : prior.Every (SoundKnown inputs values demanded)) :
    Supports inputs values demanded prior.program := by
  intro slot node demand held
  rw [Prior.program_node] at held
  obtain ⟨known, found, rfl⟩ := Option.map_eq_some_iff.mp held
  exact (sound slot known found demand).node

section Passes

variable (comparison : Number.ComparisonLaws α) (arithmetic : Number.ArithmeticLaws α)
  (finite : ∀ slot, demanded slot → Number.isFinite (values slot) = true)

include comparison arithmetic finite

/-- Everything known in a walk is sound if the program supports the values and the permitted forms
yield what their nodes do wherever that is demanded. -/
theorem rewritten_sound {permitted : Prior α → Node α → Node α → Prop}
    (supports : Supports inputs values demanded nodes)
    (yielded : ∀ prior node form, prior.Every (SoundKnown inputs values demanded) →
      demanded prior.size → node? nodes prior.size = some node →
      node.Yields inputs values demanded (values prior.size) → permitted prior node form →
        form.Yields inputs values demanded (values prior.size))
    (walked : Rewritten nodes permitted prior) :
    prior.Every (SoundKnown inputs values demanded) := by
  induction walked with
  | start => exact Prior.every_empty _
  | next _ rewrites inductionHypothesis =>
    apply Prior.every_extend inductionHypothesis
    rintro node rfl demand
    apply Node.known_sound comparison arithmetic (finite _ demand) inductionHypothesis finite
    generalize original : node? nodes _ = content at rewrites
    cases rewrites with
    | kept => exact supports _ node demand original
    | replaced _ permits =>
      have yields := supports _ _ demand original
      exact yielded _ _ _ inductionHypothesis demand original yields permits

/-- Making every node simpler keeps the support of finite values. -/
theorem simplify_supports (supports : Supports inputs values demanded nodes) :
    Supports inputs values demanded (simplify nodes).1 := by
  obtain ⟨prior, walked, _, same⟩ := simplify_walks nodes
  rw [same]
  apply known_supports
  apply rewritten_sound comparison arithmetic finite supports _ walked
  intro prior node form sound demand _ yields simpler
  exact Node.simpler_yields comparison arithmetic (finite _ demand) sound finite yields simpler

/-- A round keeps the support of finite values: what it removes is not asked for any more. -/
theorem optimize_round_supports (valid : Valid nodes)
    (supports : Supports inputs values demanded nodes) :
    Supports inputs values demanded (optimizeRound nodes protectedStart).nodes := by
  have swept := remove_dead_swept (simplify_trims valid protectedStart).valid protectedStart
  exact (simplify_supports comparison arithmetic finite supports).fewer
    fun slot node held => swept.unchanged held

/-- Simplifying a valid program keeps the support of finite values. -/
theorem optimize_supports (valid : Valid nodes)
    (supports : Supports inputs values demanded nodes) :
    Supports inputs values demanded (optimize nodes protectedStart).nodes := by
  apply optimize_keeps _ valid supports
  intro nodes valid supports
  exact optimize_round_supports comparison arithmetic finite valid supports

end Passes

end Program

end Simplification

section Evaluation

variable {inputs : Array α} {values : Nat → α} (comparison : Number.ComparisonLaws α)
  (arithmetic : Number.ArithmeticLaws α)

include comparison arithmetic

/-- A node computes a numerically equal number when the operands that it needs are replaced by
numerically equal ones, as long as the number is finite. -/
theorem Node.eager_equal (node : Node α) (others : Nat → α)
    (finite : Number.isFinite (node.eager inputs values) = true)
    (same : ∀ read ∈ node.needs values,
      Number.equal (values read.toNat) (others read.toNat) = true) :
    Number.equal (node.eager inputs values) (node.eager inputs others) = true := by
  cases node with
  | constant value => exact comparison.equal_refl _ finite
  | argument parameter => exact comparison.equal_refl _ finite
  | binary op lhs rhs =>
    exact arithmetic.apply_equal op _ _ _ _ finite (same lhs (by simp [needs, reads]))
      (same rhs (by simp [needs, reads]))
  | move target => exact same target (by simp [needs, reads])
  | conditional x y cond =>
    have decided := comparison.positive_of_equal _ _ (same cond (by simp [needs]))
    have selected := same _ (List.mem_cons_of_mem cond (List.mem_singleton.mpr rfl))
    simp only [eager, ← decided]
    by_cases positive : Number.positive (values cond.toNat) = true
    · simpa only [positive, if_true] using selected
    · simpa only [positive, Bool.false_eq_true, if_false] using selected
  | guarded branch cond taken => exact same branch (by simp [needs, reads])

namespace Program

variable {demanded : Nat → Prop} {nodes : Program α}

/-- A valid program that supports finite values computes numerically equal ones itself, in every
demanded slot that holds a node. The induction goes from left to right: what a node needs is
demanded and lies before it. -/
theorem Supports.eager_equal (supports : Supports inputs values demanded nodes)
    (valid : Valid nodes)
    (finite : ∀ slot, demanded slot → Number.isFinite (values slot) = true) (slot : Nat)
    (demand : demanded slot) (present : isPresent nodes slot = true) :
    Number.equal (values slot) (eager inputs nodes slot) = true := by
  induction slot using Nat.strongRecOn with
  | ind slot inductionHypothesis =>
    obtain ⟨node, held⟩ := (present_iff nodes slot).mp present
    have yields := supports slot node demand held
    have same : ∀ read ∈ node.needs values,
        Number.equal (values read.toNat) (eager inputs nodes read.toNat) = true := by
      intro read needed
      obtain ⟨earlier, presentRead⟩ :=
        valid slot node held read (Node.needs_read values node read needed)
      exact inductionHypothesis read.toNat earlier (yields.needed read needed) presentRead
    have computed := Node.eager_equal comparison arithmetic node (eager inputs nodes)
      (yields.finite comparison (finite slot demand)) same
    rw [eager_exact inputs nodes valid slot node held]
    exact comparison.equal_trans _ _ _ (comparison.equal_symm _ _ yields.equal) computed

end Program

end Evaluation

namespace Program

/-- An accepted program supports its own eager values where it holds nodes, if its guards agree and
these values are finite. -/
theorem supports_own (comparison : Number.ComparisonLaws α) {nodes : Program α}
    (valid : Valid nodes) {inputs : Array α} (agrees : Agrees nodes (eager inputs nodes))
    (finite : ∀ slot, isPresent nodes slot = true →
      Number.isFinite (eager inputs nodes slot) = true) :
    Supports inputs (eager inputs nodes) (isPresent nodes · = true) nodes := by
  intro slot node demand held
  refine ⟨agrees slot node held, ?_, fun read needed => ?_⟩
  · rw [← eager_exact inputs nodes valid slot node held]
    exact comparison.equal_refl _ (finite slot demand)
  · exact (valid slot node held read (Node.needs_read _ node read needed)).2

/-- If the guards of a valid program agree with some values, then they agree with values that are
numerically equal to these in all slots that hold nodes. -/
theorem agrees_of_equal (comparison : Number.ComparisonLaws α) {nodes : Program α}
    (valid : Valid nodes) {values others : Nat → α} (agrees : Agrees nodes values)
    (same : ∀ slot, isPresent nodes slot = true →
      Number.equal (values slot) (others slot) = true) : Agrees nodes others := by
  intro slot node held
  have agreed := agrees slot node held
  cases node with
  | guarded branch cond taken =>
    have present := (valid slot _ held cond (by simp [Node.reads])).2
    have decided := comparison.positive_of_equal _ _ (same cond.toNat present)
    exact decided.symm.trans agreed
  | constant | argument | binary | move | conditional => exact trivial

/-- Simplifying is sound on finite values. The simplified form of an accepted program, with its
outputs protected, is found without reading beyond the program and is accepted for as many outputs.
Whenever all eager values of the original are finite and its guards agree, both programs come to an
end, each output is numerically equal to the original one, and the cells past the outputs keep their
content. -/
theorem optimization_preserves_outputs (comparison : Number.ComparisonLaws α)
    (arithmetic : Number.ArithmeticLaws α) (nodes : Program α) (outputs protectedStart : Nat)
    (original : Compiled α)
    (compiled : compile nodes outputs { checked := false, profile := none } = .ok original)
    (protects : protectedStart ≤ nodes.size - outputs) :
    (optimize nodes protectedStart).inBounds = true ∧
      ∃ optimized, compile (optimize nodes protectedStart).nodes outputs
          { checked := false, profile := none } = .ok optimized ∧
        ∀ inputs buffer : Array α, original.arity ≤ inputs.size →
          (∀ slot, isPresent nodes slot = true →
            Number.isFinite (eager inputs nodes slot) = true) →
          Agrees nodes (eager inputs nodes) →
          ∃ expected results, (original.run inputs buffer).result = .ok expected ∧
            (optimized.run inputs buffer).result = .ok results ∧
            expected.size = buffer.size ∧ results.size = buffer.size ∧
            (∀ index x y, index < outputs → expected[index]? = some x →
              results[index]? = some y → Number.equal x y = true) ∧
            ∀ index, outputs ≤ index → results[index]? = buffer[index]? := by
  obtain ⟨ready, _, linked⟩ := linked_of_compile compiled
  obtain ⟨trimmed, inBounds⟩ := optimize_trims ready.valid protectedStart
  refine ⟨inBounds, ?_⟩
  generalize simplified : (optimize nodes protectedStart).nodes = result at trimmed
  have readyResult := trimmed.ready ready protects
  obtain ⟨optimized, compiledResult⟩ :=
    compile_of_ready readyResult { checked := false, profile := none }
  refine ⟨optimized, compiledResult, ?_⟩
  intro inputs buffer sufficient finite agrees
  have supports : Supports inputs (eager inputs nodes) (isPresent nodes · = true) result :=
    simplified ▸ optimize_supports comparison arithmetic finite ready.valid
      (supports_own comparison ready.valid agrees finite)
  have same : ∀ slot, isPresent result slot = true →
      Number.equal (eager inputs nodes slot) (eager inputs result slot) = true :=
    fun slot present => supports.eager_equal comparison arithmetic trimmed.valid finite slot
      (trimmed.absent slot present) present
  have agreesResult : Agrees result (eager inputs result) := by
    refine agrees_of_equal comparison trimmed.valid (fun slot node held => ?_) same
    have present := (present_iff result slot).mpr ⟨node, held⟩
    exact (supports slot node (trimmed.absent slot present) held).agrees
  have sufficientResult : optimized.arity ≤ inputs.size := by
    obtain ⟨_, _, linkedResult⟩ := linked_of_compile compiledResult
    exact Nat.le_trans (linked.arity_le linkedResult trimmed.borrowed) sufficient
  refine ⟨_, _, run_agreeing compiled rfl agrees sufficient buffer,
    run_agreeing compiledResult rfl agreesResult sufficientResult buffer, overwritten_size ..,
    overwritten_size .., ?_, ?_⟩
  · intro index x y inside left right
    have bounded : index < buffer.size := by
      have found := (Array.getElem?_eq_some_iff.mp left).1
      rwa [overwritten_size] at found
    rw [overwritten_output _ _ _ buffer index bounded inside] at left right
    obtain rfl := Option.some.inj left
    obtain rfl := Option.some.inj right
    have enough := readyResult.enough
    rw [trimmed.sized] at enough ⊢
    refine same _ (readyResult.present _ ?_ ?_)
    · rw [trimmed.sized]
      omega
    · rw [trimmed.sized]
      omega
  · intro index beyond
    exact overwritten_rest _ _ _ buffer index beyond

/-- A sum with a zero, a product with a one, a conditional that is decided, a guard and a dead
power. -/
def redundant : Program Small :=
  #[some (.argument 0), some (.constant .negativeZero), some (.binary .add 1 0),
    some (.constant (Small.ofInt 1)), some (.binary .mul 2 3), some (.conditional 4 0 3),
    some (.guarded 5 3 true), some (.binary .pow 0 1), some (.binary .sub 6 1)]

/-- Only the argument, the guard and its condition are left, under several names, and the result is
that of the original. -/
theorem redundant_preserved :
    ∃ original optimized results y,
      compile redundant 1 { checked := false, profile := none } = .ok original ∧
      8 ≤ redundant.size - 1 ∧ original.arity ≤ #[Small.ofInt 5].size ∧
      (∀ slot, isPresent redundant slot = true →
        Number.isFinite (eager #[Small.ofInt 5] redundant slot) = true) ∧
      Agrees redundant (eager #[Small.ofInt 5] redundant) ∧
      (optimize redundant 8).nodes =
        #[some (.argument 0), none, some (.argument 0), some (.constant (Small.ofInt 1)),
          some (.argument 0), some (.argument 0), some (.guarded 5 3 true), none,
          some (.move 6)] ∧
      compile (optimize redundant 8).nodes 1 { checked := false, profile := none } =
        .ok optimized ∧
      (optimized.run #[Small.ofInt 5] #[.undefined]).result = .ok results ∧
      results[0]? = some y ∧ Number.equal (Small.ofInt 5) y = true := by
  obtain ⟨original, compiled, arity, output⟩ : ∃ original,
      compile redundant 1 { checked := false, profile := none } = .ok original ∧
        original.arity = 1 ∧
        (original.run #[Small.ofInt 5] #[.undefined]).result = .ok #[Small.ofInt 5] :=
    ⟨_, rfl, rfl, rfl⟩
  have finite : ∀ slot, isPresent redundant slot = true →
      Number.isFinite (eager #[Small.ofInt 5] redundant slot) = true := by
    intro slot present
    obtain ⟨node, held⟩ := (present_iff redundant slot).mp present
    have all : ∀ slot, slot < redundant.size →
        Number.isFinite (eager #[Small.ofInt 5] redundant slot) = true := by decide +kernel
    exact all slot (node_bound redundant slot node held)
  have agrees : Agrees redundant (eager #[Small.ofInt 5] redundant) := by decide +kernel
  have sufficient : original.arity ≤ #[Small.ofInt 5].size := Nat.le_of_eq arity
  obtain ⟨_, optimized, accepted, preserved⟩ := optimization_preserves_outputs
    Small.comparison_laws Small.arithmetic_laws redundant 1 8 original compiled (by decide)
  obtain ⟨expected, results, ran, ranOptimized, _, sized, same, _⟩ :=
    preserved #[Small.ofInt 5] #[.undefined] sufficient finite agrees
  obtain rfl := Except.ok.inj (output.symm.trans ran)
  have inside : 0 < results.size := sized ▸ Nat.one_pos
  have found := Array.getElem?_eq_getElem inside
  exact ⟨original, optimized, results, results[0], compiled, by decide, sufficient, finite, agrees,
    by decide +kernel, accepted, ranOptimized, found, same 0 _ _ (by decide) rfl found⟩

end Program

end ProgramSearch
