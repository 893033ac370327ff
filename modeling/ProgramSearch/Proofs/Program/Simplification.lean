import ProgramSearch.Program.Optimization
import ProgramSearch.Proofs.Program.Knowledge

/-!
# Simpler nodes

A node becomes simpler for one of three reasons: its value is known, an identity of arithmetic
applies to a known operand, or the condition of a conditional is known. The relations here list
these reasons with what they leave, so that a law about simplification has one case for each.

Whatever the reason, the simpler form is a constant, another name for an operand, or a copy of a
direct node that stands earlier. It therefore fits into the place of the node.
-/

namespace ProgramSearch

variable {α : Type}

/-- An operand passes a test when it is known and its value does. -/
theorem Node.has_operand_iff (test : α → Bool) (operand : Option α) :
    Node.hasOperand test operand = true ↔ ∃ value, operand = some value ∧ test value = true := by
  cases operand <;> simp [Node.hasOperand]

/-- What stands for a slot is direct. -/
theorem Prior.renamed_direct (prior : Prior α) (slot : UInt16) :
    (prior.renamed slot).isDirect = true := by
  unfold Prior.renamed
  split
  · split
    · assumption
    · rfl
  · rfl

/-- What stands for the selected side of a conditional is direct. -/
theorem Prior.selected_direct (prior : Prior α) (slot : UInt16) :
    (prior.selected slot).isDirect = true := by
  unfold Prior.selected
  split
  · split
    · assumption
    · rfl
  · rfl

namespace Program

section Admission

/-- A node may stand in a slot of a program: it reads earlier slots that hold nodes, and if it is an
argument, the program has this argument. -/
structure Admits (nodes : Program α) (slot : Nat) (node : Node α) : Prop where
  reads : ∀ read ∈ node.reads, read.toNat < slot ∧ isPresent nodes read.toNat = true
  argument : ∀ parameter, node = .argument parameter →
    ∃ other, node? nodes other = some (.argument parameter)

variable {nodes : Program α} {slot : Nat}

/-- A valid program admits its own nodes. -/
theorem admits_own (valid : Valid nodes) {node : Node α} (held : node? nodes slot = some node) :
    Admits nodes slot node :=
  ⟨valid slot node held, fun _ same => ⟨slot, same ▸ held⟩⟩

/-- A constant may stand anywhere. -/
theorem admits_constant (value : α) : Admits nodes slot (.constant value) :=
  ⟨fun _ none => by simp [Node.reads] at none, fun _ same => nomatch same⟩

/-- Another name for an earlier node may stand behind it. -/
theorem admits_move {target : UInt16}
    (earlier : target.toNat < slot ∧ isPresent nodes target.toNat = true) :
    Admits nodes slot (.move target) := by
  refine ⟨fun read member => ?_, fun _ same => nomatch same⟩
  obtain rfl : read = target := by simpa [Node.reads] using member
  exact earlier

/-- A node that may stand in a slot may stand in any later slot. -/
theorem Admits.later {node : Node α} (admits : Admits nodes slot node) {other : Nat}
    (behind : slot < other) : Admits nodes other node :=
  ⟨fun read member => ⟨Nat.lt_trans (admits.reads read member).1 behind,
    (admits.reads read member).2⟩, admits.argument⟩

/-- What is known of a slot may stand there: the node itself and its simpler form. -/
def AdmitsKnown (nodes : Program α) (slot : Nat) (known : Known α) : Prop :=
  Admits nodes slot known.node ∧ Admits nodes slot known.form

variable {prior : Prior α} {read : UInt16}

/-- A node that stands for an earlier slot may stand behind it. -/
theorem renamed_admits (known : prior.Every (AdmitsKnown nodes))
    (earlier : read.toNat < slot ∧ isPresent nodes read.toNat = true) :
    Admits nodes slot (prior.renamed read) := by
  unfold Prior.renamed
  split
  · rename_i found lookup
    split
    · exact (known read.toNat found lookup).1.later earlier.1
    · exact admits_move earlier
  · exact admits_move earlier

/-- The simplest form of an earlier slot may stand behind it. -/
theorem selected_admits (known : prior.Every (AdmitsKnown nodes))
    (earlier : read.toNat < slot ∧ isPresent nodes read.toNat = true) :
    Admits nodes slot (prior.selected read) := by
  unfold Prior.selected
  split
  · rename_i found lookup
    split
    · exact (known read.toNat found lookup).2.later earlier.1
    · exact admits_move earlier
  · exact admits_move earlier

end Admission

end Program

variable [Number α]

namespace Node

/-- The identities that simplify an operator with a known operand, with what they leave. -/
inductive Identity (prior : Prior α) : Operator → UInt16 → UInt16 → Node α → Prop where
  | undefinedLeft {op : Operator} {lhs rhs : UInt16} {x : α} :
      prior.value? lhs = some x → Number.isNaN x = true →
      Identity prior op lhs rhs (.constant Number.nan)
  | undefinedRight {op : Operator} {lhs rhs : UInt16} {y : α} :
      prior.value? rhs = some y → Number.isNaN y = true →
      Identity prior op lhs rhs (.constant Number.nan)
  | zeroAdd {lhs rhs : UInt16} {x : α} :
      prior.value? lhs = some x → Number.isZero x = true →
      Identity prior .add lhs rhs (prior.renamed rhs)
  | addZero {lhs rhs : UInt16} {y : α} :
      prior.value? rhs = some y → Number.isZero y = true →
      Identity prior .add lhs rhs (prior.renamed lhs)
  | subZero {lhs rhs : UInt16} {y : α} :
      prior.value? rhs = some y → Number.isZero y = true →
      Identity prior .sub lhs rhs (prior.renamed lhs)
  | oneMul {lhs rhs : UInt16} {x : α} :
      prior.value? lhs = some x → Number.isOne x = true →
      Identity prior .mul lhs rhs (prior.renamed rhs)
  | mulOne {lhs rhs : UInt16} {y : α} :
      prior.value? rhs = some y → Number.isOne y = true →
      Identity prior .mul lhs rhs (prior.renamed lhs)
  | zeroMul {lhs rhs : UInt16} {x : α} :
      prior.value? lhs = some x → Number.isZero x = true →
      Identity prior .mul lhs rhs (.constant Number.zero)
  | mulZero {lhs rhs : UInt16} {y : α} :
      prior.value? rhs = some y → Number.isZero y = true →
      Identity prior .mul lhs rhs (.constant Number.zero)
  | divOne {lhs rhs : UInt16} {y : α} :
      prior.value? rhs = some y → Number.isOne y = true →
      Identity prior .div lhs rhs (prior.renamed lhs)
  | onePow {lhs rhs : UInt16} {x : α} :
      prior.value? lhs = some x → Number.isOne x = true →
      Identity prior .pow lhs rhs (.constant Number.one)
  | powZero {lhs rhs : UInt16} {y : α} :
      prior.value? rhs = some y → Number.isZero y = true →
      Identity prior .pow lhs rhs (.constant Number.one)

/-- The reasons why a node becomes simpler, with its simpler form. -/
inductive Simpler (prior : Prior α) : Node α → Node α → Prop where
  | known {node : Node α} {value : α} :
      node.value? prior = some value → Simpler prior node (.constant value)
  | identity {op : Operator} {lhs rhs : UInt16} {form : Node α} :
      Identity prior op lhs rhs form → Simpler prior (.binary op lhs rhs) form
  | selected {x y cond : UInt16} {z : α} :
      prior.value? cond = some z →
      Simpler prior (.conditional x y cond) (prior.selected (if Number.positive z then x else y))

/-- A simpler form is direct. -/
theorem simpler_direct {prior : Prior α} {node form : Node α}
    (simpler : Simpler prior node form) : form.isDirect = true := by
  cases simpler with
  | known value => rfl
  | selected known => exact prior.selected_direct _
  | identity identity =>
    cases identity with
    | zeroAdd | oneMul => exact prior.renamed_direct _
    | addZero | subZero | mulOne | divOne => exact prior.renamed_direct _
    | undefinedLeft | undefinedRight | zeroMul | mulZero | onePow | powZero => rfl

/-- An operator only becomes simpler by one of the identities. -/
theorem identity_of_simpler {prior : Prior α} {op : Operator} {lhs rhs : UInt16} {form : Node α}
    (found : simplerBinary? prior op lhs rhs = some form) : Identity prior op lhs rhs form := by
  unfold simplerBinary? at found
  simp only [Bool.or_eq_true, has_operand_iff] at found
  split at found
  · cases found
  split at found
  · rename_i undefined
    obtain rfl := Option.some.inj found
    rcases undefined with ⟨x, known, undefined⟩ | ⟨y, known, undefined⟩
    · exact .undefinedLeft known undefined
    · exact .undefinedRight known undefined
  cases op with
  | add =>
    simp only at found
    split at found
    · rename_i zero
      obtain ⟨x, known, zero⟩ := zero
      exact Option.some.inj found ▸ .zeroAdd known zero
    split at found
    · rename_i zero
      obtain ⟨y, known, zero⟩ := zero
      exact Option.some.inj found ▸ .addZero known zero
    · cases found
  | sub =>
    simp only at found
    split at found
    · rename_i zero
      obtain ⟨y, known, zero⟩ := zero
      exact Option.some.inj found ▸ .subZero known zero
    · cases found
  | mul =>
    simp only at found
    split at found
    · rename_i one
      obtain ⟨x, known, one⟩ := one
      exact Option.some.inj found ▸ .oneMul known one
    split at found
    · rename_i one
      obtain ⟨y, known, one⟩ := one
      exact Option.some.inj found ▸ .mulOne known one
    split at found
    · rename_i zero
      obtain rfl := Option.some.inj found
      rcases zero with ⟨x, known, zero⟩ | ⟨y, known, zero⟩
      · exact .zeroMul known zero
      · exact .mulZero known zero
    · cases found
  | div =>
    simp only at found
    split at found
    · rename_i one
      obtain ⟨y, known, one⟩ := one
      exact Option.some.inj found ▸ .divOne known one
    · cases found
  | pow =>
    simp only at found
    split at found
    · rename_i decided
      obtain rfl := Option.some.inj found
      rcases decided with ⟨x, known, one⟩ | ⟨y, known, zero⟩
      · exact .onePow known one
      · exact .powZero known zero
    · cases found
  | mod => cases found
  | log => cases found

/-- A node only becomes simpler for one of the reasons. -/
theorem simpler_inversion {prior : Prior α} {node form : Node α}
    (found : node.simpler? prior = some form) : Simpler prior node form := by
  cases node with
  | constant value => cases found
  | argument parameter => cases found
  | binary op lhs rhs =>
    simp only [simpler?] at found
    split at found
    · rename_i value known
      exact Option.some.inj found ▸ .known known
    · exact .identity (identity_of_simpler found)
  | conditional x y cond =>
    obtain ⟨z, known, rfl⟩ := Option.map_eq_some_iff.mp found
    exact .selected known
  | move target =>
    obtain ⟨value, known, rfl⟩ := Option.map_eq_some_iff.mp found
    exact .known known
  | guarded branch cond taken =>
    obtain ⟨value, known, rfl⟩ := Option.map_eq_some_iff.mp found
    exact .known known

end Node

namespace Program

section Admission

variable {nodes : Program α} {slot : Nat} {prior : Prior α}

/-- What an identity leaves may stand where the operator stood. -/
theorem identity_admits (known : prior.Every (AdmitsKnown nodes)) {op : Operator}
    {lhs rhs : UInt16} {form : Node α} (admits : Admits nodes slot (.binary op lhs rhs))
    (identity : Node.Identity prior op lhs rhs form) : Admits nodes slot form := by
  have left : Admits nodes slot (prior.renamed lhs) :=
    renamed_admits known (admits.reads lhs (by simp [Node.reads]))
  have right : Admits nodes slot (prior.renamed rhs) :=
    renamed_admits known (admits.reads rhs (by simp [Node.reads]))
  cases identity with
  | zeroAdd | oneMul => exact right
  | addZero | subZero | mulOne | divOne => exact left
  | undefinedLeft | undefinedRight | zeroMul | mulZero | onePow | powZero =>
    exact admits_constant _

/-- A simpler form may stand where its node stood. -/
theorem simpler_admits (known : prior.Every (AdmitsKnown nodes)) {node form : Node α}
    (admits : Admits nodes slot node) (simpler : Node.Simpler prior node form) :
    Admits nodes slot form := by
  cases simpler with
  | known => exact admits_constant _
  | identity identity => exact identity_admits known admits identity
  | @selected x y cond z =>
    refine selected_admits known (admits.reads _ ?_)
    by_cases positive : Number.positive z = true <;> simp [positive, Node.reads]

/-- What is learnt about a node may stand in its slot. -/
theorem known_admits (known : prior.Every (AdmitsKnown nodes)) {node : Node α}
    (admits : Admits nodes slot node) : AdmitsKnown nodes slot (node.known prior) := by
  refine ⟨admits, ?_⟩
  simp only [Known.form, Node.known]
  cases found : node.simpler? prior with
  | none => exact admits
  | some form => exact simpler_admits known admits (Node.simpler_inversion found)

end Admission

/-- Simplifying one slot keeps it or makes its node simpler. -/
theorem simplification_step_rewrites (state : Simplification α) (content : Option (Node α)) :
    ∃ form, (state.step content).prior = state.prior.extend form ∧
      Rewrites Node.Simpler state.prior content form := by
  unfold Simplification.step
  split
  · rename_i form found
    obtain ⟨node, rfl, found⟩ := Option.bind_eq_some_iff.mp found
    split
    · exact ⟨_, rfl, .kept _⟩
    · rename_i later
      have positive : 0 < state.prior.size := by
        simpa [Nat.pos_iff_ne_zero] using later
      exact ⟨_, rfl, .replaced positive (Node.simpler_inversion found)⟩
  · exact ⟨_, rfl, .kept _⟩

/-- Simplifying a program walks over all its slots and makes nodes simpler. -/
theorem simplify_walks (nodes : Program α) :
    ∃ prior, Rewritten nodes Node.Simpler prior ∧ prior.size = nodes.size ∧
      (simplify nodes).1 = prior.program := by
  obtain ⟨walked, sized⟩ := fold_rewritten Simplification.step Simplification.prior
    simplification_step_rewrites nodes ⟨#[], false⟩ rfl
  exact ⟨_, walked, sized, rfl⟩

section Walks

variable {nodes : Program α} {permitted : Prior α → Node α → Node α → Prop} {prior : Prior α}

/-- If permitted forms may stand in place of their nodes, then everything known in a walk over a
valid program may stand in its slot of the original. -/
theorem rewritten_admits (valid : Valid nodes)
    (admitted : ∀ prior slot node form, prior.Every (AdmitsKnown nodes) →
      Admits nodes slot node → permitted prior node form → Admits nodes slot form)
    (walked : Rewritten nodes permitted prior) : prior.Every (AdmitsKnown nodes) := by
  induction walked with
  | start => exact Prior.every_empty _
  | next _ rewrites inductionHypothesis =>
    apply Prior.every_extend inductionHypothesis
    rintro node rfl
    generalize original : node? nodes _ = content at rewrites
    cases rewrites with
    | kept => exact known_admits inductionHypothesis (admits_own valid original)
    | replaced _ permits =>
      have admits := admitted _ _ _ _ inductionHypothesis (admits_own valid original) permits
      exact known_admits inductionHypothesis admits

/-- What a slot may hold after the walk: what it held before or, behind the leading slot, some node
in place of one that is not an argument. -/
inductive SimplerSlot (slot : Nat) : Option (Node α) → Option (Node α) → Prop where
  | same (content : Option (Node α)) : SimplerSlot slot content content
  | simpler {node form : Node α} (later : 0 < slot)
      (free : ∀ parameter, node ≠ .argument parameter) :
      SimplerSlot slot (some node) (some form)

/-- A walk that rewrites no argument keeps the leading slot, the arguments and the empty slots. -/
theorem rewritten_slots
    (free : ∀ prior node form, permitted prior node form → ∀ parameter, node ≠ .argument parameter)
    (walked : Rewritten nodes permitted prior) (slot : Nat) (inside : slot < prior.size) :
    SimplerSlot slot (node? nodes slot) (node? prior.program slot) := by
  induction walked with
  | start => simp at inside
  | @next prior content _ rewrites inductionHypothesis =>
    rw [Prior.program_extend, node_push, Prior.program_size]
    by_cases last : slot = prior.size
    · rw [if_pos last, last]
      generalize node? nodes prior.size = original at rewrites ⊢
      cases rewrites with
      | kept => exact .same _
      | replaced later permits => exact .simpler later (free _ _ _ permits)
    · rw [if_neg last]
      rw [Prior.extend, Array.size_push] at inside
      exact inductionHypothesis (by omega)

end Walks

/-- An argument has no simpler form. -/
theorem simpler_free {prior : Prior α} {node form : Node α}
    (simpler : Node.Simpler prior node form) (parameter : UInt16) : node ≠ .argument parameter := by
  rintro rfl
  cases simpler with
  | known value => cases value

end Program

end ProgramSearch
