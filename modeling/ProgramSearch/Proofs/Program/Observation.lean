import ProgramSearch.Proofs.Program.Passage

/-!
# What an instrumented run observes

An instrumented program evaluates a conditional only where a reader needs it, and then reports the
side that it selects. A slot is observed when the node there has reported its side, if it is a
conditional, and when everything that the node needs is observed as well: the operands of an
operator, but only the selected side of a conditional.

Under instrumentation a slot that is passed is observed. A run that comes to an end has therefore
observed all outputs.
-/

namespace ProgramSearch

variable {α : Type} [Number α]

namespace Program

/-- Slots that are observed, given the values of all slots and which reports were made for a block.
The node in an observed slot has reported the side that its condition selects, if it has one, and
whatever it needs is observed. -/
inductive Observed (nodes : Program α) (values : Nat → α) (block : Nat) (made : Report → Prop) :
    Nat → Prop where
  | node {slot : Nat} {node : Node α} :
      node? nodes slot = some node →
      (∀ x y cond, node = .conditional x y cond →
        made ⟨⟨block, UInt16.ofNat slot⟩, Number.positive (values cond.toNat)⟩) →
      (∀ read ∈ node.needs values, Observed nodes values block made read.toNat) →
        Observed nodes values block made slot

/-- What is said of an observed slot holds of the node there. -/
theorem observed_inversion {nodes : Program α} {values : Nat → α} {block : Nat}
    {made : Report → Prop} {slot : Nat} {node : Node α}
    (observed : Observed nodes values block made slot) (held : node? nodes slot = some node) :
    (∀ x y cond, node = .conditional x y cond →
        made ⟨⟨block, UInt16.ofNat slot⟩, Number.positive (values cond.toNat)⟩) ∧
      ∀ read ∈ node.needs values, Observed nodes values block made read.toNat := by
  cases observed with
  | node found selected needed =>
    obtain rfl := Option.some.inj (found.symm.trans held)
    exact ⟨selected, needed⟩

/-- An observed slot holds a node. -/
theorem Observed.present {nodes : Program α} {values : Nat → α} {block : Nat}
    {made : Report → Prop} {slot : Nat} (observed : Observed nodes values block made slot) :
    isPresent nodes slot = true := by
  cases observed with
  | node held => exact (present_iff nodes slot).mpr ⟨_, held⟩

/-- Under instrumentation a slot that is passed is observed. -/
theorem Passed.observed {nodes : Program α} {mode : Mode} {values : Nat → α} {block : Nat}
    {made : Report → Prop} {slot : Nat} (passed : Passed nodes mode values made slot)
    (instrumented : mode.profile = some block) : Observed nodes values block made slot := by
  induction passed with
  | node held passes _ inductionHypothesis =>
    refine .node held ?_ inductionHypothesis
    rintro x y cond rfl
    exact passes block instrumented

/-- An instrumented run that comes to an end observes every output slot. -/
theorem Linked.run_observes {nodes : Program α} {outputs : Nat} {mode : Mode}
    {program : Compiled α} {slots : List Nat} (linked : Linked nodes outputs mode program slots)
    (enough : outputs ≤ nodes.size) {block : Nat} (instrumented : mode.profile = some block)
    {inputs : Array α} {values : Nat → α} (explained : Explains inputs values nodes)
    (covered : Covered nodes inputs) {buffer results : Array α} {made : Report → Prop}
    (ended : (program.run inputs buffer).result = .ok results)
    (told : ∀ report ∈ (program.run inputs buffer).reports, made report) (slot : Nat)
    (above : nodes.size - outputs ≤ slot) (below : slot < nodes.size) :
    Observed nodes values block made slot :=
  (linked.run_passes enough explained covered ended told slot above below).observed instrumented

end Program

end ProgramSearch
