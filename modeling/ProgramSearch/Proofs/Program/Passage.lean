import ProgramSearch.Proofs.Program.Execution
import ProgramSearch.Proofs.Program.Soundness

/-!
# What a finished run has passed

Compiled code evaluates a node only where a reader needs it. When the evaluation comes to an end,
the operands of a checked operator lay inside its domain, a guard agreed, and an instrumented
conditional has reported the side that it selected. A slot is passed when all this is true of the
node there and of everything that the node needs: the operands of an operator, but only the selected
side of a conditional.

A run that comes to an end has passed every slot that it evaluated, and therefore all outputs. What
it never evaluated may have any value; nothing that is passed needs it.
-/

namespace ProgramSearch

variable {α : Type}

namespace Traced

variable {β γ : Type}

/-- A sequence that comes to an end has come to the end of both of its parts, and its reports are
those of the first part followed by those of the second. -/
theorem bind_ended_iff (first : Traced β) (next : β → Traced γ) (reports : List Report)
    (value : γ) :
    first >>= next = ⟨reports, .ok value⟩ ↔
      ∃ early middle late, first = ⟨early, .ok middle⟩ ∧ next middle = ⟨late, .ok value⟩ ∧
        reports = early ++ late := by
  change andThen first next = _ ↔ _
  obtain ⟨early, result⟩ := first
  cases result with
  | error halt => simp [andThen]
  | ok middle =>
    simp only [andThen, Traced.mk.injEq, Except.ok.injEq]
    constructor
    · rintro ⟨rfl, ended⟩
      refine ⟨early, middle, (next middle).reports, ⟨rfl, rfl⟩, ?_, rfl⟩
      rw [← ended]
    · rintro ⟨_, _, late, ⟨rfl, rfl⟩, ended, rfl⟩
      rw [ended]
      exact ⟨rfl, rfl⟩

/-- Every report of an execution is one of those that are allowed, whether it comes to an end or
not. -/
def Tells (allowed : Report → Prop) (traced : Traced β) : Prop :=
  ∀ report ∈ traced.reports, allowed report

/-- A result alone reports nothing. -/
theorem Tells.of_result {allowed : Report → Prop} (result : Except Halt β) :
    Tells allowed (ofResult result) := by
  intro report told
  cases told

/-- A sequence tells what is allowed when its first part does, and its second part after whatever
value the first part ends with. -/
theorem Tells.bind {allowed : Report → Prop} {first : Traced β} {next : β → Traced γ}
    (told : Tells allowed first)
    (continued : ∀ value, first.result = .ok value → Tells allowed (next value)) :
    Tells allowed (first >>= next) := by
  obtain ⟨reports, result⟩ := first
  cases result with
  | error halt => exact told
  | ok value =>
    intro report member
    rcases List.mem_append.mp member with early | late
    · exact told report early
    · exact continued value rfl report late

end Traced

variable [Number α]

/-- What is true of the node in a slot once it was evaluated to the end: checked operands lie inside
the domain, an instrumented conditional has reported its selected side, and a guard agrees. -/
def Node.Passes (mode : Program.Mode) (values : Nat → α) (made : Report → Prop) (slot : Nat) :
    Node α → Prop
  | binary op lhs rhs =>
    (mode.checked && op.isChecked && op.isInvalid (values lhs.toNat) (values rhs.toNat)) = false
  | conditional _ _ cond => ∀ block, mode.profile = some block →
    made ⟨⟨block, UInt16.ofNat slot⟩, Number.positive (values cond.toNat)⟩
  | guarded _ cond taken => Number.positive (values cond.toNat) = taken
  | constant _ | argument _ | move _ => True

namespace Program

/-- Slots that are passed, given the values of all slots and which reports were made: the node there
passes, and whatever it needs is passed. -/
inductive Passed (nodes : Program α) (mode : Mode) (values : Nat → α) (made : Report → Prop) :
    Nat → Prop where
  | node {slot : Nat} {node : Node α} :
      node? nodes slot = some node → node.Passes mode values made slot →
      (∀ read ∈ node.needs values, Passed nodes mode values made read.toNat) →
        Passed nodes mode values made slot

/-- What is said of a passed slot holds of the node there. -/
theorem passed_inversion {nodes : Program α} {mode : Mode} {values : Nat → α}
    {made : Report → Prop} {slot : Nat} {node : Node α}
    (passed : Passed nodes mode values made slot) (held : node? nodes slot = some node) :
    node.Passes mode values made slot ∧
      ∀ read ∈ node.needs values, Passed nodes mode values made read.toNat := by
  cases passed with
  | node found passes needed =>
    obtain rfl := Option.some.inj (found.symm.trans held)
    exact ⟨passes, needed⟩

end Program

/-- A conditional evaluates its condition, reports the side that it selects if it is instrumented,
and evaluates that side. -/
theorem Expression.evaluate_conditional (frame : Frame α) (slot : Nat) (profile : Option Nat)
    (x y cond : Expression α) :
    (Expression.conditional slot profile x y cond).evaluate frame =
      cond.evaluate frame >>= fun z =>
        reportIf slot profile (Number.positive z) >>= fun _ =>
          (if Number.positive z then x else y).evaluate frame := by
  rw [Expression.evaluate]
  congr 1
  funext z
  cases Number.positive z <;> rfl

section Evaluation

variable {nodes : Program α} {mode : Program.Mode} {slots : List Nat} {values : Nat → α}
  {inputs temporaries : Array α} {made : Report → Prop}

/-- A leaf leads to a passed slot when the slots with temporaries are passed: nothing happens on the
way through the names of a slot. -/
theorem Value.Leads.passed {leaf : Value α} {slot : Nat} (leads : leaf.Leads nodes slots slot)
    (before : ∀ slot ∈ slots, nodes.Passed mode values made slot) :
    nodes.Passed mode values made slot := by
  induction leads with
  | constant held | input held =>
    refine .node held trivial fun read needed => ?_
    simp [Node.needs, Node.reads] at needed
  | temporary listed => exact before _ (List.mem_of_getElem? listed)
  | move held _ inductionHypothesis =>
    refine .node held trivial fun read needed => ?_
    obtain rfl := List.mem_singleton.mp needed
    exact inductionHypothesis

/-- An instrumented conditional that was evaluated to the end has reported the side that it
selects. -/
theorem Expression.reported {slot : Nat} {profile : Option Nat} {taken : Bool}
    {reports : List Report} {block : Nat} (instrumented : profile = some block)
    (ended : reportIf slot profile taken = ⟨reports, .ok ()⟩) :
    ⟨⟨block, UInt16.ofNat slot⟩, taken⟩ ∈ reports := by
  subst instrumented
  obtain ⟨rfl, _⟩ := Traced.mk.inj ended
  exact List.mem_singleton_self _

/-- An evaluation that comes to an end has passed the slot that the expression unfolds.

The induction follows the expression. A conditional evaluates only the side that the value of its
condition selects; the other one is not needed. -/
theorem Expression.Unfolds.evaluate_passes {expression : Expression α} {slot : Nat}
    (unfolds : expression.Unfolds nodes mode slots slot)
    (explained : nodes.Explains inputs values) (covered : nodes.Covered inputs)
    (filled : ∀ index slot : Nat, slots[index]? = some slot →
      temporaries[index]? = some (values slot))
    (before : ∀ slot ∈ slots, nodes.Passed mode values made slot) {reports : List Report}
    {value : α} (ended : expression.evaluate ⟨inputs, temporaries⟩ = ⟨reports, .ok value⟩)
    (told : ∀ report ∈ reports, made report) : nodes.Passed mode values made slot := by
  induction unfolds generalizing reports value with
  | value leads => exact leads.passed before
  | @binary slot op lhs rhs x y held computesLeft computesRight left right =>
    simp only [Expression.evaluate, Traced.bind_ended_iff] at ended
    obtain ⟨early, first, _, evaluatedLeft, ⟨late, second, last, evaluatedRight, operated, rfl⟩,
      rfl⟩ := ended
    have settledLeft := computesLeft.evaluate_settles explained covered filled
    have settledRight := computesRight.evaluate_settles explained covered filled
    rw [evaluatedLeft] at settledLeft
    rw [evaluatedRight] at settledRight
    obtain rfl : first = values lhs.toNat := settledLeft
    obtain rfl : second = values rhs.toNat := settledRight
    refine .node held ?_ fun read needed => ?_
    · unfold Expression.operate at operated
      split at operated
      · cases operated
      · rename_i inside
        exact Bool.eq_false_iff.mpr inside
    · simp only [Node.needs, Node.reads, List.mem_cons, List.not_mem_nil, or_false] at needed
      rcases needed with rfl | rfl
      · exact left evaluatedLeft fun report member => told report (by simp [member])
      · exact right evaluatedRight fun report member => told report (by simp [member])
  | @conditional slot x y cond first second condition held _ _ decides onPositive onOther decided =>
    simp only [Expression.evaluate_conditional, Traced.bind_ended_iff] at ended
    obtain ⟨early, z, _, decision, ⟨middle, _, late, reported, selected, rfl⟩, rfl⟩ := ended
    have settled := decides.evaluate_settles explained covered filled
    rw [decision] at settled
    obtain rfl : z = values cond.toNat := settled
    refine .node held ?_ fun read needed => ?_
    · intro block instrumented
      exact told _ (by simp [Expression.reported instrumented reported])
    · simp only [Node.needs, List.mem_cons, List.not_mem_nil, or_false] at needed
      rcases needed with rfl | rfl
      · exact decided decision fun report member => told report (by simp [member])
      · -- What is needed besides the condition is the side that was evaluated.
        split at selected
        · rename_i positive
          rw [if_pos positive]
          exact onPositive selected fun report member => told report (by simp [member])
        · rename_i positive
          rw [if_neg positive]
          exact onOther selected fun report member => told report (by simp [member])
  | @guarded slot branch cond taken kept condition held _ decides continued decided =>
    simp only [Expression.evaluate, Traced.bind_ended_iff] at ended
    obtain ⟨early, z, late, decision, selected, rfl⟩ := ended
    have settled := decides.evaluate_settles explained covered filled
    rw [decision] at settled
    obtain rfl : z = values cond.toNat := settled
    split at selected
    · rename_i agrees
      refine .node held (beq_iff_eq.mp agrees) fun read needed => ?_
      simp only [Node.needs, Node.reads, List.mem_cons, List.not_mem_nil, or_false] at needed
      rcases needed with rfl | rfl
      · exact decided decision fun report member => told report (by simp [member])
      · exact continued selected fun report member => told report (by simp [member])
    · cases selected

/-- Filling temporaries to the end passes all their slots, each after those before it. -/
theorem Expression.Fills.fill_passes {filled : List Nat} {steps : List (Expression α)}
    (fills : Expression.Fills nodes mode filled steps slots)
    (explained : nodes.Explains inputs values) (covered : nodes.Covered inputs)
    (before : ∀ slot ∈ filled, nodes.Passed mode values made slot) {reports : List Report}
    {final : Array α}
    (ended : Compiled.fill inputs steps (filled.map values).toArray = ⟨reports, .ok final⟩)
    (told : ∀ report ∈ reports, made report) :
    ∀ slot ∈ filled ++ slots, nodes.Passed mode values made slot := by
  induction fills generalizing reports with
  | done => simpa using before
  | @next filled slots slot step steps unfolds _ inductionHypothesis =>
    simp only [Compiled.fill, Traced.bind_ended_iff] at ended
    obtain ⟨early, value, late, first, rest, rfl⟩ := ended
    have read : ∀ index slot : Nat, filled[index]? = some slot →
        (filled.map values).toArray[index]? = some (values slot) := by
      intro index slot listed
      simp [listed]
    have settled := unfolds.evaluate_settles explained covered read
    rw [first] at settled
    obtain rfl : value = values slot := settled
    have passed := unfolds.evaluate_passes explained covered read before first
      fun report member => told report (by simp [member])
    have extended : ∀ other ∈ filled ++ [slot], nodes.Passed mode values made other := by
      intro other member
      rcases List.mem_append.mp member with earlier | last
      · exact before other earlier
      · obtain rfl := List.mem_singleton.mp last
        exact passed
    have others := inductionHypothesis extended (by simpa using rest)
      fun report member => told report (by simp [member])
    simpa using others

end Evaluation

namespace Program

/-- A run that comes to an end has passed every output slot. -/
theorem Linked.run_passes {nodes : Program α} {outputs : Nat} {mode : Mode}
    {program : Compiled α} {slots : List Nat} (linked : Linked nodes outputs mode program slots)
    (enough : outputs ≤ nodes.size) {inputs : Array α} {values : Nat → α}
    (explained : Explains inputs values nodes) (covered : Covered nodes inputs)
    {buffer results : Array α} {made : Report → Prop}
    (ended : (program.run inputs buffer).result = .ok results)
    (told : ∀ report ∈ (program.run inputs buffer).reports, made report) (slot : Nat)
    (above : nodes.size - outputs ≤ slot) (below : slot < nodes.size) :
    Passed nodes mode values made slot := by
  generalize run : program.run inputs buffer = traced at ended told
  obtain ⟨reports, result⟩ := traced
  obtain rfl : result = .ok results := ended
  simp only [Compiled.run, Traced.bind_ended_iff] at run
  obtain ⟨early, temporaries, late, filled, _, rfl⟩ := run
  have passed := linked.fills.fill_passes explained covered (by simp) filled
    fun report member => told report (by simp [member])
  have counted : slot - (nodes.size - outputs) < program.outputs.length := by
    rw [linked.outputCount]
    omega
  have leads := linked.outputLeads _ _ (List.getElem?_eq_getElem counted)
  rw [Nat.add_sub_cancel' above] at leads
  exact leads.passed (by simpa using passed)

end Program

end ProgramSearch
