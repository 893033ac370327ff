import ProgramSearch.Proofs.Program.Validity

/-!
# The meaning of a program

Evaluated eagerly, a program gives a number to every slot, from left to right, whether anything
reads the slot or not. A guard counts as its branch here. This is the meaning that compiled code
is measured against; it mentions no readers, temporaries or reports.

Other valuations of the slots are useful too. A valuation explains a program when every node
follows from the values of its operands, where a guard must follow its branch only if its
condition is on the expected side. Eager evaluation explains every valid program.
-/

namespace ProgramSearch

namespace Node

variable {α : Type} [Number α]

/-- The value that a node has when the slots have the given values. A guard counts as its branch,
and an input that was not given as "not a number". -/
def eager (inputs : Array α) (values : Nat → α) : Node α → α
  | constant value => value
  | argument parameter => inputs.getD parameter.toNat Number.nan
  | binary op lhs rhs => op.apply (values lhs.toNat) (values rhs.toNat)
  | move target => values target.toNat
  | conditional x y cond =>
    if Number.positive (values cond.toNat) then values x.toNat else values y.toNat
  | guarded branch _ _ => values branch.toNat

/-- A guard agrees with a valuation when its condition is on the side that it expects. All other
nodes agree with every valuation. -/
def Agrees (values : Nat → α) : Node α → Prop
  | guarded _ cond taken => Number.positive (values cond.toNat) = taken
  | _ => True

instance (values : Nat → α) (node : Node α) : Decidable (node.Agrees values) :=
  match node with
  | guarded _ cond taken =>
    inferInstanceAs (Decidable (Number.positive (values cond.toNat) = taken))
  | constant _ | argument _ | binary .. | move _ | conditional .. => isTrue trivial

/-- Only the operands of a node matter for its value. -/
theorem eager_congr (inputs : Array α) (first second : Nat → α) (node : Node α)
    (same : ∀ read ∈ node.reads, first read.toNat = second read.toNat) :
    node.eager inputs first = node.eager inputs second := by
  cases node with
  | constant value => rfl
  | argument parameter => rfl
  | binary op lhs rhs => simp [eager, same lhs (by simp [reads]), same rhs (by simp [reads])]
  | move target => exact same target (by simp [reads])
  | conditional x y cond =>
    simp [eager, same x (by simp [reads]), same y (by simp [reads]), same cond (by simp [reads])]
  | guarded branch cond taken => exact same branch (by simp [reads])

end Node

namespace Program

variable {α : Type} [Number α]

/-- Evaluate one more slot from the values of the slots before it. An empty slot counts as "not a
number". -/
def evaluateSlot (inputs values : Array α) (slot : Option (Node α)) : Array α :=
  values.push
    ((slot.map (Node.eager inputs fun index => values.getD index Number.nan)).getD Number.nan)

/-- The values of all slots, each computed from the slots before it. -/
def evaluateAll (inputs : Array α) (nodes : Program α) : Array α :=
  nodes.foldl (evaluateSlot inputs) #[]

/-- The value of a slot when every slot is evaluated. -/
def eager (inputs : Array α) (nodes : Program α) (slot : Nat) : α :=
  (evaluateAll inputs nodes).getD slot Number.nan

theorem value_before_push (values : Array α) (last : α) (index : Nat)
    (inside : index < values.size) :
    (values.push last).getD index Number.nan = values.getD index Number.nan := by
  simp [Array.getD_eq_getD_getElem?, Array.getElem?_push, Nat.ne_of_lt inside]

/-- The values of the first slots of a program: there is one for each of these slots, and those of
nodes follow from the values of their operands. -/
structure Evaluated (inputs : Array α) (nodes : Program α) (count : Nat) (values : Array α) :
    Prop where
  sized : values.size = count
  exact : ∀ slot node, slot < count → node? nodes slot = some node →
    values.getD slot Number.nan = node.eager inputs fun index => values.getD index Number.nan

/-- Evaluating one more slot keeps what the earlier ones satisfy. The operands of every node so far
lie before the new slot, so neither an earlier value nor what it was computed from changes. -/
theorem evaluate_slot_extends (inputs : Array α) (nodes : Program α) (valid : Valid nodes)
    (count : Nat) (inside : count < nodes.size) (values : Array α)
    (before : Evaluated inputs nodes count values) :
    Evaluated inputs nodes (count + 1) (evaluateSlot inputs values nodes[count]) := by
  obtain ⟨rfl, exact⟩ := before
  refine ⟨by simp [evaluateSlot], ?_⟩
  intro slot node bounded held
  have unchanged : ∀ read ∈ node.reads,
      (evaluateSlot inputs values nodes[values.size]).getD read.toNat Number.nan =
        values.getD read.toNat Number.nan := by
    intro read member
    have earlier := (valid slot node held read member).1
    exact value_before_push values _ read.toNat (by omega)
  rw [Node.eager_congr inputs _ (fun index => values.getD index Number.nan) node unchanged]
  by_cases old : slot < values.size
  · rw [← exact slot node old held]
    exact value_before_push values _ slot old
  · have last : slot = values.size := by omega
    subst last
    rw [node_inside nodes values.size inside] at held
    simp [evaluateSlot, held, Array.getD_eq_getD_getElem?]

/-- Eager evaluation gives every node of a valid program the value that its operands give it. -/
theorem eager_exact (inputs : Array α) (nodes : Program α) (valid : Valid nodes) (slot : Nat)
    (node : Node α) (held : node? nodes slot = some node) :
    eager inputs nodes slot = node.eager inputs (eager inputs nodes) := by
  have complete : Evaluated inputs nodes nodes.size (evaluateAll inputs nodes) :=
    Array.foldl_induction (Evaluated inputs nodes) ⟨rfl, fun _ _ impossible => by omega⟩
      (fun index values before =>
        evaluate_slot_extends inputs nodes valid index.val index.isLt values before)
  exact complete.exact slot node (node_bound nodes slot node held) held

/-- A valuation explains a program when every node follows from the values of its operands. A
guard whose condition is on the other side is free. -/
def Explains (inputs : Array α) (values : Nat → α) (nodes : Program α) : Prop :=
  ∀ slot node, node? nodes slot = some node → node.Agrees values →
    values slot = node.eager inputs values

/-- Every guard of a program agrees with a valuation. -/
def Agrees (nodes : Program α) (values : Nat → α) : Prop :=
  ∀ slot node, node? nodes slot = some node → node.Agrees values

/-- Looking at all slots decides whether the guards agree. -/
theorem agrees_iff_slots (nodes : Program α) (values : Nat → α) :
    (∀ slot, slot < nodes.size → ∀ node ∈ node? nodes slot, node.Agrees values) ↔
      Agrees nodes values := by
  constructor
  · intro checked slot node held
    exact checked slot (node_bound nodes slot node held) node held
  · intro agrees slot _ node held
    exact agrees slot node held

instance (nodes : Program α) (values : Nat → α) : Decidable (Agrees nodes values) :=
  decidable_of_iff _ (agrees_iff_slots nodes values)

/-- Without guards there is nothing to disagree. -/
theorem agrees_of_unguarded {nodes : Program α} (unguarded : Unguarded nodes) (values : Nat → α) :
    Agrees nodes values := by
  intro slot node held
  cases node with
  | guarded branch cond taken => exact absurd held (unguarded slot branch cond taken)
  | constant | argument | binary | move | conditional => exact trivial

/-- Eager evaluation explains every valid program. -/
theorem eager_explains (inputs : Array α) (nodes : Program α) (valid : Valid nodes) :
    Explains inputs (eager inputs nodes) nodes := by
  intro slot node held _
  exact eager_exact inputs nodes valid slot node held

end Program

end ProgramSearch
