import ProgramSearch.Proofs.Program.Execution
import ProgramSearch.Proofs.Program.Shape

/-!
# Programs that evolve

A program evolves from a fresh one by mutations, repairs, simplification and committed branches, and
by replacing the node that a checked run blames. It keeps its shape through all of this.

What a run blames is an operator. Code stops for three reasons only: a guard bails out, an input is
missing, or an operator is refused. So a blamed slot holds no argument and may be replaced.
-/

namespace ProgramSearch

variable {α : Type}

/-- Why the code of a program may stop. An operator is blamed by the number of its slot. -/
inductive Program.Halts (nodes : Program α) : Halt → Prop where
  | bailout : Halts nodes (.signal .bailout)
  | missingInput : Halts nodes .missingInput
  | operator {slot : Nat} {op : Operator} {lhs rhs : UInt16} :
      nodes.node? slot = some (.binary op lhs rhs) →
        Halts nodes (.signal (.invalidOperation (UInt16.ofNat slot)))

/-- If a result is missing, then for one of the reasons that the code of a program may have. -/
def Program.Stops {β : Type} (nodes : Program α) (result : Except Halt β) : Prop :=
  ∀ halt, result = .error halt → nodes.Halts halt

section Stopping

variable {nodes : Program α} {β γ : Type}

/-- A sequence stops where its first or its second part stops. -/
theorem Program.Stops.bind {first : Except Halt β} {next : β → Except Halt γ}
    (start : nodes.Stops first) (rest : ∀ value, nodes.Stops (next value)) :
    nodes.Stops (first >>= next) := by
  cases first with
  | error halt =>
    intro other same
    exact start other (congrArg Except.error (Except.error.inj same))
  | ok value => exact rest value

/-- A result that is there has not stopped. -/
theorem Program.stops_ok (value : β) : nodes.Stops (.ok value) := by
  intro halt same
  cases same

variable [Number α] {mode : Program.Mode} {slots : List Nat}

/-- A leaf stops only when it is an input that is missing. -/
theorem Value.read_stops (leaf : Value α) (frame : Frame α) : nodes.Stops (leaf.read frame) := by
  cases leaf with
  | constant value => exact Program.stops_ok value
  | temporary index => exact Program.stops_ok _
  | input index =>
    intro halt stopped
    rw [Value.read] at stopped
    split at stopped
    · cases stopped
    · obtain rfl := Except.error.inj stopped
      exact .missingInput

/-- Reading values stops only when an input is missing. -/
theorem Compiled.read_all_stops (leaves : List (Value α)) (frame : Frame α) :
    nodes.Stops (readAll frame leaves) := by
  induction leaves with
  | nil => exact Program.stops_ok []
  | cons leaf rest inductionHypothesis =>
    intro halt stopped
    rw [readAll] at stopped
    cases read : leaf.read frame with
    | error other =>
      rw [read] at stopped
      obtain rfl := Except.error.inj stopped
      exact leaf.read_stops frame other read
    | ok value =>
      rw [read] at stopped
      cases others : readAll frame rest with
      | error other =>
        rw [others] at stopped
        obtain rfl := Except.error.inj stopped
        exact inductionHypothesis other others
      | ok values =>
        rw [others] at stopped
        cases stopped

/-- The expression of a slot stops for one of the reasons. It unfolds operators where the program
holds them. -/
theorem Expression.Unfolds.evaluate_stops {expression : Expression α} {slot : Nat}
    (unfolds : expression.Unfolds nodes mode slots slot) (frame : Frame α) :
    nodes.Stops (expression.evaluate frame).result := by
  induction unfolds with
  | value leads => exact Value.read_stops _ frame
  | @binary slot op lhs rhs x y held _ _ left right =>
    simp only [Expression.evaluate, Traced.result_bind]
    apply left.bind
    intro first
    apply right.bind
    intro second halt stopped
    rw [Expression.operate] at stopped
    split at stopped
    · obtain rfl := Except.error.inj stopped
      exact .operator held
    · cases stopped
  | @conditional slot x y cond first second condition held _ _ _ selected other decided =>
    simp only [Expression.evaluate, Traced.result_bind]
    have reported : ∀ side, nodes.Stops (Expression.reportIf slot mode.profile side).result := by
      intro side
      cases mode.profile <;> exact Program.stops_ok ()
    apply decided.bind
    intro value
    split
    · rw [Traced.result_bind]
      exact (reported true).bind fun _ => selected
    · rw [Traced.result_bind]
      exact (reported false).bind fun _ => other
  | @guarded slot branch cond taken kept condition held _ _ continued decided =>
    simp only [Expression.evaluate, Traced.result_bind]
    apply decided.bind
    intro value
    split
    · exact continued
    · intro halt stopped
      obtain rfl := Except.error.inj stopped
      exact .bailout

/-- The steps of a program stop for one of the reasons. -/
theorem Expression.Fills.fill_stops {filled : List Nat} {steps : List (Expression α)}
    (fills : Expression.Fills nodes mode filled steps slots) (inputs temporaries : Array α) :
    nodes.Stops (Compiled.fill inputs steps temporaries).result := by
  induction fills generalizing temporaries with
  | done => exact Program.stops_ok temporaries
  | next unfolds _ inductionHypothesis =>
    simp only [Compiled.fill, Traced.result_bind]
    exact (unfolds.evaluate_stops _).bind fun value => inductionHypothesis _

/-- A run of a compiled program stops for one of the reasons, whatever the inputs are. -/
theorem Program.Linked.run_stops {outputs : Nat} {program : Compiled α}
    (linked : Program.Linked nodes outputs mode program slots) (inputs buffer : Array α) :
    nodes.Stops (program.run inputs buffer).result := by
  simp only [Compiled.run, Traced.result_bind]
  apply (linked.fills.fill_stops inputs #[]).bind
  intro temporaries
  apply (Compiled.read_all_stops _ _).bind
  intro fresh
  exact Program.stops_ok _

end Stopping

namespace Program

variable [Number α]

/-- A slot that a run blames holds an operator, if the slots have addresses. -/
theorem blamed_computed {nodes : Program α} {outputs : Nat} {mode : Mode} {program : Compiled α}
    (compiled : compile nodes outputs mode = .ok program)
    (addressable : nodes.size ≤ Node.slotLimit) {inputs buffer : Array α} {blamed : UInt16}
    (stopped : (program.run inputs buffer).result = .error (.signal (.invalidOperation blamed))) :
    ∃ node, node? nodes blamed.toNat = some node ∧ node.isRemovalProtected = false := by
  obtain ⟨_, _, linked⟩ := linked_of_compile compiled
  cases linked.run_stops inputs buffer _ stopped with
  | @operator slot op lhs rhs held =>
    have inside := node_bound nodes slot _ held
    rw [UInt16.toNat_ofNat_of_lt' (Nat.lt_of_lt_of_le inside addressable)]
    exact ⟨_, held, rfl⟩

/-- Code that is given all the inputs that it may read misses none. -/
theorem run_provided {nodes : Program α} {outputs : Nat} {mode : Mode} {program : Compiled α}
    (compiled : compile nodes outputs mode = .ok program) {inputs : Array α}
    (sufficient : program.arity ≤ inputs.size) (buffer : Array α) :
    (program.run inputs buffer).result ≠ .error .missingInput := by
  obtain ⟨ready, _, linked⟩ := linked_of_compile compiled
  have settled := linked.run_settles (eager_explains inputs nodes ready.valid) sufficient buffer
  intro missing
  rw [missing] at settled
  cases settled

/-- The programs that evolve from fresh ones with a number of arguments and slots, whose only output
is the last slot. Any words may be drawn, and any sides may have been seen. -/
inductive Evolves (arguments complexity : Nat) : Program α → Prop where
  | generated {nodes : Program α} {stream rest : Stream} :
      generate arguments complexity stream = .ok nodes rest → Evolves arguments complexity nodes
  | mutated {nodes changed : Program α} {slot : Option Nat} {stream rest : Stream} :
      Evolves arguments complexity nodes →
      nodes.mutate arguments stream = .ok (changed, slot) rest →
        Evolves arguments complexity changed
  | repaired {nodes changed : Program α} {replaced : Nat} {stream rest : Stream} :
      Evolves arguments complexity nodes →
      nodes.repair (complexity - 1) stream = .ok (changed, replaced) rest →
        Evolves arguments complexity changed
  | optimized {nodes : Program α} :
      Evolves arguments complexity nodes →
        Evolves arguments complexity (nodes.optimize (complexity - 1)).nodes
  | regenerated {nodes changed : Program α} {profile : Option Nat} {program : Compiled α}
      {inputs buffer : Array α} {blamed : UInt16} {stream rest : Stream} :
      Evolves arguments complexity nodes →
      nodes.compile 1 { checked := true, profile } = .ok program →
      (program.run inputs buffer).result = .error (.signal (.invalidOperation blamed)) →
      nodes.regenerate [blamed.toNat] stream = .ok changed rest →
        Evolves arguments complexity changed
  | committed {nodes : Program α} (sides : Sides) :
      Evolves arguments complexity nodes →
        Evolves arguments complexity (nodes.prune arguments sides false).1

/-- Whatever evolves keeps its shape. -/
theorem Evolves.plain {arguments complexity : Nat} {nodes : Program α}
    (evolves : Evolves arguments complexity nodes) (takes : 0 < arguments)
    (more : arguments < complexity) (addressable : complexity ≤ Node.slotLimit) :
    Plain arguments complexity (complexity - 1) nodes := by
  induction evolves with
  | generated drawn =>
    exact ((generate_ensures takes more addressable).result drawn).relax (Nat.zero_le _)
  | mutated _ drawn plain => exact (plain.mutate_ensures addressable).result drawn
  | repaired _ drawn plain => exact (plain.repair_ensures addressable).result drawn
  | optimized _ plain => exact plain.optimized
  | regenerated _ compiled stopped drawn plain =>
    have computed := blamed_computed compiled (plain.sized ▸ addressable) stopped
    exact (plain.regenerate_ensures addressable (by simpa using computed)).result drawn
  | committed sides _ plain => exact plain.committed arguments sides

/-- What holds of a program with a number of arguments and slots whose only output is the last slot.
It has its shape, and nothing that may happen to it on the way can fail. -/
structure Viable (arguments complexity : Nat) (nodes : Program α) : Prop where
  plain : Plain arguments complexity (complexity - 1) nodes
  validates : validate nodes = .ok ()
  compiles : ∀ mode, ∃ program, nodes.compile 1 mode = .ok program ∧ program.arity = arguments
  mutates : ∀ stream, ∃ result rest, nodes.mutate arguments stream = .ok result rest
  repairs : ∀ stream, ∃ result rest, nodes.repair (complexity - 1) stream = .ok result rest
  optimizes : (nodes.optimize (complexity - 1)).inBounds = true
  regenerates : ∀ (profile : Option Nat) (program : Compiled α) (inputs buffer : Array α) blamed,
    nodes.compile 1 { checked := true, profile } = .ok program →
    (program.run inputs buffer).result = .error (.signal (.invalidOperation blamed)) →
      ∀ stream, ∃ result rest, nodes.regenerate [blamed.toNat] stream = .ok result rest

/-- A program of the shape is viable. -/
theorem Plain.viable {arguments complexity : Nat} {nodes : Program α}
    (plain : Plain arguments complexity (complexity - 1) nodes) (takes : 0 < arguments)
    (more : arguments < complexity) (addressable : complexity ≤ Node.slotLimit) :
    Viable arguments complexity nodes where
  plain := plain
  validates := (validate_ok_iff nodes).mpr plain.valid
  compiles mode := plain.toShaped.compiles takes (by omega) Nat.one_pos (by omega) (Nat.le_refl _)
    mode
  mutates stream := by
    obtain ⟨result, rest, drawn, _⟩ := (plain.mutate_ensures addressable).total stream
    exact ⟨result, rest, drawn⟩
  repairs stream := by
    obtain ⟨result, rest, drawn, _⟩ := (plain.repair_ensures addressable).total stream
    exact ⟨result, rest, drawn⟩
  optimizes := (optimize_trims plain.valid (complexity - 1)).2
  regenerates profile program inputs buffer blamed compiled stopped stream := by
    have computed : ∀ slot ∈ [blamed.toNat], ∃ node, node? nodes slot = some node ∧
        node.isRemovalProtected = false := by
      simpa using blamed_computed compiled (plain.sized ▸ addressable) stopped
    obtain ⟨result, rest, drawn, _⟩ := (plain.regenerate_ensures addressable computed).total stream
    exact ⟨result, rest, drawn⟩

end Program

end ProgramSearch
