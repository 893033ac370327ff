import ProgramSearch.Proofs.Program.Commitment
import ProgramSearch.Proofs.Program.Generation
import ProgramSearch.Proofs.Program.Speculation

/-!
# The shape of evolving programs

A program that evolves starts with its arguments, in order, and holds a node in each slot of a
protected region that contains its outputs. Whatever happens to it, it keeps this shape: trimming
leaves the arguments and the protected slots alone, regenerating fills slots and empties none, and
the slots that are regenerated hold no argument. Requests that change a program of this shape, and
the request for a fresh one, therefore never fail.

A program of this shape compiles, and it reads exactly its arguments.
-/

namespace ProgramSearch.Program

variable {α : Type}

/-- A valid program with leading arguments that reads no other ones, and whose slots from the
protected one on hold nodes. -/
structure Shaped (arguments size protectedStart : Nat) (nodes : Program α) : Prop where
  sized : nodes.size = size
  leads : ∀ slot, slot < arguments → node? nodes slot = some (.argument (UInt16.ofNat slot))
  valid : Valid nodes
  present : ∀ slot, protectedStart ≤ slot → slot < size → isPresent nodes slot = true
  bounded : ∀ slot parameter, node? nodes slot = some (.argument parameter) →
    parameter.toNat < arguments

/-- A program of the shape that holds no guards. -/
structure Plain (arguments size protectedStart : Nat) (nodes : Program α) : Prop extends
    Shaped arguments size protectedStart nodes where
  unguarded : Unguarded nodes

section Shapes

variable {arguments size protectedStart : Nat} {nodes result : Program α}

namespace Shaped

/-- Fewer slots may be protected. -/
theorem relax (shaped : Shaped arguments size protectedStart nodes) {later : Nat}
    (fewer : protectedStart ≤ later) : Shaped arguments size later nodes :=
  { shaped with present := fun slot behind => shaped.present slot (Nat.le_trans fewer behind) }

/-- Trimming keeps the shape if it spares the protected slots. -/
theorem trimmed (shaped : Shaped arguments size protectedStart nodes)
    (trimmed : Trimmed nodes protectedStart result) :
    Shaped arguments size protectedStart result where
  sized := trimmed.sized.trans shaped.sized
  leads slot leading := trimmed.arguments slot _ (shaped.leads slot leading)
  valid := trimmed.valid
  present slot behind inside := trimmed.kept slot behind (shaped.present slot behind inside)
  bounded slot parameter held := by
    obtain ⟨other, found⟩ := trimmed.borrowed slot parameter held
    exact shaped.bounded other parameter found

/-- A guarded copy has the shape of its original. -/
theorem copied (shaped : Shaped arguments size protectedStart nodes)
    (copied : GuardedCopy nodes result) : Shaped arguments size protectedStart result where
  sized := copied.sized.trans shaped.sized
  leads slot leading := by
    have content := copied.slots slot
    rw [shaped.leads slot leading] at content
    generalize node? result slot = changed at content ⊢
    cases content with
    | same => rfl
  valid := copied.valid shaped.valid
  present slot behind inside := (copied.present_eq slot).trans (shaped.present slot behind inside)
  bounded slot parameter held := shaped.bounded slot parameter (copied.argument held)

/-- Regrowing slots behind the arguments keeps the shape. -/
theorem regrown (shaped : Shaped arguments size protectedStart nodes) {slots : List Nat}
    (behind : ∀ slot ∈ slots, arguments ≤ slot) (regrown : Regrown nodes slots result) :
    Shaped arguments size protectedStart result where
  sized := regrown.sized.trans shaped.sized
  leads slot leading := by
    have held := shaped.leads slot leading
    rw [regrown.kept slot _ ((present_iff nodes slot).mpr ⟨_, held⟩), held]
    intro listed
    exact Nat.not_lt_of_le (behind slot listed) leading
  valid := regrown.valid
  present slot above inside := regrown.present slot (shaped.present slot above inside)
  bounded slot parameter held := by
    rcases regrown.origin slot _ held with old | new
    · exact shaped.bounded slot parameter old
    · exact absurd rfl (new.foreign parameter)

/-- A slot that holds no argument lies behind the leading ones. -/
theorem behind (shaped : Shaped arguments size protectedStart nodes) {slot : Nat} {node : Node α}
    (held : node? nodes slot = some node) (computed : node.isRemovalProtected = false) :
    arguments ≤ slot := by
  by_cases leading : slot < arguments
  · obtain rfl := Option.some.inj (held.symm.trans (shaped.leads slot leading))
    cases computed
  · exact Nat.le_of_not_lt leading

/-- A program of the shape is ready for outputs in the protected region, if it has arguments. -/
theorem ready (shaped : Shaped arguments size protectedStart nodes) (takes : 0 < arguments)
    {outputs : Nat} (positive : 0 < outputs) (enough : outputs ≤ size)
    (protects : protectedStart ≤ size - outputs) : Ready nodes outputs where
  positive := positive
  enough := shaped.sized ▸ enough
  leading := ⟨_, shaped.leads 0 takes, rfl⟩
  valid := shaped.valid
  present slot above below := by
    rw [shaped.sized] at above below
    exact shaped.present slot (Nat.le_trans protects above) below

/-- A program of the shape compiles for outputs in the protected region, in every mode, and it reads
exactly its arguments. -/
theorem compiles (shaped : Shaped arguments size protectedStart nodes) (takes : 0 < arguments)
    (addressable : arguments ≤ Node.slotLimit) {outputs : Nat} (positive : 0 < outputs)
    (enough : outputs ≤ size) (protects : protectedStart ≤ size - outputs) (mode : Mode) :
    ∃ program, compile nodes outputs mode = .ok program ∧ program.arity = arguments := by
  obtain ⟨program, compiled⟩ :=
    compile_of_ready (shaped.ready takes positive enough protects) mode
  obtain ⟨_, _, linked⟩ := linked_of_compile compiled
  refine ⟨program, compiled, Nat.le_antisymm (linked.least arguments shaped.bounded) ?_⟩
  -- The last argument is read, whatever else the program does.
  have last : arguments - 1 < arguments := by omega
  have covered := linked.covers _ _ (shaped.leads (arguments - 1) last)
  rw [UInt16.toNat_ofNat_of_lt' (Nat.lt_of_lt_of_le last addressable)] at covered
  omega

end Shaped

namespace Plain

/-- Fewer slots may be protected. -/
theorem relax (plain : Plain arguments size protectedStart nodes) {later : Nat}
    (fewer : protectedStart ≤ later) : Plain arguments size later nodes :=
  ⟨plain.toShaped.relax fewer, plain.unguarded⟩

/-- Regrowing slots behind the arguments makes no guards. -/
theorem regrown (plain : Plain arguments size protectedStart nodes) {slots : List Nat}
    (behind : ∀ slot ∈ slots, arguments ≤ slot) (regrown : Regrown nodes slots result) :
    Plain arguments size protectedStart result where
  toShaped := plain.toShaped.regrown behind regrown
  unguarded slot branch cond taken held := by
    rcases regrown.origin slot _ held with old | new
    · exact plain.unguarded slot branch cond taken old
    · exact new.unguarded branch cond taken rfl

variable [Number α]

/-- Simplifying keeps the shape. -/
theorem optimized (plain : Plain arguments size protectedStart nodes) :
    Plain arguments size protectedStart (nodes.optimize protectedStart).nodes where
  toShaped := plain.toShaped.trimmed (optimize_trims plain.valid protectedStart).1
  unguarded := optimize_unguarded plain.valid plain.unguarded protectedStart

/-- Committing branches keeps the shape. -/
theorem committed (plain : Plain arguments size protectedStart nodes) (offset : Nat)
    (sides : Sides) : Plain arguments size protectedStart (nodes.prune offset sides false).1 where
  toShaped := plain.toShaped.trimmed (prune_trims offset sides plain.valid protectedStart)
  unguarded := prune_unguarded offset sides plain.unguarded

end Plain

end Shapes

section Requests

variable {arguments size protectedStart : Nat} {nodes : Program α}

/-- The arguments alone have the shape. -/
theorem argument_nodes_plain (addressable : arguments ≤ Node.slotLimit) :
    Plain arguments arguments 0 (argumentNodes arguments : Program α) := by
  have exact : ∀ slot, node? (argumentNodes arguments : Program α) slot =
      if slot < arguments then some (.argument (UInt16.ofNat slot)) else none := by
    intro slot
    by_cases inside : slot < arguments <;> simp [node?, argumentNodes, inside]
  constructor
  case toShaped =>
    constructor
    case sized => exact Array.size_ofFn
    case leads =>
      intro slot inside
      rw [exact, if_pos inside]
    case valid =>
      intro slot node held read member
      rw [exact] at held
      split at held
      · obtain rfl := Option.some.inj held
        cases member
      · cases held
    case present =>
      intro slot _ inside
      rw [isPresent, exact, if_pos inside]
      rfl
    case bounded =>
      intro slot parameter held
      rw [exact] at held
      split at held
      · rename_i inside
        obtain rfl := Node.argument.inj (Option.some.inj held)
        rw [UInt16.toNat_ofNat_of_lt' (Nat.lt_of_lt_of_le inside addressable)]
        exact inside
      · cases held
  case unguarded =>
    intro slot branch cond taken held
    rw [exact] at held
    split at held <;> cases held

/-- A new node at the end of a program without empty slots keeps the shape. -/
theorem Plain.push (plain : Plain arguments size 0 nodes) (enough : arguments ≤ size)
    {node : Node α} (fresh : node.Fresh size) :
    Plain arguments (size + 1) 0 (nodes.push (some node)) := by
  have exact := node_push nodes (some node)
  rw [plain.sized] at exact
  have present : ∀ slot, slot < size + 1 →
      isPresent (nodes.push (some node)) slot = true := by
    intro slot inside
    rw [isPresent, exact]
    split
    · rfl
    · exact plain.present slot (Nat.zero_le slot) (by omega)
  constructor
  case toShaped =>
    constructor
    case sized => rw [Array.size_push, plain.sized]
    case leads =>
      intro slot leading
      rw [exact, if_neg (by omega)]
      exact plain.leads slot leading
    case valid =>
      intro slot entry held read member
      rw [exact] at held
      split at held
      · rename_i same
        obtain rfl := Option.some.inj held
        have earlier := fresh.earlier read member
        exact ⟨same ▸ earlier, present _ (by omega)⟩
      · have earlier := (plain.valid slot entry held read member).1
        have inside := node_bound nodes slot entry held
        rw [plain.sized] at inside
        exact ⟨earlier, present _ (by omega)⟩
    case present =>
      intro slot _ inside
      exact present slot inside
    case bounded =>
      intro slot parameter held
      rw [exact] at held
      split at held
      · exact absurd (Option.some.inj held) (fresh.foreign parameter)
      · exact plain.bounded slot parameter held
  case unguarded =>
    rw [unguarded_push_iff]
    refine ⟨plain.unguarded, fun branch cond taken same => ?_⟩
    exact fresh.unguarded branch cond taken (Option.some.inj same)

variable [Number α] {allowed : Failure → Prop}

/-- Random nodes can be added as long as the slots have addresses. -/
theorem random_nodes_ensures (count : Nat) (plain : Plain arguments size 0 nodes)
    (enough : arguments ≤ size) (addressable : size + count ≤ Node.slotLimit) :
    Draw.Ensures allowed (Plain arguments (size + count) 0) (randomNodes count nodes) := by
  induction count generalizing size nodes with
  | zero => exact Draw.ensures_pure plain
  | succ count inductionHypothesis =>
    rw [randomNodes, plain.sized]
    apply (Node.random_ensures (.inl (by omega))).bind
    intro node fresh
    rw [Nat.add_comm count 1, ← Nat.add_assoc]
    exact inductionHypothesis (plain.push enough fresh) (by omega) (by omega)

/-- A fresh program has the shape, without empty slots. It is refused if its slots have no
addresses. -/
theorem generated_ensures (takes : 0 < arguments) (more : arguments < size)
    (addressable : size ≤ Node.slotLimit ∨ allowed (.fault (.misfit (.slotCount size)))) :
    Draw.Ensures allowed (Plain arguments size 0)
      (generate arguments size : Draw (Program α)) := by
  rw [generate, if_neg (Nat.ne_of_gt takes), if_neg (Nat.not_le_of_lt more)]
  split
  · rename_i beyond
    exact Draw.ensures_throw (addressable.resolve_left (Nat.not_le_of_lt beyond))
  · have whole : arguments + (size - arguments) = size := Nat.add_sub_cancel' (Nat.le_of_lt more)
    have grown : Draw.Ensures allowed (Plain arguments (arguments + (size - arguments)) 0)
        (randomNodes (size - arguments) (argumentNodes arguments : Program α)) :=
      random_nodes_ensures _ (argument_nodes_plain (by omega)) (Nat.le_refl _) (by omega)
    rw [whole] at grown
    exact grown

/-- A fresh program has the shape, without empty slots. -/
theorem generate_ensures (takes : 0 < arguments) (more : arguments < size)
    (addressable : size ≤ Node.slotLimit) :
    Draw.Ensures allowed (Plain arguments size 0)
      (generate arguments size : Draw (Program α)) :=
  generated_ensures takes more (.inl addressable)

/-- Whatever is generated has the shape. A request for something else is refused. -/
theorem generated_plain : Draw.Ensures (fun _ => True) (Plain arguments size 0)
    (generate arguments size : Draw (Program α)) := by
  by_cases takes : 0 < arguments
  · by_cases more : arguments < size
    · exact generated_ensures takes more (.inr trivial)
    · rw [generate, if_neg (Nat.ne_of_gt takes), if_pos (Nat.le_of_not_lt more)]
      exact Draw.ensures_throw trivial
  · rw [generate, if_pos (by omega)]
    exact Draw.ensures_throw trivial

namespace Plain

/-- Repairs keep the shape: a slot that holds no argument lies behind the leading ones. -/
theorem repairable :
    Repairable protectedStart (Plain (α := α) arguments size protectedStart) where
  valid plain := plain.valid
  simplified plain := plain.optimized
  regrown plain computed regrown := plain.regrown (fun slot member => by
    obtain ⟨_, node, held, free⟩ := computed slot member
    exact plain.behind held free) regrown

/-- Slots that hold no arguments can be regenerated, which keeps the shape. -/
theorem regenerate_ensures (plain : Plain arguments size protectedStart nodes)
    (addressable : size ≤ Node.slotLimit) {slots : List Nat}
    (computed : ∀ slot ∈ slots, ∃ node, node? nodes slot = some node ∧
      node.isRemovalProtected = false) :
    Draw.Ensures allowed (Plain arguments size protectedStart) (regenerate nodes slots) := by
  have whole : nodes.size ≤ Node.slotLimit ∨ allowed .crash := .inl (plain.sized ▸ addressable)
  have inside : ∀ slot ∈ slots, slot < nodes.size := by
    intro slot member
    obtain ⟨node, held, _⟩ := computed slot member
    exact node_bound nodes slot node held
  apply (Program.regenerate_ensures plain.valid whole inside).weaken
  intro result regrown
  refine plain.regrown (fun slot member => ?_) regrown
  obtain ⟨node, held, free⟩ := computed slot member
  exact plain.behind held free

/-- A mutation behind the arguments keeps the shape. -/
theorem mutate_ensures (plain : Plain arguments size protectedStart nodes)
    (addressable : size ≤ Node.slotLimit) :
    Draw.Ensures allowed (fun result => Plain arguments size protectedStart result.1)
      (mutate nodes arguments) := by
  apply (Program.mutate_ensures plain.valid (.inl (plain.sized ▸ addressable)) arguments).weaken
  rintro result ⟨slots, later, regrown⟩
  exact plain.regrown (fun slot member => Nat.le_trans (Nat.le_max_left _ _) (later slot member))
    regrown

/-- A repair keeps the shape. -/
theorem repair_ensures (plain : Plain arguments size protectedStart nodes)
    (addressable : size ≤ Node.slotLimit) :
    Draw.Ensures allowed (fun result => Plain arguments size protectedStart result.1)
      (repair nodes protectedStart) :=
  repairable.repair_ensures plain (.inl (plain.sized ▸ addressable))

end Plain

end Requests

end ProgramSearch.Program
