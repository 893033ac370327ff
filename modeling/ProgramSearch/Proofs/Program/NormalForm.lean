import Mathlib.Algebra.Order.BigOperators.Group.Finset
import Mathlib.Logic.Relation
import ProgramSearch.Proofs.Number.Small
import ProgramSearch.Proofs.Program.Optimization

/-!
# The normal form of a program

A round replaces nodes by lighter ones or empties slots, and says whether it did. A round that says
so has made the program lighter, so after finitely many rounds one comes that changes nothing. What
it was given is what it leaves: no node has a simpler form over the slots before it, and every node
that is neither protected nor an argument is read, directly or through other nodes, from a protected
slot. Such a program is in normal form, and simplifying it again changes nothing.

Neither the weights nor the marks of the sweep need a valid program.
-/

namespace ProgramSearch.Program

variable {α : Type}

section Weights

/-- The weight of what a slot holds. -/
def slotWeight (nodes : Program α) (slot : Nat) : Nat :=
  ((node? nodes slot).map Node.weight).getD 0

/-- A program weighs what its slots weigh. -/
theorem weight_eq_sum (nodes : Program α) :
    weight nodes = ∑ slot ∈ Finset.range nodes.size, slotWeight nodes slot := by
  let counted (count total : Nat) : Prop :=
    total = ∑ slot ∈ Finset.range count, slotWeight nodes slot
  refine Array.foldl_induction counted rfl ?_
  rintro index total before
  simp only [counted, Finset.sum_range_succ, slotWeight, node_inside nodes index index.isLt]
  exact congrArg (· + _) before

theorem node_weight_positive (node : Node α) : 0 < node.weight := by
  cases node <;> exact Nat.succ_pos _

theorem direct_weight_lt {node : Node α} (direct : node.isDirect = true) : node.weight < 3 := by
  cases node with
  | constant | argument | move => simp [Node.weight]
  | binary | conditional | guarded => cases direct

/-- Every slot is as it was or holds something lighter. The flag tells whether one is lighter. -/
structure Lightened (nodes : Program α) (changed : Bool) (result : Program α) : Prop where
  sized : result.size = nodes.size
  slots : ∀ slot, node? result slot = node? nodes slot ∨
    slotWeight result slot < slotWeight nodes slot
  changed_iff : changed = true ↔ ∃ slot, slotWeight result slot < slotWeight nodes slot

namespace Lightened

variable {nodes middle result : Program α} {changed changedAgain : Bool}

theorem refl (nodes : Program α) : Lightened nodes false nodes where
  sized := rfl
  slots _ := .inl rfl
  changed_iff := by simp

theorem slot_le (lightened : Lightened nodes changed result) (slot : Nat) :
    slotWeight result slot ≤ slotWeight nodes slot := by
  rcases lightened.slots slot with same | less
  · exact Nat.le_of_eq (by rw [slotWeight, slotWeight, same])
  · exact Nat.le_of_lt less

/-- What changes a program twice tells whether one of the changes did. -/
theorem trans (first : Lightened nodes changed middle)
    (second : Lightened middle changedAgain result) :
    Lightened nodes (changed || changedAgain) result where
  sized := second.sized.trans first.sized
  slots slot := by
    rcases second.slots slot with same | less
    · rcases first.slots slot with before | less
      · exact .inl (same.trans before)
      · exact .inr (Nat.lt_of_le_of_lt (second.slot_le slot) less)
    · exact .inr (Nat.lt_of_lt_of_le less (first.slot_le slot))
  changed_iff := by
    rw [Bool.or_eq_true, first.changed_iff, second.changed_iff]
    constructor
    · rintro (⟨slot, less⟩ | ⟨slot, less⟩)
      · exact ⟨slot, Nat.lt_of_le_of_lt (second.slot_le slot) less⟩
      · exact ⟨slot, Nat.lt_of_lt_of_le less (first.slot_le slot)⟩
    · rintro ⟨slot, less⟩
      rcases first.slots slot with before | early
      · rw [slotWeight, slotWeight, ← before] at less
        exact .inr ⟨slot, less⟩
      · exact .inl ⟨slot, early⟩

/-- A slot that is added to both programs changes nothing. -/
theorem push_same (lightened : Lightened nodes changed result) (content : Option (Node α)) :
    Lightened (nodes.push content) changed (result.push content) where
  sized := by simp [lightened.sized]
  slots slot := by
    simp only [slotWeight, node_push, lightened.sized]
    split
    · exact .inl rfl
    · exact lightened.slots slot
  changed_iff := by
    rw [lightened.changed_iff]
    simp only [slotWeight, node_push, lightened.sized]
    constructor
    · rintro ⟨slot, less⟩
      refine ⟨slot, ?_⟩
      split
      · rename_i last
        rw [node_beyond nodes slot (Nat.le_of_eq last.symm)] at less
        exact absurd less (Nat.not_lt_zero _)
      · exact less
    · rintro ⟨slot, less⟩
      split at less
      · exact absurd less (Nat.lt_irrefl _)
      · exact ⟨slot, less⟩

/-- A slot that is added with a lighter node is a change. -/
theorem push_lighter (lightened : Lightened nodes changed result) {node form : Node α}
    (lighter : form.weight < node.weight) :
    Lightened (nodes.push (some node)) true (result.push (some form)) where
  sized := by simp [lightened.sized]
  slots slot := by
    simp only [slotWeight, node_push, lightened.sized]
    split
    · exact .inr lighter
    · exact lightened.slots slot
  changed_iff := by
    refine iff_of_true rfl ⟨nodes.size, ?_⟩
    simpa [slotWeight, node_push, lightened.sized] using lighter

/-- Emptying a slot that holds a node is a change. -/
theorem clear {slot : Nat} {node : Node α} (held : node? nodes slot = some node) :
    Lightened nodes true (nodes.setIfInBounds slot none) where
  sized := Array.size_setIfInBounds
  slots other := by
    simp only [slotWeight, node_clear]
    split
    · rename_i here
      subst here
      exact .inr (by simpa [held] using node_weight_positive node)
    · exact .inl rfl
  changed_iff := by
    refine iff_of_true rfl ⟨slot, ?_⟩
    simpa [slotWeight, node_clear, held] using node_weight_positive node

/-- What is not changed is the same. -/
theorem unchanged (lightened : Lightened nodes false result) : result = nodes := by
  have none_less : ∀ slot, ¬ slotWeight result slot < slotWeight nodes slot := by
    intro slot less
    exact Bool.false_ne_true (lightened.changed_iff.mpr ⟨slot, less⟩)
  apply Array.ext lightened.sized
  intro slot inside insideNodes
  have same := (lightened.slots slot).resolve_right (none_less slot)
  rwa [node_inside result slot inside, node_inside nodes slot insideNodes] at same

/-- A change makes the program lighter. -/
theorem weight_lt (lightened : Lightened nodes true result) : weight result < weight nodes := by
  obtain ⟨slot, less⟩ := lightened.changed_iff.mp rfl
  have inside : slot < nodes.size := by
    by_contra beyond
    rw [slotWeight, slotWeight, node_beyond nodes slot (Nat.le_of_not_lt beyond)] at less
    exact Nat.not_lt_zero _ less
  rw [weight_eq_sum, weight_eq_sum, lightened.sized]
  exact Finset.sum_lt_sum (fun other _ => lightened.slot_le other)
    ⟨slot, Finset.mem_range.mpr inside, less⟩

end Lightened

end Weights

section Sweeping

/-- A node reads a slot. -/
def Reads (nodes : Program α) (reader slot : Nat) : Prop :=
  ∃ node, node? nodes reader = some node ∧ ∃ read ∈ node.reads, read.toNat = slot

namespace Removal

variable {protectedStart slot : Nat} {removal : Removal α}

/-- Why nodes behind a slot were kept: an unprotected node that is not an argument has a reader
behind it, and every mark was made by a reader behind the slot. -/
structure Excused (protectedStart slot : Nat) (removal : Removal α) : Prop where
  read : ∀ other node, slot < other → other < protectedStart →
    node? removal.nodes other = some node → (∀ parameter, node ≠ .argument parameter) →
      ∃ reader, other < reader ∧ Reads removal.nodes reader other
  marked : ∀ other, removal.useful.getD other false = true →
    ∃ reader, slot < reader ∧ Reads removal.nodes reader other

/-- Before the sweep nothing is marked, and there are no nodes behind the last slot. -/
theorem excused_start (nodes : Program α) (protectedStart : Nat) :
    Excused protectedStart (nodes.size - 1)
      ⟨nodes, Array.replicate nodes.size false, false, true⟩ where
  read other node behind _ held := by
    have inside := node_bound nodes other node held
    omega
  marked other useful := by
    simp [Array.getD_eq_getD_getElem?, Array.getElem?_replicate] at useful
    split at useful <;> simp at useful

/-- An empty slot needs no excuse. -/
theorem excused_empty (excused : Excused protectedStart (slot + 1) removal)
    (empty : node? removal.nodes (slot + 1) = none) : Excused protectedStart slot removal where
  read other node behind free held computed := by
    by_cases last : other = slot + 1
    · rw [last, empty] at held
      cases held
    · exact excused.read other node (by omega) free held computed
  marked other useful := by
    obtain ⟨reader, behind, reads⟩ := excused.marked other useful
    exact ⟨reader, by omega, reads⟩

/-- Emptying a slot takes no reader behind it away. -/
theorem reads_clear {nodes : Program α} {reader other : Nat} (behind : slot < reader)
    (reads : Reads nodes reader other) :
    Reads (nodes.setIfInBounds slot none) reader other := by
  obtain ⟨node, held, member⟩ := reads
  refine ⟨node, ?_, member⟩
  rw [node_clear, if_neg (Nat.ne_of_gt behind)]
  exact held

/-- Emptying a slot takes no excuse away: the readers stand behind it. -/
theorem excused_remove (excused : Excused protectedStart (slot + 1) removal) (changed : Bool) :
    Excused protectedStart slot
      { removal with nodes := removal.nodes.setIfInBounds (slot + 1) none, changed } where
  read other node behind free held computed := by
    rw [node_clear] at held
    split at held
    · cases held
    · obtain ⟨reader, later, reads⟩ := excused.read other node (by omega) free held computed
      exact ⟨reader, later, reads_clear (by omega) reads⟩
  marked other useful := by
    obtain ⟨reader, behind, reads⟩ := excused.marked other useful
    exact ⟨reader, by omega, reads_clear behind reads⟩

/-- Keeping a node excuses what it reads. -/
theorem excused_keep (excused : Excused protectedStart (slot + 1) removal) {node : Node α}
    (held : node? removal.nodes (slot + 1) = some node)
    (kept : slot + 1 < protectedStart → (∀ parameter, node ≠ .argument parameter) →
      removal.useful.getD (slot + 1) false = true) :
    Excused protectedStart slot (removal.keep node) where
  read other entry behind free found computed := by
    by_cases last : other = slot + 1
    · subst last
      obtain rfl := Option.some.inj (held.symm.trans found)
      exact excused.marked (slot + 1) (kept free computed)
    · exact excused.read other entry (by omega) free found computed
  marked other useful := by
    rcases (marks_exact node.reads removal.useful other).mp useful with before | ⟨_, reads⟩
    · obtain ⟨reader, behind, reads⟩ := excused.marked other before
      exact ⟨reader, by omega, reads⟩
    · exact ⟨slot + 1, Nat.lt_succ_self slot, node, held, reads⟩

/-- Visiting a slot keeps every excuse, and tells whether the program became lighter. -/
theorem visit_spec (excused : Excused protectedStart (slot + 1) removal) :
    Excused protectedStart slot (removal.visit protectedStart (slot + 1)) ∧
      ∃ changed, Lightened removal.nodes changed
          (removal.visit protectedStart (slot + 1)).nodes ∧
        (removal.visit protectedStart (slot + 1)).changed = (removal.changed || changed) := by
  unfold visit
  cases held : node? removal.nodes (slot + 1) with
  | none => exact ⟨excused_empty excused held, false, .refl _, (Bool.or_false _).symm⟩
  | some node =>
    simp only
    split
    · exact ⟨excused_remove excused true, true, .clear held, (Bool.or_true _).symm⟩
    · rename_i kept
      refine ⟨excused_keep excused held ?_, false, .refl _, (Bool.or_false _).symm⟩
      intro free computed
      have unprotected : node.isRemovalProtected = false := by
        cases node with
        | argument parameter => exact absurd rfl (computed parameter)
        | constant | binary | move | conditional | guarded => rfl
      simpa [free, unprotected] using kept

/-- The sweep keeps every excuse, and tells whether the program became lighter. -/
theorem sweep_spec (excused : Excused protectedStart slot removal) :
    Excused protectedStart 0 (sweep protectedStart slot removal) ∧
      ∃ changed, Lightened removal.nodes changed (sweep protectedStart slot removal).nodes ∧
        (sweep protectedStart slot removal).changed = (removal.changed || changed) := by
  induction slot generalizing removal with
  | zero => exact ⟨excused, false, .refl _, (Bool.or_false _).symm⟩
  | succ slot inductionHypothesis =>
    obtain ⟨next, first, lighter, told⟩ := visit_spec excused
    obtain ⟨last, second, further, toldAgain⟩ := inductionHypothesis next
    refine ⟨last, first || second, lighter.trans further, ?_⟩
    rw [sweep, toldAgain, told, Bool.or_assoc]

/-- After the sweep, every node that is neither protected nor an argument is read from a protected
slot. Its reader stands behind it, so the chain of readers ends among the protected slots. -/
theorem Excused.reached (excused : Excused protectedStart 0 removal) (slot : Nat) (node : Node α)
    (later : 0 < slot) (free : slot < protectedStart) (held : node? removal.nodes slot = some node)
    (computed : ∀ parameter, node ≠ .argument parameter) :
    ∃ origin, protectedStart ≤ origin ∧
      Relation.TransGen (Reads removal.nodes) origin slot := by
  obtain ⟨reader, behind, reads⟩ := excused.read slot node later free held computed
  by_cases protect : protectedStart ≤ reader
  · exact ⟨reader, protect, .single reads⟩
  · obtain ⟨entry, found, read, member, _⟩ := reads
    have computedReader : ∀ parameter, entry ≠ .argument parameter := by
      rintro parameter rfl
      cases member
    obtain ⟨origin, protects, path⟩ := excused.reached reader entry (Nat.zero_lt_of_lt behind)
      (Nat.lt_of_not_le protect) found computedReader
    exact ⟨origin, protects, path.tail ⟨entry, found, read, member, ‹_›⟩⟩
termination_by protectedStart - slot

end Removal

/-- Removing dead nodes excuses every node that is left, and tells whether the program became
lighter. -/
theorem remove_dead_spec (nodes : Program α) (protectedStart : Nat) :
    Removal.Excused protectedStart 0 (removeDead nodes protectedStart) ∧
      Lightened nodes (removeDead nodes protectedStart).changed
        (removeDead nodes protectedStart).nodes := by
  obtain ⟨excused, changed, lightened, told⟩ :=
    Removal.sweep_spec (Removal.excused_start nodes protectedStart)
  rw [Bool.false_or] at told
  refine ⟨excused, ?_⟩
  rw [removeDead, told]
  exact lightened

end Sweeping

variable [Number α]

section Simplifying

/-- A simpler form is lighter than its node. -/
theorem simpler_lighter {prior : Prior α} {node form : Node α}
    (found : node.simpler? prior = some form) : form.weight < node.weight := by
  have direct := Node.simpler_direct (Node.simpler_inversion found)
  cases node with
  | constant | argument => cases found
  | binary | conditional => exact direct_weight_lt direct
  | move | guarded =>
    obtain ⟨value, _, rfl⟩ := Option.map_eq_some_iff.mp found
    exact Nat.lt_of_sub_eq_succ rfl

/-- No node behind the leading one has a simpler form over the slots before it. -/
def Irreducible (nodes : Program α) : Prop :=
  ∀ slot node, 0 < slot → node? nodes slot = some node →
    node.simpler? (prior (nodes.extract 0 slot)) = none

/-- Simplification of the leading slots in progress. As long as nothing was changed, the slots are
known as they stand and have no simpler forms. -/
structure Simplified (nodes : Program α) (count : Nat) (state : Simplification α) : Prop where
  sized : state.prior.size = count
  lightened : Lightened (nodes.extract 0 count) state.changed state.prior.program
  settled : state.changed = false → state.prior = prior (nodes.extract 0 count) ∧
    ∀ slot node, 0 < slot → slot < count → node? nodes slot = some node →
      node.simpler? (prior (nodes.extract 0 slot)) = none

/-- Before the first slot nothing was changed. -/
theorem simplified_start (nodes : Program α) : Simplified nodes 0 ⟨#[], false⟩ where
  sized := rfl
  lightened := by
    simpa [Prior.program] using Lightened.refl (#[] : Program α)
  settled _ := by
    refine ⟨?_, fun slot node _ none => absurd none (Nat.not_lt_zero slot)⟩
    rw [Array.extract_zero]
    rfl

/-- A step over one more slot. -/
theorem simplified_step {nodes : Program α} {count : Nat} {state : Simplification α}
    (inside : count < nodes.size) (simplified : Simplified nodes count state) :
    Simplified nodes (count + 1) (state.step nodes[count]) := by
  have leading : nodes.extract 0 (count + 1) = (nodes.extract 0 count).push nodes[count] := by
    rw [Array.push_extract_getElem inside, Nat.zero_min]
  have keeps (settles : state.changed = false → 0 < count →
      nodes[count].bind (Node.simpler? state.prior) = none) :
      Simplified nodes (count + 1) ⟨state.prior.extend nodes[count], state.changed⟩ := by
    refine ⟨by simp [Prior.extend, simplified.sized], ?_, fun unchanged => ?_⟩
    · rw [leading, Prior.program_extend]
      exact simplified.lightened.push_same nodes[count]
    · obtain ⟨known, before⟩ := simplified.settled unchanged
      refine ⟨by rw [leading, prior_push, known], fun slot node later earlier held => ?_⟩
      rcases Nat.lt_succ_iff_lt_or_eq.mp earlier with behind | rfl
      · exact before slot node later behind held
      · have settled := settles unchanged later
        rwa [← node_inside nodes slot inside, held, known] at settled
  unfold Simplification.step
  split
  · rename_i form found
    split
    · rename_i leadingSlot
      refine keeps fun _ later => ?_
      rw [Array.isEmpty_iff_size_eq_zero, simplified.sized] at leadingSlot
      omega
    · obtain ⟨node, held, simpler⟩ := Option.bind_eq_some_iff.mp found
      refine ⟨by simp [Prior.extend, simplified.sized], ?_, fun unchanged => by cases unchanged⟩
      rw [leading, Prior.program_extend, held]
      exact simplified.lightened.push_lighter (simpler_lighter simpler)
  · rename_i settled
    exact keeps fun _ _ => settled

/-- Simplifying tells whether the program became lighter. A program that it leaves alone has no
simpler nodes. -/
theorem simplify_spec (nodes : Program α) :
    Lightened nodes (simplify nodes).2 (simplify nodes).1 ∧
      ((simplify nodes).2 = false → Irreducible nodes) := by
  have simplified : Simplified nodes nodes.size (nodes.foldl Simplification.step ⟨#[], false⟩) :=
    Array.foldl_induction (Simplified nodes) (simplified_start nodes)
      fun index _ before => simplified_step index.isLt before
  have lightened := simplified.lightened
  rw [Array.extract_size] at lightened
  refine ⟨lightened, fun unchanged slot node later held => ?_⟩
  exact (simplified.settled unchanged).2 slot node later (node_bound nodes slot node held) held

end Simplifying

section Rounds

variable {protectedStart : Nat}

/-- No node can be simplified, and every node that is neither protected nor an argument is read,
directly or through other nodes, from a protected slot. -/
structure Normal (nodes : Program α) (protectedStart : Nat) : Prop where
  irreducible : Irreducible nodes
  reached : ∀ slot node, 0 < slot → slot < protectedStart → node? nodes slot = some node →
    (∀ parameter, node ≠ .argument parameter) →
      ∃ origin, protectedStart ≤ origin ∧ Relation.TransGen (Reads nodes) origin slot

/-- A round tells whether the program became lighter. -/
theorem optimize_round_lightens (nodes : Program α) (protectedStart : Nat) :
    Lightened nodes (optimizeRound nodes protectedStart).changed
      (optimizeRound nodes protectedStart).nodes :=
  (simplify_spec nodes).1.trans (remove_dead_spec _ protectedStart).2

/-- A round that says so changes nothing. -/
theorem optimize_round_unchanged {nodes : Program α}
    (unchanged : (optimizeRound nodes protectedStart).changed = false) :
    (optimizeRound nodes protectedStart).nodes = nodes :=
  (unchanged ▸ optimize_round_lightens nodes protectedStart).unchanged

/-- A round that changes nothing was given a program in normal form. -/
theorem normal_of_unchanged {nodes : Program α}
    (unchanged : (optimizeRound nodes protectedStart).changed = false) :
    Normal nodes protectedStart := by
  have simpler : (simplify nodes).2 = false := (Bool.or_eq_false_iff.mp unchanged).1
  refine ⟨(simplify_spec nodes).2 simpler, ?_⟩
  have excused : Removal.Excused protectedStart 0 (optimizeRound nodes protectedStart) :=
    ⟨(remove_dead_spec _ protectedStart).1.read, (remove_dead_spec _ protectedStart).1.marked⟩
  rw [← optimize_round_unchanged unchanged]
  exact excused.reached

/-- Rounds follow one another until one changes nothing. -/
inductive Repeats (protectedStart : Nat) : Optimized α → Optimized α → Prop where
  | settled {state : Optimized α} :
      (optimizeRound state.nodes protectedStart).changed = false →
      Repeats protectedStart state ⟨(optimizeRound state.nodes protectedStart).nodes,
        state.rounds, state.inBounds && (optimizeRound state.nodes protectedStart).inBounds⟩
  | again {state result : Optimized α} :
      (optimizeRound state.nodes protectedStart).changed = true →
      Repeats protectedStart ⟨(optimizeRound state.nodes protectedStart).nodes, state.rounds + 1,
        state.inBounds && (optimizeRound state.nodes protectedStart).inBounds⟩ result →
      Repeats protectedStart state result

/-- The weight of a program is more than the number of rounds that change something. -/
theorem optimize_rounds_repeats (fuel : Nat) (state : Optimized α)
    (enough : weight state.nodes < fuel) :
    Repeats protectedStart state (optimizeRounds protectedStart fuel state) := by
  induction fuel generalizing state with
  | zero => exact absurd enough (Nat.not_lt_zero _)
  | succ fuel inductionHypothesis =>
    unfold optimizeRounds
    simp only
    split
    · rename_i changed
      have lighter : weight (optimizeRound state.nodes protectedStart).nodes < weight state.nodes :=
        (changed ▸ optimize_round_lightens state.nodes protectedStart).weight_lt
      exact .again changed (inductionHypothesis _ (by simp only; omega))
    · rename_i unchanged
      exact .settled (Bool.eq_false_iff.mpr unchanged)

/-- A round leaves a program alone that has no slot behind the leading one. -/
theorem optimize_round_small {nodes : Program α} (small : nodes.size < 2) :
    (optimizeRound nodes protectedStart).changed = false ∧
      (optimizeRound nodes protectedStart).inBounds = true := by
  have simpler : (simplify nodes).2 = false := by
    obtain ⟨contents⟩ := nodes
    match contents, small with
    | [], _ => rfl
    | [content], _ =>
      change (Simplification.step ⟨#[], false⟩ content).changed = false
      unfold Simplification.step
      split <;> rfl
  have last : (simplify nodes).1.size - 1 = 0 := by
    rw [(simplify_spec nodes).1.sized]
    omega
  have unswept : removeDead (simplify nodes).1 protectedStart = ⟨(simplify nodes).1,
      Array.replicate (simplify nodes).1.size false, false, true⟩ := by
    rw [removeDead, last, Removal.sweep]
  simp [optimizeRound, simpler, unswept]

/-- Simplifying repeats rounds until one changes nothing. -/
theorem optimize_repeats (nodes : Program α) (protectedStart : Nat) :
    Repeats protectedStart ⟨nodes, 0, true⟩ (optimize nodes protectedStart) := by
  unfold optimize
  split
  · rename_i small
    obtain ⟨unchanged, inBounds⟩ : (optimizeRound nodes protectedStart).changed = false ∧
        (optimizeRound nodes protectedStart).inBounds = true := optimize_round_small small
    have settled : Repeats protectedStart ⟨nodes, 0, true⟩
        ⟨(optimizeRound nodes protectedStart).nodes, 0,
          true && (optimizeRound nodes protectedStart).inBounds⟩ := .settled unchanged
    rwa [optimize_round_unchanged unchanged, inBounds] at settled
  · exact optimize_rounds_repeats _ ⟨nodes, 0, true⟩ (Nat.lt_succ_self _)

/-- Where rounds end, another one changes nothing. -/
theorem Repeats.normal {state result : Optimized α}
    (repeated : Repeats protectedStart state result) :
    (optimizeRound result.nodes protectedStart).changed = false := by
  induction repeated with
  | @settled state unchanged =>
    rw [optimize_round_unchanged unchanged]
    exact unchanged
  | again _ _ inductionHypothesis => exact inductionHypothesis

/-- Every round that is counted has taken some of the weight away. -/
theorem Repeats.rounds_bounded {state result : Optimized α}
    (repeated : Repeats protectedStart state result) :
    result.rounds + weight result.nodes ≤ state.rounds + weight state.nodes := by
  induction repeated with
  | settled unchanged =>
    simp only [optimize_round_unchanged unchanged]
    exact Nat.le_refl _
  | @again state result changed _ inductionHypothesis =>
    have lighter : weight (optimizeRound state.nodes protectedStart).nodes < weight state.nodes :=
      (changed ▸ optimize_round_lightens state.nodes protectedStart).weight_lt
    simp only at inductionHypothesis
    omega

/-- Simplifying a valid program once more changes nothing if a round does not. -/
theorem optimize_of_unchanged {nodes : Program α} (valid : Valid nodes)
    (unchanged : (optimizeRound nodes protectedStart).changed = false) :
    optimize nodes protectedStart = ⟨nodes, 0, true⟩ := by
  have inBounds := (optimize_round_trims valid protectedStart).2
  unfold optimize
  split
  · rfl
  · simp [optimizeRounds, unchanged, inBounds, optimize_round_unchanged unchanged]

/-- Simplifying a valid program comes to an end: after no more rounds than the program weighs one
changes nothing. The program that is left is valid and in normal form. The leading slot and the
arguments are as they were, empty slots are still empty, and protected slots still hold nodes.
Simplifying it again takes no round and changes nothing. -/
theorem optimization_reaches_normal_form (nodes : Program α) (protectedStart : Nat)
    (accepted : validate nodes = .ok ()) :
    ∃ result rounds, optimize nodes protectedStart = ⟨result, rounds, true⟩ ∧
      Repeats protectedStart ⟨nodes, 0, true⟩ ⟨result, rounds, true⟩ ∧ rounds ≤ weight nodes ∧
      validate result = .ok () ∧ result.size = nodes.size ∧
      node? result 0 = node? nodes 0 ∧
      (∀ slot parameter, node? nodes slot = some (.argument parameter) →
        node? result slot = some (.argument parameter)) ∧
      (∀ slot, isPresent nodes slot = false → isPresent result slot = false) ∧
      (∀ slot, protectedStart ≤ slot → isPresent nodes slot = true →
        isPresent result slot = true) ∧
      Normal result protectedStart ∧
      optimize result protectedStart = ⟨result, 0, true⟩ := by
  have repeated := optimize_repeats nodes protectedStart
  obtain ⟨trimmed, inBounds⟩ := optimize_trims ((validate_ok_iff nodes).mp accepted) protectedStart
  generalize optimized : optimize nodes protectedStart = ending at repeated trimmed inBounds
  obtain ⟨result, rounds, bounded⟩ := ending
  obtain rfl : bounded = true := inBounds
  have counted : rounds + weight result ≤ 0 + weight nodes := repeated.rounds_bounded
  refine ⟨result, rounds, rfl, repeated, by omega, (validate_ok_iff result).mpr trimmed.valid,
    trimmed.sized, trimmed.leading, trimmed.arguments, fun slot empty => ?_, trimmed.kept,
    normal_of_unchanged repeated.normal, optimize_of_unchanged trimmed.valid repeated.normal⟩
  exact Bool.eq_false_iff.mpr fun present => by simp [trimmed.absent slot present] at empty

/-- A conditional that is decided, a product with a one, a name for the product, and an output
that reads the name. -/
def tangled : Program Small :=
  #[some (.argument 0), some (.constant (Small.ofInt 1)), some (.binary .add 0 0),
    some (.conditional 2 0 1), none, some (.binary .mul 3 1), some (.move 5),
    some (.binary .sub 6 0)]

/-- One round unties the program, and the next one changes nothing. The sum is read from the output
through the name. -/
theorem tangled_unties :
    validate tangled = .ok () ∧ (optimize tangled 7).rounds = 1 ∧
      (optimize tangled 7).nodes =
        #[some (.argument 0), none, some (.binary .add 0 0), none, none, some (.move 2),
          some (.move 5), some (.binary .sub 6 0)] ∧
      Normal (optimize tangled 7).nodes 7 ∧
      optimize (optimize tangled 7).nodes 7 = ⟨(optimize tangled 7).nodes, 0, true⟩ := by
  have accepted : validate tangled = .ok () := by decide +kernel
  obtain ⟨result, rounds, optimized, _, _, _, _, _, _, _, _, normal, again⟩ :=
    optimization_reaches_normal_form tangled 7 accepted
  refine ⟨accepted, by decide +kernel, by decide +kernel, ?_, ?_⟩
  · rw [optimized]
    exact normal
  · rw [optimized]
    exact again

end Rounds

end ProgramSearch.Program
