import ProgramSearch.Program.Generation
import ProgramSearch.Proofs.Program.Optimization
import ProgramSearch.Proofs.Random.Draw

/-!
# Regenerating slots

A new node reads earlier slots only and is neither an argument nor a guard. It may read a slot that
is empty; then that slot waits for a new node as well. A node whose slot does not wait has operands
that are earlier than it and are present or waiting, so when nothing waits any more, the program is
valid.

Each new node takes its slot from the queue, and every slot that joins the queue was empty and not
waiting before. The slots in the queue and the empty slots outside of it therefore become fewer with
every new node, which bounds the number of nodes that are needed.
-/

namespace ProgramSearch

variable {α : Type}

/-- What a new node for a position is: it reads earlier slots only, and it is neither an argument
nor a guard. -/
structure Node.Fresh (position : Nat) (node : Node α) : Prop where
  earlier : ∀ read ∈ node.reads, read.toNat < position
  foreign : ∀ parameter, node ≠ .argument parameter
  unguarded : ∀ branch cond taken, node ≠ .guarded branch cond taken

section Nodes

variable [Number α] {allowed : Failure → Prop} {position : Nat}

namespace Node

/-- A random constant can stand anywhere. -/
theorem random_constant_ensures :
    Draw.Ensures allowed (Fresh position) (randomConstant : Draw (Node α)) := by
  unfold randomConstant
  apply (Draw.below_shifted_ensures (by decide)).bind
  intro numerator _
  apply (Draw.below_shifted_ensures (by decide)).bind
  intro denominator _
  apply Draw.ensures_pure
  constructor
  · intro read member
    cases member
  · intro parameter same
    cases same
  · intro branch cond taken same
    cases same

/-- A position without an address has no operands. Cut to sixteen bits, it leaves an empty range, and
the request breaks off. -/
theorem random_operand_beyond (beyond : slotLimit ≤ position) :
    randomOperand position = Draw.crash := by
  rw [randomOperand, Nat.min_eq_right beyond, Nat.mod_self]
  rfl

/-- A random operand of a later position is an earlier slot. Without an address for the position the
request breaks off. -/
theorem random_operand_ensures (later : 0 < position)
    (addressable : position < slotLimit ∨ allowed .crash) :
    Draw.Ensures allowed (fun read => read.toNat < position) (randomOperand position) := by
  by_cases inside : position < slotLimit
  · have whole : min position slotLimit % slotLimit = position := by
      rw [Nat.min_eq_left (Nat.le_of_lt inside), Nat.mod_eq_of_lt inside]
    rw [randomOperand, whole]
    apply (Draw.below_multiple_ensures later).bind
    intro slot below
    apply Draw.ensures_pure
    rw [UInt16.toNat_ofNat_of_lt' (Nat.lt_trans below inside)]
    exact below
  · rw [random_operand_beyond (Nat.le_of_not_lt inside)]
    exact Draw.ensures_throw (addressable.resolve_left inside)

/-- A random node for a position that has an address can be drawn, and it may stand there. For other
positions the request may break off. -/
theorem random_ensures (addressable : position < slotLimit ∨ allowed .crash) :
    Draw.Ensures allowed (Fresh position) (random position : Draw (Node α)) := by
  unfold random
  split
  · exact random_constant_ensures
  · rename_i later
    have operand : Draw.Ensures allowed (fun read => read.toNat < position)
        (randomOperand position) :=
      random_operand_ensures (Nat.pos_of_ne_zero later) addressable
    apply (Draw.below_wide_ensures (by decide)).bind
    intro kind _
    split
    · exact random_constant_ensures
    · split
      · apply operand.bind
        intro lhs left
        apply operand.bind
        intro rhs right
        apply Draw.ensures_pure
        constructor
        · simpa [reads] using ⟨left, right⟩
        · intro parameter same
          cases same
        · intro branch cond taken same
          cases same
      · apply operand.bind
        intro x first
        apply operand.bind
        intro y second
        apply operand.bind
        intro cond condition
        apply Draw.ensures_pure
        constructor
        · simpa [reads] using ⟨first, second, condition⟩
        · intro parameter same
          cases same
        · intro branch cond taken same
          cases same

end Node

end Nodes

namespace Program

/-- Filling a slot of a program leaves the others as they were. -/
theorem node_fill (nodes : Program α) (slot : Nat) (node : Node α) (inside : slot < nodes.size)
    (other : Nat) :
    node? (nodes.setIfInBounds slot (some node)) other =
      if other = slot then some node else node? nodes other := by
  by_cases same : other = slot
  · subst same
    simp [node?, inside]
  · simp [node?, Ne.symm same, same]

/-- While slots wait for new nodes, the operands of every node that stays are earlier than it, and
they are present or wait. -/
structure Mending (nodes : Program α) (waiting : List Nat) : Prop where
  inside : ∀ slot ∈ waiting, slot < nodes.size
  operands : ∀ slot node, slot ∉ waiting → node? nodes slot = some node → ∀ read ∈ node.reads,
    read.toNat < slot ∧ (isPresent nodes read.toNat = true ∨ read.toNat ∈ waiting)

/-- A program that was regenerated from the listed slots on. A slot that was present and not listed
keeps its node, and every node that is not an old one is new. -/
structure Regrown (nodes : Program α) (slots : List Nat) (result : Program α) : Prop where
  sized : result.size = nodes.size
  valid : Valid result
  kept : ∀ slot, slot ∉ slots → isPresent nodes slot = true →
    node? result slot = node? nodes slot
  origin : ∀ slot node, node? result slot = some node →
    node? nodes slot = some node ∨ node.Fresh slot
  present : ∀ slot, isPresent nodes slot = true → isPresent result slot = true

/-- Any slots of a valid program can wait. -/
theorem Mending.of_valid {nodes : Program α} (valid : Valid nodes) {waiting : List Nat}
    (inside : ∀ slot ∈ waiting, slot < nodes.size) : Mending nodes waiting := by
  refine ⟨inside, fun slot node _ held read member => ?_⟩
  obtain ⟨earlier, present⟩ := valid slot node held read member
  exact ⟨earlier, .inl present⟩

theorem Mending.valid {nodes : Program α} (mending : Mending nodes []) : Valid nodes := by
  intro slot node held read member
  obtain ⟨earlier, present | waits⟩ := mending.operands slot node List.not_mem_nil held read member
  · exact ⟨earlier, present⟩
  · cases waits

theorem Regrown.refl {nodes : Program α} (valid : Valid nodes) (slots : List Nat) :
    Regrown nodes slots nodes :=
  ⟨rfl, valid, fun _ _ _ => rfl, fun _ _ held => .inl held, fun _ present => present⟩

/-- The empty slots that do not wait. -/
def unclaimed (nodes : Program α) (waiting : List Nat) : List Nat :=
  (List.range nodes.size).filter fun slot => !isPresent nodes slot && !waiting.contains slot

/-- The slots that wait and the empty ones that do not. -/
def remaining (nodes : Program α) (waiting : List Nat) : Nat :=
  waiting.length + (unclaimed nodes waiting).length

/-- An empty slot that begins to wait is one less that does not. -/
theorem unclaimed_cons (nodes : Program α) (waiting : List Nat) (slot : Nat)
    (inside : slot < nodes.size) (absent : isPresent nodes slot = false)
    (free : slot ∉ waiting) :
    (unclaimed nodes (slot :: waiting)).length + 1 = (unclaimed nodes waiting).length := by
  have distinct : (unclaimed nodes waiting).Nodup := List.nodup_range.filter _
  have member : slot ∈ unclaimed nodes waiting := by
    simp [unclaimed, inside, absent, free]
  have erased : unclaimed nodes (slot :: waiting) = (unclaimed nodes waiting).erase slot := by
    rw [distinct.erase_eq_filter, unclaimed, unclaimed, List.filter_filter]
    apply List.filter_congr
    intro other _
    by_cases same : other = slot <;> simp [same]
  have filled : 0 < (unclaimed nodes waiting).length := List.length_pos_of_mem member
  rw [erased, List.length_erase_of_mem member]
  omega

/-- The order in which slots wait does not matter for their number. -/
theorem remaining_perm (nodes : Program α) {first second : List Nat} (same : first.Perm second) :
    remaining nodes first = remaining nodes second := by
  have claimed : unclaimed nodes first = unclaimed nodes second := by
    apply List.filter_congr
    intro slot _
    rw [same.contains_eq]
  rw [remaining, remaining, claimed, same.length_eq]

/-- The operands that begin to wait are empty slots among those that are read. -/
theorem empty_operands_empty (nodes : Program α) (pending : List Nat) (reads : List UInt16)
    (slot : Nat) (begins : slot ∈ emptyOperands nodes pending reads) :
    isPresent nodes slot = false ∧ ∃ read ∈ reads, read.toNat = slot := by
  induction reads generalizing pending with
  | nil => cases begins
  | cons read rest inductionHypothesis =>
    rw [emptyOperands] at begins
    split at begins
    · obtain ⟨absent, other, member, same⟩ := inductionHypothesis pending begins
      exact ⟨absent, other, List.mem_cons_of_mem read member, same⟩
    · rename_i neither
      rcases List.mem_cons.mp begins with rfl | later
      · simp only [Bool.or_eq_true, not_or, Bool.not_eq_true] at neither
        exact ⟨neither.1, read, List.mem_cons_self, rfl⟩
      · obtain ⟨absent, other, member, same⟩ := inductionHypothesis _ later
        exact ⟨absent, other, List.mem_cons_of_mem read member, same⟩

/-- What begins to wait has an address, because an operand names it. -/
theorem empty_operands_addressed (nodes : Program α) (pending : List Nat) (reads : List UInt16)
    (slot : Nat) (begins : slot ∈ emptyOperands nodes pending reads) : slot < Node.slotLimit := by
  obtain ⟨_, read, _, rfl⟩ := empty_operands_empty nodes pending reads slot begins
  exact UInt16.toNat_lt read

/-- Every operand is present, waited before or begins to wait. -/
theorem empty_operands_complete (nodes : Program α) (pending : List Nat) (reads : List UInt16)
    (read : UInt16) (member : read ∈ reads) :
    isPresent nodes read.toNat = true ∨
      read.toNat ∈ pending ++ emptyOperands nodes pending reads := by
  induction reads generalizing pending with
  | nil => cases member
  | cons first rest inductionHypothesis =>
    rw [emptyOperands]
    split
    · rename_i either
      rcases List.mem_cons.mp member with rfl | later
      · simp only [Bool.or_eq_true, List.contains_iff_mem] at either
        exact either.imp_right (List.mem_append_left _)
      · exact inductionHypothesis pending later
    · rcases List.mem_cons.mp member with rfl | later
      · exact .inr (List.mem_append_right _ List.mem_cons_self)
      · rcases inductionHypothesis (first.toNat :: pending) later with present | waits
        · exact .inl present
        · exact .inr (List.perm_middle.symm.subset waits)

/-- Slots that begin to wait were among the remaining ones already. -/
theorem empty_operands_remaining (nodes : Program α) (pending : List Nat) (reads : List UInt16)
    (inside : ∀ read ∈ reads, read.toNat < nodes.size) :
    remaining nodes (pending ++ emptyOperands nodes pending reads) = remaining nodes pending := by
  induction reads generalizing pending with
  | nil => rw [emptyOperands, List.append_nil]
  | cons read rest inductionHypothesis =>
    have others := fun other member => inside other (List.mem_cons_of_mem read member)
    rw [emptyOperands]
    split
    · exact inductionHypothesis pending others
    · rename_i neither
      simp only [Bool.or_eq_true, not_or, Bool.not_eq_true, List.contains_iff_mem] at neither
      have counted := unclaimed_cons nodes pending read.toNat
        (inside read List.mem_cons_self) neither.1 neither.2
      rw [remaining_perm nodes List.perm_middle, ← List.cons_append,
        inductionHypothesis (read.toNat :: pending) others]
      simp only [remaining, List.length_cons]
      omega

/-- Filling a slot that waits leaves fewer slots. -/
theorem fill_remaining (nodes : Program α) (slot : Nat) (waiting : List Nat) (node : Node α)
    (inside : slot < nodes.size) :
    remaining (nodes.setIfInBounds slot (some node)) waiting + 1 ≤
      remaining nodes (slot :: waiting) := by
  have fewer : (unclaimed (nodes.setIfInBounds slot (some node)) waiting).length ≤
      (unclaimed nodes (slot :: waiting)).length := by
    simp only [unclaimed, Array.size_setIfInBounds, ← List.countP_eq_length_filter]
    apply List.countP_mono_left
    intro other _ unfilled
    by_cases same : other = slot
    · simp [isPresent, node_fill nodes slot node inside, same] at unfilled
    · simpa [isPresent, node_fill nodes slot node inside, same] using unfilled
  simp only [remaining, List.length_cons]
  omega

/-- There are no more remaining slots than listed ones and empty ones. -/
theorem remaining_le (nodes : Program α) (slots : List Nat) :
    remaining nodes slots ≤ slots.length + emptyCount nodes := by
  have listed : nodes.toList = (List.range nodes.size).map (node? nodes) := by
    apply List.ext_getElem
    · simp
    · intro slot inside _
      rw [Array.length_toList] at inside
      simp [node_inside nodes slot inside]
  have fewer : (unclaimed nodes slots).length ≤ emptyCount nodes := by
    rw [unclaimed, ← List.countP_eq_length_filter, emptyCount, listed, List.countP_map]
    apply List.countP_mono_left
    intro slot _ unclaimed
    simp only [Bool.and_eq_true] at unclaimed
    simpa [isPresent] using unclaimed.1
  exact Nat.add_le_add_left fewer slots.length

/-- Filling a slot that waits with a new node, whose empty operands then wait, keeps the operands in
order. -/
theorem Mending.fill {nodes : Program α} {slot : Nat} {waiting : List Nat} {node : Node α}
    (mending : Mending nodes (slot :: waiting)) (fresh : node.Fresh slot) :
    Mending (nodes.setIfInBounds slot (some node))
      (waiting ++ emptyOperands (nodes.setIfInBounds slot (some node)) waiting node.reads) := by
  have inside := mending.inside slot List.mem_cons_self
  generalize filled : nodes.setIfInBounds slot (some node) = changed
  have sized : changed.size = nodes.size := by rw [← filled, Array.size_setIfInBounds]
  have exact : ∀ other,
      node? changed other = if other = slot then some node else node? nodes other :=
    fun other => filled ▸ node_fill nodes slot node inside other
  constructor
  · intro other member
    rcases List.mem_append.mp member with waits | begins
    · exact sized ▸ mending.inside other (List.mem_cons_of_mem slot waits)
    · obtain ⟨_, read, reads, rfl⟩ := empty_operands_empty changed waiting node.reads other begins
      exact sized ▸ Nat.lt_trans (fresh.earlier read reads) inside
  · intro other entry stays held read member
    rw [exact] at held
    split at held
    · rename_i same
      obtain rfl := Option.some.inj held
      subst same
      exact ⟨fresh.earlier read member,
        empty_operands_complete changed waiting node.reads read member⟩
    · rename_i different
      have stayed : other ∉ slot :: waiting := fun waits =>
        stays (List.mem_append_left _ (List.mem_of_ne_of_mem different waits))
      obtain ⟨earlier, found⟩ := mending.operands other entry stayed held read member
      refine ⟨earlier, ?_⟩
      by_cases same : read.toNat = slot
      · exact .inl (by simp [isPresent, exact, same])
      · refine found.imp (fun present => ?_) fun waits => ?_
        · rw [isPresent, exact, if_neg same]
          exact present
        · exact List.mem_append_left _ (List.mem_of_ne_of_mem same waits)

/-- What was regrown after a slot had been filled was regrown from the slot on. -/
theorem Regrown.fill {nodes : Program α} {slot : Nat} {waiting more : List Nat} {node : Node α}
    {result : Program α} (inside : slot < nodes.size) (fresh : node.Fresh slot)
    (begins : ∀ other ∈ more, isPresent (nodes.setIfInBounds slot (some node)) other = false)
    (regrown : Regrown (nodes.setIfInBounds slot (some node)) (waiting ++ more) result) :
    Regrown nodes (slot :: waiting) result := by
  have exact := node_fill nodes slot node inside
  have present : ∀ other, isPresent nodes other = true →
      isPresent (nodes.setIfInBounds slot (some node)) other = true := by
    intro other present
    rw [isPresent, exact]
    split
    · rfl
    · exact present
  constructor
  case sized => exact regrown.sized.trans Array.size_setIfInBounds
  case valid => exact regrown.valid
  case kept =>
    intro other unlisted held
    rw [List.mem_cons, not_or] at unlisted
    have same := exact other
    rw [if_neg unlisted.1] at same
    rw [← same]
    apply regrown.kept other _ (present other held)
    intro listed
    rcases List.mem_append.mp listed with waits | added
    · exact unlisted.2 waits
    · have absent := begins other added
      rw [present other held] at absent
      cases absent
  case origin =>
    intro other entry held
    rcases regrown.origin other entry held with old | new
    · rw [exact] at old
      split at old
      · rename_i same
        obtain rfl := Option.some.inj old
        exact .inr (same ▸ fresh)
      · exact .inl old
    · exact .inr new
  case present =>
    intro other held
    exact regrown.present other (present other held)

/-- Filling a slot that waits brings a regeneration forward: the operands stay in order, fewer nodes
are needed, and what is regrown from then on was regrown from the slot on. -/
theorem Mending.advance {nodes : Program α} {slot : Nat} {waiting : List Nat} {node : Node α}
    (mending : Mending nodes (slot :: waiting)) (fresh : node.Fresh slot) {fuel : Nat}
    (enough : remaining nodes (slot :: waiting) ≤ fuel + 1) :
    let filled := nodes.setIfInBounds slot (some node)
    let next := waiting ++ emptyOperands filled waiting node.reads
    Mending filled next ∧ remaining filled next ≤ fuel ∧
      ∀ result, Regrown filled next result → Regrown nodes (slot :: waiting) result := by
  have inside := mending.inside slot List.mem_cons_self
  have fewer := fill_remaining nodes slot waiting node inside
  have same := empty_operands_remaining (nodes.setIfInBounds slot (some node)) waiting
    node.reads fun read member => by
      rw [Array.size_setIfInBounds]
      exact Nat.lt_trans (fresh.earlier read member) inside
  refine ⟨mending.fill fresh, by omega, fun result regrown => ?_⟩
  exact regrown.fill inside fresh fun other begins =>
    (empty_operands_empty _ waiting node.reads other begins).1

variable [Number α] {allowed : Failure → Prop}

/-- Slots that wait are regrown, and the nodes that are allowed suffice.

The induction is on the number of nodes. Every new node takes one slot from the remaining ones and
adds none. Only a listed slot can be without an address. -/
theorem regenerate_loop_ensures (fuel : Nat) (nodes : Program α) (waiting : List Nat)
    (addressable : (∀ slot ∈ waiting, slot < Node.slotLimit) ∨ allowed .crash)
    (mending : Mending nodes waiting) (enough : remaining nodes waiting ≤ fuel) :
    Draw.Ensures allowed (Regrown nodes waiting) (regenerateLoop fuel nodes waiting) := by
  induction fuel generalizing nodes waiting with
  | zero =>
    cases waiting with
    | nil => exact Draw.ensures_pure (.refl mending.valid [])
    | cons slot waiting => simp [remaining] at enough
  | succ fuel inductionHypothesis =>
    cases waiting with
    | nil => exact Draw.ensures_pure (.refl mending.valid [])
    | cons slot waiting =>
      apply (Node.random_ensures (addressable.imp_left (· slot List.mem_cons_self))).bind
      intro node fresh
      rw [if_pos (mending.inside slot List.mem_cons_self)]
      obtain ⟨mended, sufficient, regrown⟩ := mending.advance fresh enough
      refine (inductionHypothesis _ _ (addressable.imp_left fun addressed other member => ?_)
        mended sufficient).weaken regrown
      rcases List.mem_append.mp member with waits | begins
      · exact addressed other (List.mem_cons_of_mem slot waits)
      · exact empty_operands_addressed _ waiting node.reads other begins

/-- The listed slots are regrown when the nodes that stay read only what is present or listed. -/
theorem Mending.regenerate_ensures {nodes : Program α} {slots : List Nat}
    (mending : Mending nodes slots)
    (addressable : (∀ slot ∈ slots, slot < Node.slotLimit) ∨ allowed .crash) :
    Draw.Ensures allowed (Regrown nodes slots) (regenerate nodes slots) :=
  regenerate_loop_ensures _ nodes slots addressable mending (remaining_le nodes slots)

/-- The listed slots of a valid program are regrown. -/
theorem regenerate_ensures {nodes : Program α} {slots : List Nat} (valid : Valid nodes)
    (addressable : nodes.size ≤ Node.slotLimit ∨ allowed .crash)
    (inside : ∀ slot ∈ slots, slot < nodes.size) :
    Draw.Ensures allowed (Regrown nodes slots) (regenerate nodes slots) :=
  (Mending.of_valid valid inside).regenerate_ensures <| addressable.imp_left
    fun limited slot member => Nat.lt_of_lt_of_le (inside slot member) limited

/-- The slots that a mutation may replace: those at or after the start that are present, or all of
them if none is. -/
def candidates (nodes : Program α) (start : Nat) : List Nat :=
  let slots := List.range' start (nodes.size - start)
  let present := slots.filter (isPresent nodes)
  if present.isEmpty then slots else present

omit [Number α] in
/-- A candidate lies at or after the start and in the program. -/
theorem candidate_inside {nodes : Program α} {start slot : Nat}
    (candidate : slot ∈ candidates nodes start) : start ≤ slot ∧ slot < nodes.size := by
  have member : slot ∈ List.range' start (nodes.size - start) := by
    simp only [candidates] at candidate
    split at candidate
    · exact candidate
    · exact (List.mem_filter.mp candidate).1
  have bounds := List.mem_range'_1.mp member
  omega

omit [Number α] in
/-- The last slot is the only candidate when no other one is behind the start. -/
theorem candidates_last {nodes : Program α} {start : Nat} (last : nodes.size = start + 1) :
    candidates nodes start = [start] := by
  have one : nodes.size - start = 1 := by omega
  cases held : isPresent nodes start <;> simp [candidates, one, List.range'_one, held]

/-- Regenerate one slot of a program, and give it as the one that was replaced. -/
def replaceSlot (nodes : Program α) (slot : Nat) : Draw (Program α × Option Nat) := do
  let nodes ← regenerate nodes [slot]
  pure (nodes, some slot)

/-- A mutation draws a candidate and replaces it. If there is a slot behind the start, one can always
be drawn. -/
theorem mutate_selects {nodes : Program α} {offset : Nat} (room : max offset 1 < nodes.size)
    (stream : Stream) :
    ∃ index selected, Draw.belowWide (candidates nodes (max offset 1)).length stream =
        .ok index selected ∧
      ∃ inside : index < (candidates nodes (max offset 1)).length,
        mutate nodes offset stream =
          replaceSlot nodes (candidates nodes (max offset 1))[index] selected := by
  generalize begins : max offset 1 = start at room
  have filled : 0 < (candidates nodes start).length := by
    simp only [candidates]
    split
    · rw [List.length_range']
      omega
    · rename_i occupied
      exact List.length_pos_iff.mpr fun none => occupied (List.isEmpty_iff.mpr none)
  obtain ⟨index, selected, drawn, inside⟩ := (Draw.below_wide_ensures filled).total stream
  refine ⟨index, selected, drawn, inside, ?_⟩
  rw [mutate, begins, if_neg (Nat.not_le_of_lt room)]
  by_cases vacant : ((List.range' start (nodes.size - start)).filter (isPresent nodes)).isEmpty
  · have all : candidates nodes start = List.range' start (nodes.size - start) := if_pos vacant
    have counted : (candidates nodes start).length = nodes.size - start := by
      rw [all, List.length_range']
    have slot : (candidates nodes start)[index] = start + index := by simp [all]
    dsimp only
    rw [if_pos vacant, ← counted, Draw.bind_drawn drawn, slot]
    rfl
  · have some : candidates nodes start =
        (List.range' start (nodes.size - start)).filter (isPresent nodes) := if_neg vacant
    have slot : (candidates nodes start)[index] = (candidates nodes start).getD index start := by
      rw [List.getD_eq_getElem?_getD, List.getElem?_eq_getElem inside, Option.getD_some]
    dsimp only
    rw [if_neg vacant, ← some, Draw.bind_drawn drawn, slot]
    rfl

/-- A mutation regrows at most one slot. That is neither the leading one nor before the offset. -/
theorem mutate_ensures {nodes : Program α} (valid : Valid nodes)
    (addressable : nodes.size ≤ Node.slotLimit ∨ allowed .crash) (offset : Nat) :
    Draw.Ensures allowed
      (fun result => ∃ slots, (∀ slot ∈ slots, max offset 1 ≤ slot) ∧ Regrown nodes slots result.1)
      (mutate nodes offset) := by
  by_cases room : max offset 1 < nodes.size
  · intro stream
    obtain ⟨index, selected, _, inside, same⟩ := mutate_selects room stream
    obtain ⟨above, below⟩ := candidate_inside (List.getElem_mem inside)
    rw [same]
    refine (regenerate_ensures valid addressable (by simpa using below)).bind ?_ selected
    intro result regrown
    exact Draw.ensures_pure ⟨[_], by simpa using above, regrown⟩
  · rw [mutate, if_pos (Nat.le_of_not_lt room)]
    exact Draw.ensures_pure ⟨[], by simp, .refl valid []⟩

/-- An offender is invalid or not finite by what is known before it. An argument is neither, and the
leading node does not count. -/
theorem is_offender_iff (prior : Prior α) (node : Node α) :
    isOffender prior node = true ↔ 0 < prior.size ∧
      (node.isStaticInvalid prior = true ∨ node.isStaticNonFinite prior = true) := by
  have unprotected : node.isRemovalProtected = true →
      node.isStaticInvalid prior = false ∧ node.isStaticNonFinite prior = false := by
    cases node with
    | argument => exact fun _ => ⟨rfl, rfl⟩
    | constant | binary | move | conditional | guarded =>
      intro protects
      cases protects
  cases protects : node.isRemovalProtected with
  | true => simp [isOffender, protects, unprotected protects]
  | false => simp [isOffender, protects, Array.size_pos_iff]

/-- A slot behind the leading one is condemned when its node is known to be invalid or not finite by the
slots before it. -/
def Condemned (nodes : Program α) (slot : Nat) : Prop :=
  0 < slot ∧ ∃ node, node? nodes slot = some node ∧
    (node.isStaticInvalid (prior (nodes.extract 0 slot)) = true ∨
      node.isStaticNonFinite (prior (nodes.extract 0 slot)) = true)

/-- A slot of the program is an offender over the slots before it when it is condemned. -/
theorem condemned_iff {nodes : Program α} {slot : Nat} (inside : slot < nodes.size) :
    Condemned nodes slot ↔ nodes[slot].any (isOffender (prior (nodes.extract 0 slot))) = true := by
  have sized : (prior (nodes.extract 0 slot)).size = slot := by
    rw [prior_size, Array.size_extract]
    omega
  simp only [Option.any_eq_true, is_offender_iff, sized, Condemned, node_inside nodes slot inside]
  constructor
  · rintro ⟨later, node, held, known⟩
    exact ⟨node, held, later, known⟩
  · rintro ⟨node, held, later, known⟩
    exact ⟨later, node, held, known⟩

/-- What an inspection knows after a number of slots: the values there, and the condemned ones among
them. -/
structure Inspected (nodes : Program α) (count : Nat) (state : Inspection α) : Prop where
  known : state.prior = prior (nodes.extract 0 count)
  found : ∀ slot, slot ∈ state.found ↔ slot < count ∧ Condemned nodes slot

/-- Inspecting the next slot finds it when it is condemned. -/
theorem Inspected.step {nodes : Program α} {count : Nat} {state : Inspection α}
    (inspected : Inspected nodes count state) (inside : count < nodes.size) :
    Inspected nodes (count + 1) (state.step nodes[count]) := by
  obtain ⟨known, found⟩ := inspected
  have sized : state.prior.size = count := by
    rw [known, prior_size, Array.size_extract]
    omega
  have extended : state.prior.extend nodes[count] = prior (nodes.extract 0 (count + 1)) := by
    rw [prior_extract_succ nodes count inside, known]
  have decided := condemned_iff inside
  rw [← known] at decided
  simp only [Inspection.step]
  split
  · rename_i offending
    refine ⟨extended, fun slot => ?_⟩
    rw [List.mem_cons, found, sized]
    constructor
    · rintro (rfl | ⟨earlier, condemned⟩)
      · exact ⟨Nat.lt_succ_self _, decided.mpr offending⟩
      · exact ⟨Nat.lt_succ_of_lt earlier, condemned⟩
    · rintro ⟨upTo, condemned⟩
      exact (Nat.lt_succ_iff_lt_or_eq.mp upTo).symm.imp_right (⟨·, condemned⟩)
  · rename_i harmless
    refine ⟨extended, fun slot => ?_⟩
    rw [found]
    constructor
    · rintro ⟨earlier, condemned⟩
      exact ⟨Nat.lt_succ_of_lt earlier, condemned⟩
    · rintro ⟨upTo, condemned⟩
      refine ⟨Nat.lt_of_le_of_ne (Nat.le_of_lt_succ upTo) ?_, condemned⟩
      rintro rfl
      exact harmless (decided.mp condemned)

/-- Exactly the condemned slots are found. -/
theorem mem_offenders_iff (nodes : Program α) (slot : Nat) :
    slot ∈ offenders nodes ↔ Condemned nodes slot := by
  have complete : Inspected nodes nodes.size (nodes.foldl Inspection.step ⟨#[], []⟩) :=
    Array.foldl_induction (Inspected nodes) ⟨by simp [prior], by simp⟩
      fun index _ inspected => inspected.step index.isLt
  rw [offenders, List.mem_reverse, complete.found]
  refine ⟨fun found => found.2, fun condemned => ⟨?_, condemned⟩⟩
  obtain ⟨_, node, held, _⟩ := condemned
  exact node_bound nodes slot node held

/-- An offending slot is not the leading one and holds a node that is no argument. -/
theorem offenders_computed (nodes : Program α) (slot : Nat) (offends : slot ∈ offenders nodes) :
    0 < slot ∧ ∃ node, node? nodes slot = some node ∧ node.isRemovalProtected = false := by
  obtain ⟨later, node, held, known⟩ := (mem_offenders_iff nodes slot).mp offends
  refine ⟨later, node, held, ?_⟩
  cases node with
  | argument => exact absurd known (by simp [Node.isStaticInvalid, Node.isStaticNonFinite,
      Node.value?, Node.hasOperand])
  | constant | binary | move | conditional | guarded => rfl

/-- What a law of programs needs so that repairs keep it: simplifying keeps it, and so does regrowing
slots behind the leading one that hold no arguments. -/
structure Repairable (protectedStart : Nat) (law : Program α → Prop) : Prop where
  valid : ∀ {nodes}, law nodes → Valid nodes
  simplified : ∀ {nodes}, law nodes → law (nodes.optimize protectedStart).nodes
  regrown : ∀ {nodes slots result}, law nodes →
    (∀ slot ∈ slots, 0 < slot ∧
      ∃ node, node? nodes slot = some node ∧ node.isRemovalProtected = false) →
    Regrown nodes slots result → law result

section Repairs

variable {protectedStart : Nat} {law : Program α → Prop} {nodes : Program α}
  (repairable : Repairable protectedStart law)

include repairable

/-- Slots behind the leading one that hold no arguments can be regenerated, which keeps the law. -/
theorem Repairable.regenerate_ensures (holds : law nodes)
    (addressable : nodes.size ≤ Node.slotLimit ∨ allowed .crash) {slots : List Nat}
    (computed : ∀ slot ∈ slots, 0 < slot ∧
      ∃ node, node? nodes slot = some node ∧ node.isRemovalProtected = false) :
    Draw.Ensures allowed (fun result => law result ∧ result.size = nodes.size)
      (regenerate nodes slots) := by
  have inside : ∀ slot ∈ slots, slot < nodes.size := by
    intro slot member
    obtain ⟨_, node, held, _⟩ := computed slot member
    exact node_bound nodes slot node held
  apply (Program.regenerate_ensures (repairable.valid holds) addressable inside).weaken
  intro result regrown
  exact ⟨repairable.regrown holds computed regrown, regrown.sized⟩

/-- A repair keeps the law. Every round simplifies and then regenerates slots that hold no
arguments. -/
theorem Repairable.repair_ensures (holds : law nodes)
    (addressable : nodes.size ≤ Node.slotLimit ∨ allowed .crash) :
    Draw.Ensures allowed (fun result => law result.1) (repair nodes protectedStart) := by
  unfold repair
  generalize repairRounds = rounds
  generalize (0 : Nat) = replaced
  induction rounds generalizing nodes replaced with
  | zero => exact Draw.ensures_pure holds
  | succ rounds inductionHypothesis =>
    obtain ⟨trimmed, inBounds⟩ := optimize_trims (repairable.valid holds) protectedStart
    have simplifies : Draw.Ensures allowed
        (fun result => law result ∧ result.size = nodes.size)
        (Program.simplified nodes protectedStart) := by
      simp only [Program.simplified, inBounds, if_true]
      exact Draw.ensures_pure ⟨repairable.simplified holds, trimmed.sized⟩
    rw [repairLoop]
    apply simplifies.bind
    rintro simpler ⟨holds, sized⟩
    dsimp only
    split
    · exact Draw.ensures_pure holds
    · apply (repairable.regenerate_ensures holds (sized ▸ addressable)
        (offenders_computed simpler)).bind
      rintro result ⟨holds, whole⟩
      exact inductionHypothesis holds (whole ▸ sized ▸ addressable) _

end Repairs

end Program

end ProgramSearch
