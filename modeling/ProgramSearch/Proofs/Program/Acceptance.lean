import ProgramSearch.Proofs.Program.Linkage

/-!
# Ready programs compile

Lowering can only fail inside: an operand could be taken twice, or a renamed node or an output could
be an expression instead of a value. None of this happens in a ready program. The readers of each
slot are counted before lowering starts, and a computed node without a temporary has at most one
reader. An expression can therefore only be missing from the table when its one reader has been
met, and lowering meets the operands of all nodes in the order in which they are counted.

Together with the checks that come first, a program compiles exactly when it is ready.
-/

namespace ProgramSearch.Program

variable {α : Type}

/-- The operands of the node in a slot, in the order in which they are taken. -/
def slotReads (slot : Option (Node α)) : List Nat :=
  (slot.map fun node => node.reads.map UInt16.toNat).getD []

/-- The operands of all nodes, slot after slot. -/
def allReads (slots : List (Option (Node α))) : List Nat := slots.flatMap slotReads

/-- Counting one operand after another adds the number of occurrences of each slot. -/
theorem count_reads_exact (reads : List Nat) (counts : Array Nat) (index : Nat)
    (inside : index < counts.size) :
    (reads.foldl (fun counts read => counts.modify read (· + 1)) counts).getD index 0 =
      counts.getD index 0 + reads.count index := by
  induction reads generalizing counts with
  | nil => simp
  | cons read rest inductionHypothesis =>
    rw [List.foldl_cons, inductionHypothesis _ (by simpa using inside), List.count_cons]
    by_cases same : read = index
    · subst same
      have raised : (counts.modify read (· + 1)).getD read 0 = counts.getD read 0 + 1 := by
        rw [Array.getD_eq_getD_getElem?, Array.getElem?_modify]
        simp [Array.getD_eq_getD_getElem?, inside]
      rw [raised]
      simp only [beq_self_eq_true, if_true]
      omega
    · simp [Array.getD_eq_getD_getElem?, Array.getElem?_modify, same]

/-- The number of readers of a slot is the number of its occurrences among all operands. -/
theorem reader_counts_exact (nodes : Program α) (index : Nat) (inside : index < nodes.size) :
    (readerCounts nodes).getD index 0 = (allReads nodes.toList).count index := by
  have flattened : readerCounts nodes = (allReads nodes.toList).foldl
      (fun counts read => counts.modify read (· + 1)) (Array.replicate nodes.size 0) := by
    rw [allReads, List.foldl_flatMap, readerCounts, ← Array.foldl_toList]
    congr 1
    funext counts slot
    cases slot <;> simp [slotReads, List.foldl_map]
  rw [flattened, count_reads_exact _ _ index (by simpa using inside)]
  simp [Array.getD_eq_getD_getElem?, inside]

/-- Marking the slot that a node renames. -/
def markRenamed (marks : Array Bool) (slot : Option (Node α)) : Array Bool :=
  match slot with
  | some (.move target) => marks.setIfInBounds target.toNat true
  | _ => marks

/-- A mark stays when further slots are marked. -/
theorem mark_stays (slots : List (Option (Node α))) (marks : Array Bool) (index : Nat)
    (marked : marks.getD index false = true) :
    (slots.foldl markRenamed marks).getD index false = true := by
  induction slots generalizing marks with
  | nil => exact marked
  | cons slot rest inductionHypothesis =>
    apply inductionHypothesis
    match slot with
    | some (.move target) =>
      simp only [markRenamed, Array.getD_eq_getD_getElem?, Array.getElem?_setIfInBounds] at marked ⊢
      split
      · split <;> simp_all
      · exact marked
    | none | some (.constant _) | some (.argument _) | some (.binary ..) | some (.conditional ..)
    | some (.guarded ..) => exact marked

theorem marks_size (slots : List (Option (Node α))) (marks : Array Bool) :
    (slots.foldl markRenamed marks).size = marks.size := by
  induction slots generalizing marks with
  | nil => rfl
  | cons slot rest inductionHypothesis =>
    rw [List.foldl_cons, inductionHypothesis]
    unfold markRenamed
    split <;> simp

/-- A slot that some node renames is marked. -/
theorem renamed_slots_marked (nodes : Program α) (slot : Nat) (target : UInt16)
    (held : node? nodes slot = some (.move target)) (inside : target.toNat < nodes.size) :
    (renamedSlots nodes).getD target.toNat false = true := by
  have listed : some (.move target) ∈ nodes.toList := by
    have bound := node_bound nodes slot _ held
    rw [node_inside nodes slot bound] at held
    exact held ▸ Array.getElem_mem_toList bound
  obtain ⟨before, after, split⟩ := List.append_of_mem listed
  change (nodes.foldl markRenamed _).getD target.toNat false = true
  rw [← Array.foldl_toList, split, List.foldl_append, List.foldl_cons]
  apply mark_stays
  simp [markRenamed, Array.getD_eq_getD_getElem?, marks_size, inside]

/-- A slot has a temporary exactly when it holds a computed node that is an output, has several
readers or is renamed. -/
theorem temporary_slots_exact (nodes : Program α) (outputsStart slot : Nat) (node : Node α)
    (held : node? nodes slot = some node) :
    (temporarySlots nodes outputsStart).getD slot false =
      (!node.isDirect && (outputsStart ≤ slot || 1 < (readerCounts nodes).getD slot 0 ||
        (renamedSlots nodes).getD slot false)) := by
  have inside := node_bound nodes slot node held
  rw [node_inside nodes slot inside] at held
  simp [temporarySlots, Array.getD_eq_getD_getElem?, inside, held]

/-- A computed node without a temporary has at most one reader. -/
theorem unshared_of_inline (nodes : Program α) (outputsStart slot : Nat) (node : Node α)
    (held : node? nodes slot = some node) (computed : node.isDirect = false)
    (inline : (temporarySlots nodes outputsStart).getD slot false = false) :
    (allReads nodes.toList).count slot ≤ 1 := by
  rw [temporary_slots_exact nodes outputsStart slot node held, computed,
    reader_counts_exact nodes slot (node_bound nodes slot node held)] at inline
  simp only [Bool.not_false, Bool.true_and, Bool.or_eq_false_iff, decide_eq_false_iff_not] at inline
  omega

namespace Lowering

/-- What the table of operands still offers after a number of slots, when the listed operands have
been taken: the value of every present slot that is direct or has a temporary, and the expression
of every other one that was not taken. -/
structure Offers (nodes : Program α) (temporaries : Array Bool) (count : Nat) (taken : List Nat)
    (operands : Array (Option (Operand α))) : Prop where
  size : operands.size = count
  entry : ∀ slot node, slot < count → node? nodes slot = some node →
    (∃ leaf, operands[slot]?.join = some (.value leaf)) ∨
      (node.isDirect = false ∧ temporaries.getD slot false = false ∧
        ((∃ expression, operands[slot]?.join = some (.inline expression)) ∨ slot ∈ taken))

/-- More taken operands allow more missing expressions. -/
theorem Offers.weaken {nodes : Program α} {temporaries : Array Bool} {count : Nat}
    {taken : List Nat} {operands : Array (Option (Operand α))}
    (offers : Offers nodes temporaries count taken operands) (more : List Nat) :
    Offers nodes temporaries count (taken ++ more) operands where
  size := offers.size
  entry := by
    intro slot node bounded held
    rcases offers.entry slot node bounded held with value | ⟨computed, inline, found | member⟩
    · exact .inl value
    · exact .inr ⟨computed, inline, .inl found⟩
    · exact .inr ⟨computed, inline, .inr (List.mem_append_left more member)⟩

/-- Adding the entry of the next slot keeps the earlier ones. -/
theorem Offers.push {nodes : Program α} {temporaries : Array Bool} {count : Nat}
    {taken : List Nat} {operands : Array (Option (Operand α))}
    (offers : Offers nodes temporaries count taken operands) (entry : Option (Operand α))
    (offered : ∀ node, node? nodes count = some node →
      (∃ leaf, entry = some (.value leaf)) ∨
        (node.isDirect = false ∧ temporaries.getD count false = false ∧
          ∃ expression, entry = some (.inline expression))) :
    Offers nodes temporaries (count + 1) taken (operands.push entry) where
  size := by simp [offers.size]
  entry := by
    intro slot node bounded held
    by_cases last : slot = count
    · subst last
      have found : (operands.push entry)[slot]?.join = entry := by
        simp [← offers.size]
      rw [found]
      rcases offered node held with value | ⟨computed, inline, expression⟩
      · exact .inl value
      · exact .inr ⟨computed, inline, .inl expression⟩
    · have found : (operands.push entry)[slot]? = operands[slot]? := by
        simp [Array.getElem?_push, offers.size, last]
      rw [found]
      exact offers.entry slot node (by omega) held

/-- An operand that was not taken before can be taken, unless it is missing. A value can always be
taken, and taking an expression accounts for the entry that it leaves. -/
theorem take_accepts {nodes : Program α} {temporaries : Array Bool} {count : Nat}
    {taken : List Nat} {operands : Array (Option (Operand α))}
    (offers : Offers nodes temporaries count taken operands) (slot : UInt16)
    (earlier : slot.toNat < count) (present : isPresent nodes slot.toNat = true)
    (fresh : ∀ node, node? nodes slot.toNat = some node → node.isDirect = false →
      temporaries.getD slot.toNat false = false → slot.toNat ∉ taken) :
    ∃ expression rest, take operands slot = .ok (expression, rest) ∧
      Offers nodes temporaries count (taken ++ [slot.toNat]) rest := by
  obtain ⟨node, held⟩ := (present_iff nodes slot.toNat).mp present
  rcases offers.entry slot.toNat node earlier held with
    ⟨leaf, found⟩ | ⟨computed, inline, ⟨expression, found⟩ | member⟩
  · exact ⟨.value leaf, operands, by simp [take, found], offers.weaken _⟩
  · refine ⟨expression, operands.setIfInBounds slot.toNat none, by simp [take, found],
      by simp [offers.size], ?_⟩
    intro other entry bounded heldOther
    by_cases same : slot.toNat = other
    · subst same
      obtain rfl := Option.some.inj (held.symm.trans heldOther)
      exact .inr ⟨computed, inline, .inr (by simp)⟩
    · have unchanged : (operands.setIfInBounds slot.toNat none)[other]? = operands[other]? := by
        simp [same]
      rw [unchanged]
      exact (offers.weaken _).entry other entry bounded heldOther
  · exact absurd member (fresh node held computed inline)

/-- Without a temporary, an operand that is about to be taken was not taken before: the operands
taken so far and this one are an initial part of all operands, which have it at most once. -/
theorem fresh_of_initial {nodes : Program α} {outputsStart slot : Nat} {taken rest : List Nat}
    (initial : allReads nodes.toList = taken ++ slot :: rest) (node : Node α)
    (held : node? nodes slot = some node) (computed : node.isDirect = false)
    (inline : (temporarySlots nodes outputsStart).getD slot false = false) : slot ∉ taken := by
  intro member
  have unshared := unshared_of_inline nodes outputsStart slot node held computed inline
  have before : 0 < taken.count slot := List.count_pos_iff.mpr member
  rw [initial, List.count_append, List.count_cons_self] at unshared
  omega

/-- The next operand of a valid program can be taken: the operands taken so far are those read
before it. -/
theorem take_next {nodes : Program α} {outputsStart count : Nat} {taken : List Nat}
    {operands : Array (Option (Operand α))}
    (offers : Offers nodes (temporarySlots nodes outputsStart) count taken operands)
    (slot : UInt16) (valid : slot.toNat < count ∧ isPresent nodes slot.toNat = true)
    (rest : List Nat) (initial : allReads nodes.toList = taken ++ slot.toNat :: rest) :
    ∃ expression remaining, take operands slot = .ok (expression, remaining) ∧
      Offers nodes (temporarySlots nodes outputsStart) count (taken ++ [slot.toNat]) remaining :=
  take_accepts offers slot valid.1 valid.2 (fresh_of_initial initial)

/-- Lowering a computed node of a valid program takes all its operands, when the operands taken so
far are those of the slots before it. -/
theorem lower_accepts {nodes : Program α} {outputsStart count : Nat} {taken : List Nat}
    {operands : Array (Option (Operand α))} (mode : Mode) {node : Node α}
    (offers : Offers nodes (temporarySlots nodes outputsStart) count taken operands)
    (operandsValid : ∀ read ∈ node.reads,
      read.toNat < count ∧ isPresent nodes read.toNat = true)
    (computed : node.isDirect = false) (rest : List Nat)
    (initial : allReads nodes.toList = taken ++ node.reads.map UInt16.toNat ++ rest) :
    ∃ expression remaining, lower mode count operands node = .ok (expression, remaining) ∧
      Offers nodes (temporarySlots nodes outputsStart) count
        (taken ++ node.reads.map UInt16.toNat) remaining := by
  cases node with
  | constant value => simp [Node.isDirect] at computed
  | argument parameter => simp [Node.isDirect] at computed
  | move target => simp [Node.isDirect] at computed
  | binary op lhs rhs =>
    simp only [Node.reads, List.mem_cons, List.not_mem_nil, or_false, forall_eq_or_imp,
      forall_eq] at operandsValid
    obtain ⟨leftValid, rightValid⟩ := operandsValid
    obtain ⟨x, afterLeft, tookLeft, left⟩ := take_next offers lhs leftValid (rhs.toNat :: rest)
      (by simpa [Node.reads] using initial)
    obtain ⟨y, afterRight, tookRight, right⟩ := take_next left rhs rightValid rest
      (by simpa [Node.reads] using initial)
    exact ⟨_, afterRight,
      (lower_binary_iff op lhs rhs).mpr ⟨x, afterLeft, y, tookLeft, tookRight, rfl⟩,
      by simpa [Node.reads] using right⟩
  | conditional x y cond =>
    simp only [Node.reads, List.mem_cons, List.not_mem_nil, or_false, forall_eq_or_imp,
      forall_eq] at operandsValid
    obtain ⟨firstValid, secondValid, condValid⟩ := operandsValid
    obtain ⟨first, afterFirst, tookFirst, offersFirst⟩ := take_next offers x firstValid
      (y.toNat :: cond.toNat :: rest) (by simpa [Node.reads] using initial)
    obtain ⟨second, afterSecond, tookSecond, offersSecond⟩ := take_next offersFirst y secondValid
      (cond.toNat :: rest) (by simpa [Node.reads] using initial)
    obtain ⟨condition, afterCond, tookCond, offersCond⟩ := take_next offersSecond cond condValid
      rest (by simpa [Node.reads] using initial)
    exact ⟨_, afterCond, (lower_conditional_iff x y cond).mpr
      ⟨first, afterFirst, second, afterSecond, condition, tookFirst, tookSecond, tookCond, rfl⟩,
      by simpa [Node.reads] using offersCond⟩
  | guarded branch cond side =>
    simp only [Node.reads, List.mem_cons, List.not_mem_nil, or_false, forall_eq_or_imp,
      forall_eq] at operandsValid
    obtain ⟨condValid, branchValid⟩ := operandsValid
    obtain ⟨condition, afterCond, tookCond, offersCond⟩ := take_next offers cond condValid
      (branch.toNat :: rest) (by simpa [Node.reads] using initial)
    obtain ⟨kept, afterBranch, tookBranch, offersBranch⟩ := take_next offersCond branch branchValid
      rest (by simpa [Node.reads] using initial)
    exact ⟨_, afterBranch, (lower_guarded_iff branch cond side).mpr
      ⟨condition, afterCond, kept, tookCond, tookBranch, rfl⟩,
      by simpa [Node.reads] using offersBranch⟩

/-- Lowering the next slot of a valid program succeeds and accounts for the operands of its node.

A renamed node has a value in the table, since it is direct or has a temporary. -/
theorem step_accepts {nodes : Program α} {outputsStart : Nat} (valid : Valid nodes) (mode : Mode)
    (before after : List (Option (Node α))) (slot : Option (Node α))
    (whole : nodes.toList = before ++ slot :: after) (state : Lowering α)
    (offers : Offers nodes (temporarySlots nodes outputsStart) before.length (allReads before)
      state.operands) :
    ∃ next, step mode (temporarySlots nodes outputsStart) state slot = .ok next ∧
      Offers nodes (temporarySlots nodes outputsStart) (before.length + 1)
        (allReads (before ++ [slot])) next.operands := by
  have held : node? nodes before.length = slot := by
    simp [node?, ← Array.getElem?_toList, whole]
  have reads : allReads (before ++ [slot]) = allReads before ++ slotReads slot := by
    simp [allReads]
  rw [reads]
  cases slot with
  | none =>
    exact ⟨_, rfl, (offers.weaken _).push none (by simp [held])⟩
  | some node =>
    by_cases computed : node.isDirect = false
    · have initial : allReads nodes.toList =
          allReads before ++ node.reads.map UInt16.toNat ++ allReads after := by
        simp [allReads, whole, slotReads]
      obtain ⟨expression, remaining, lowered, offersAll⟩ := lower_accepts mode offers
        (valid before.length node held) computed _ initial
      rw [step_computed mode _ state node computed, offers.size, lowered]
      by_cases temporary : (temporarySlots nodes outputsStart).getD before.length false = true
      · refine ⟨⟨remaining.push (some (.value (.temporary state.steps.size))),
          state.steps.push expression, state.arity⟩, ?_, ?_⟩
        · simp only [Refusal.ok_bind, temporary, if_true]
          rfl
        · exact offersAll.push _ fun _ _ => .inl ⟨_, rfl⟩
      · have inline : (temporarySlots nodes outputsStart).getD before.length false = false := by
          simpa using temporary
        refine ⟨⟨remaining.push (some (.inline expression)), state.steps, state.arity⟩, ?_, ?_⟩
        · simp only [Refusal.ok_bind, inline]
          rfl
        · refine offersAll.push _ fun other heldOther => .inr ⟨?_, inline, expression, rfl⟩
          obtain rfl := Option.some.inj (held.symm.trans heldOther)
          exact computed
    · cases node with
      | constant value =>
        exact ⟨_, rfl, (offers.weaken _).push _ fun _ _ => .inl ⟨_, rfl⟩⟩
      | argument parameter =>
        exact ⟨_, rfl, (offers.weaken _).push _ fun _ _ => .inl ⟨_, rfl⟩⟩
      | move target =>
        -- The entry of a renamed slot is a value: a computed node that is renamed has a temporary.
        obtain ⟨earlier, present⟩ := valid before.length _ held target (by simp [Node.reads])
        obtain ⟨source, heldSource⟩ := (present_iff nodes target.toNat).mp present
        have marked : (renamedSlots nodes).getD target.toNat false = true :=
          renamed_slots_marked nodes before.length target held
            (node_bound nodes target.toNat source heldSource)
        rcases offers.entry target.toNat source earlier heldSource with
          ⟨leaf, found⟩ | ⟨computedSource, inline, _⟩
        · refine ⟨{ state with operands := state.operands.push (some (.value leaf)) }, ?_, ?_⟩
          · simp [step, found]
          · exact (offers.weaken _).push _ fun _ _ => .inl ⟨_, rfl⟩
        · rw [temporary_slots_exact nodes outputsStart target.toNat source heldSource] at inline
          simp [computedSource, marked] at inline
      | binary op lhs rhs => exact absurd rfl computed
      | conditional x y cond => exact absurd rfl computed
      | guarded branch cond side => exact absurd rfl computed

/-- Lowering the remaining slots of a valid program succeeds. -/
theorem walk_accepts {nodes : Program α} (outputsStart : Nat) (valid : Valid nodes) (mode : Mode)
    (before rest : List (Option (Node α))) (whole : nodes.toList = before ++ rest)
    (state : Lowering α)
    (offers : Offers nodes (temporarySlots nodes outputsStart) before.length (allReads before)
      state.operands) :
    ∃ final, rest.foldlM (step mode (temporarySlots nodes outputsStart)) state = .ok final ∧
      Offers nodes (temporarySlots nodes outputsStart) nodes.size (allReads nodes.toList)
        final.operands := by
  induction rest generalizing before state with
  | nil =>
    rw [List.append_nil] at whole
    refine ⟨state, rfl, ?_⟩
    rw [← whole, Array.length_toList] at offers
    exact offers
  | cons slot rest inductionHypothesis =>
    obtain ⟨next, stepped, offersNext⟩ :=
      step_accepts valid mode before rest slot whole state offers
    obtain ⟨final, walked, offersFinal⟩ := inductionHypothesis (before ++ [slot])
      (by simp [whole]) next (by simpa using offersNext)
    refine ⟨final, ?_, offersFinal⟩
    rw [List.foldlM_cons, stepped, Refusal.ok_bind, walked]

end Lowering

/-- Entries that are all values are the values of some list. -/
theorem values_of_entries (entries : List (Option (Operand α)))
    (offered : ∀ entry ∈ entries, ∃ leaf, entry = some (.value leaf)) :
    ∃ values : List (Value α), entries = values.map fun leaf => some (.value leaf) := by
  induction entries with
  | nil => exact ⟨[], rfl⟩
  | cons entry rest inductionHypothesis =>
    obtain ⟨leaf, rfl⟩ := offered entry (by simp)
    obtain ⟨values, rfl⟩ :=
      inductionHypothesis fun other member => offered other (by simp [member])
    exact ⟨leaf :: values, rfl⟩

/-- A ready program compiles in every mode. -/
theorem compile_of_ready {nodes : Program α} {outputs : Nat} (ready : Ready nodes outputs)
    (mode : Mode) : ∃ program, compile nodes outputs mode = .ok program := by
  obtain ⟨state, walked, offers⟩ := Lowering.walk_accepts (nodes.size - outputs)
    ready.valid mode [] nodes.toList rfl ⟨#[], #[], 0⟩
    ⟨rfl, fun _ _ impossible => by simp at impossible⟩
  have values : ∀ entry ∈ state.operands.toList.drop (nodes.size - outputs),
      ∃ leaf, entry = some (.value leaf) := by
    intro entry member
    obtain ⟨index, found⟩ := List.mem_iff_getElem?.mp member
    rw [List.getElem?_drop, Array.getElem?_toList] at found
    have bounded : nodes.size - outputs + index < nodes.size := by
      have inside := (Array.getElem?_eq_some_iff.mp found).1
      rw [offers.size] at inside
      exact inside
    obtain ⟨node, held⟩ := (present_iff nodes _).mp
      (ready.present (nodes.size - outputs + index) (by omega) bounded)
    rcases offers.entry _ node bounded held with ⟨leaf, value⟩ | ⟨computed, inline, _⟩
    · rw [found] at value
      exact ⟨leaf, by simpa using value⟩
    · rw [temporary_slots_exact nodes _ _ node held, computed] at inline
      simp at inline
  obtain ⟨outputValues, collected⟩ := values_of_entries _ values
  exact ⟨⟨state.steps.toList, outputValues, state.arity⟩,
    (compile_ok_iff nodes outputs mode _).mpr ⟨ready, state, walked, collected, rfl, rfl⟩⟩

end ProgramSearch.Program
