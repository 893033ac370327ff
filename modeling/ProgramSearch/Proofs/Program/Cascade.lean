import ProgramSearch.Proofs.Number.Small
import ProgramSearch.Proofs.Program.Generation

/-!
# Cascades of new nodes

A regeneration works on a queue of slots and knows which of them are pending, so that it queues no
slot that already waits. The two go apart when a slot is queued more than once: it is no longer
pending after its first new node, but it still waits. That does no harm, because the slot is not
empty any more, and only empty slots are queued. On empty slots the queue and the pending slots
always agree.

The slots get their new nodes in the order of the queue: the listed ones first, each as often as it
is listed, and after them empty ones that new nodes read, each only once. So there is an end, without
a bound on the number of nodes being set, and the program has no gap when it is reached.
-/

namespace ProgramSearch.Program

variable {α : Type}

/-- The state of a regeneration. The pending slots are a set, which is listed in any order. -/
structure Worklist (α : Type) where
  nodes : Program α
  queue : List Nat
  pending : List Nat

namespace Worklist

/-- The regeneration of the listed slots begins with all of them pending. -/
def start (nodes : Program α) (slots : List Nat) : Worklist α := ⟨nodes, slots, slots⟩

/-- Give a new node to the slot in front of the queue. Empty slots that it reads and that are not
pending become pending and join the queue. -/
def refill (nodes : Program α) (slot : Nat) (queue pending : List Nat) (node : Node α) :
    Worklist α :=
  let filled := nodes.setIfInBounds slot (some node)
  let others := pending.filter (· != slot)
  let joining := emptyOperands filled others node.reads
  ⟨filled, queue ++ joining, joining ++ others⟩

/-- A regeneration that goes on until its queue is empty, with the slots that get new nodes one
after another, the program that it ends with and the words that it leaves. -/
inductive Walk [Number α] :
    Worklist α → Stream → List Nat → Program α → Stream → Prop where
  | done {nodes : Program α} {pending : List Nat} {stream : Stream} :
      Walk ⟨nodes, [], pending⟩ stream [] nodes stream
  | next {nodes result : Program α} {slot : Nat} {queue pending order : List Nat} {node : Node α}
      {stream later rest : Stream} :
      (Node.random slot : Draw (Node α)) stream = .ok node later → slot < nodes.size →
      Walk (refill nodes slot queue pending node) later order result rest →
      Walk ⟨nodes, slot :: queue, pending⟩ stream (slot :: order) result rest

/-- On empty slots the queue and the pending slots agree. -/
def Faithful (list : Worklist α) : Prop :=
  ∀ slot, isPresent list.nodes slot = false → (slot ∈ list.pending ↔ slot ∈ list.queue)

/-- In the beginning every listed slot is pending. -/
theorem start_faithful (nodes : Program α) (slots : List Nat) : (start nodes slots).Faithful :=
  fun _ _ => Iff.rfl

section Refilling

variable {nodes : Program α} {slot : Nat} {queue pending : List Nat}

/-- A slot that is empty after a new node was put in was empty before, and it is not the slot of the
new node. -/
theorem empty_before {node : Node α} (inside : slot < nodes.size) {other : Nat}
    (empty : isPresent (nodes.setIfInBounds slot (some node)) other = false) :
    other ≠ slot ∧ isPresent nodes other = false := by
  rw [isPresent, node_fill nodes slot node inside] at empty
  split at empty
  · cases empty
  · rename_i different
    exact ⟨different, empty⟩

/-- When the slot in front got its new node, the other pending slots still are, among empty slots,
those in the rest of the queue. -/
theorem Faithful.others (faithful : Faithful ⟨nodes, slot :: queue, pending⟩) {node : Node α}
    (inside : slot < nodes.size) (other : Nat)
    (empty : isPresent (nodes.setIfInBounds slot (some node)) other = false) :
    other ∈ pending.filter (· != slot) ↔ other ∈ queue := by
  obtain ⟨different, before⟩ := empty_before inside empty
  have same : other ∈ pending ↔ other ∈ slot :: queue := faithful other before
  simp [same, different]

/-- A new node keeps the agreement. -/
theorem Faithful.refill (faithful : Faithful ⟨nodes, slot :: queue, pending⟩)
    (inside : slot < nodes.size) (node : Node α) :
    (refill nodes slot queue pending node).Faithful := by
  intro other empty
  have others := faithful.others inside other empty
  simp only [Worklist.refill, List.mem_append, others]
  exact or_comm

end Refilling

end Worklist

/-- Which empty operands begin to wait depends on the empty slots among the pending ones alone. -/
theorem empty_operands_alike (nodes : Program α) (reads : List UInt16) (first second : List Nat)
    (alike : ∀ slot, isPresent nodes slot = false → (slot ∈ first ↔ slot ∈ second)) :
    emptyOperands nodes first reads = emptyOperands nodes second reads := by
  induction reads generalizing first second with
  | nil => rfl
  | cons read rest inductionHypothesis =>
    cases present : isPresent nodes read.toNat with
    | true => simpa [emptyOperands, present] using inductionHypothesis first second alike
    | false =>
      have same : first.contains read.toNat = second.contains read.toNat := by
        rw [Bool.eq_iff_iff, List.contains_iff_mem, List.contains_iff_mem]
        exact alike read.toNat present
      have extended := inductionHypothesis (read.toNat :: first) (read.toNat :: second)
        fun slot empty => by simp [alike slot empty]
      simp only [emptyOperands, same, extended, inductionHypothesis first second alike]

/-- Every empty operand begins to wait at most once, and not when it waits already. -/
theorem empty_operands_once (nodes : Program α) (pending : List Nat) (reads : List UInt16) :
    (emptyOperands nodes pending reads).Nodup ∧
      ∀ slot ∈ emptyOperands nodes pending reads, slot ∉ pending := by
  induction reads generalizing pending with
  | nil => simp [emptyOperands]
  | cons read rest inductionHypothesis =>
    rw [emptyOperands]
    split
    · exact inductionHypothesis pending
    · rename_i neither
      simp only [Bool.or_eq_true, not_or, Bool.not_eq_true, List.contains_iff_mem] at neither
      obtain ⟨once, fresh⟩ := inductionHypothesis (read.toNat :: pending)
      constructor
      · rw [List.nodup_cons]
        exact ⟨fun again => fresh _ again List.mem_cons_self, once⟩
      · intro slot begins
        rcases List.mem_cons.mp begins with rfl | later
        · exact neither.2
        · exact fun waits => fresh slot later (List.mem_cons_of_mem _ waits)

namespace Worklist

variable [Number α] {nodes result : Program α} {queue pending : List Nat} {stream rest : Stream}

/-- A regeneration that ends within a number of new nodes is a walk of the worklist, and no longer
than that.

The induction is on the number. The loop has no pending slots of its own: it takes the queue for
them, which makes no difference on empty slots. -/
theorem Faithful.walk (fuel : Nat) (faithful : Faithful ⟨nodes, queue, pending⟩)
    (ended : regenerateLoop fuel nodes queue stream = .ok result rest) :
    ∃ order, order.length ≤ fuel ∧ Walk ⟨nodes, queue, pending⟩ stream order result rest := by
  induction fuel generalizing nodes queue pending stream with
  | zero =>
    cases queue with
    | nil =>
      cases ended
      exact ⟨[], Nat.le_refl 0, .done⟩
    | cons slot queue => cases ended
  | succ fuel inductionHypothesis =>
    cases queue with
    | nil =>
      cases ended
      exact ⟨[], Nat.zero_le _, .done⟩
    | cons slot queue =>
      rw [regenerateLoop] at ended
      cases drawn : (Node.random slot : Draw (Node α)) stream with
      | error failure later =>
        rw [Draw.bind_failed drawn] at ended
        cases ended
      | ok node later =>
        rw [Draw.bind_drawn drawn] at ended
        by_cases inside : slot < nodes.size
        · simp only [inside, if_true] at ended
          rw [← empty_operands_alike _ _ _ _ (faithful.others inside)] at ended
          obtain ⟨order, short, walk⟩ := inductionHypothesis (faithful.refill inside node) ended
          exact ⟨slot :: order, Nat.succ_le_succ short, .next drawn inside walk⟩
        · simp only [inside, if_false] at ended
          cases ended

/-- A worklist has only one walk. -/
theorem Walk.unique {list : Worklist α} {order other : List Nat} {result second : Program α}
    {rest later : Stream} (walk : Walk list stream order result rest)
    (again : Walk list stream other second later) :
    other = order ∧ second = result ∧ later = rest := by
  induction walk generalizing other with
  | done =>
    cases again
    exact ⟨rfl, rfl, rfl⟩
  | next drawn inside _ inductionHypothesis =>
    cases again with
    | next redrawn _ remaining =>
      obtain ⟨rfl, rfl⟩ := EStateM.Result.ok.inj (redrawn.symm.trans drawn)
      obtain ⟨rfl, sameResult, sameRest⟩ := inductionHypothesis remaining
      exact ⟨rfl, sameResult, sameRest⟩

/-- The slots in the queue get new nodes first, each as often as it is there. After them come slots
that were empty and did not wait, each only once.

The induction follows the walk. A slot that joins the queue was empty and in neither the rest of the
queue nor the front, and the slots that come after those are still empty when it joins. -/
theorem Walk.ordered {list : Worklist α} {order : List Nat} (faithful : list.Faithful)
    (walk : Walk list stream order result rest) :
    ∃ more, order = list.queue ++ more ∧ more.Nodup ∧
      ∀ slot ∈ more, isPresent list.nodes slot = false ∧ slot ∉ list.queue := by
  induction walk with
  | done => exact ⟨[], rfl, List.nodup_nil, by simp⟩
  | @next nodes _ slot queue pending _ node _ _ _ _ inside _ inductionHypothesis =>
    obtain ⟨more, rfl, once, fresh⟩ := inductionHypothesis (faithful.refill inside node)
    obtain ⟨joinOnce, unclaimed⟩ := empty_operands_once (nodes.setIfInBounds slot (some node))
      (pending.filter (· != slot)) node.reads
    generalize joins : emptyOperands (nodes.setIfInBounds slot (some node))
      (pending.filter (· != slot)) node.reads = joining at joinOnce unclaimed
    simp only [refill, joins] at fresh ⊢
    have empty : ∀ other ∈ joining ++ more,
        isPresent (nodes.setIfInBounds slot (some node)) other = false := by
      intro other member
      rcases List.mem_append.mp member with begins | later
      · exact (empty_operands_empty _ _ _ other (joins ▸ begins)).1
      · exact (fresh other later).1
    refine ⟨joining ++ more, by simp, ?_, fun other member => ?_⟩
    · rw [List.nodup_append]
      refine ⟨joinOnce, once, fun other begins later comes same => ?_⟩
      exact (fresh later comes).2 (List.mem_append_right _ (same ▸ begins))
    · obtain ⟨different, before⟩ := empty_before inside (empty other member)
      refine ⟨before, fun waits => ?_⟩
      have waiting : other ∈ queue := List.mem_of_ne_of_mem different waits
      rcases List.mem_append.mp member with begins | later
      · exact unclaimed other begins
          ((faithful.others inside other (empty other member)).mpr waiting)
      · exact (fresh other later).2 (List.mem_append_left _ waiting)

end Worklist

open Worklist in
/-- A cascade leaves no gap. Let the listed slots lie inside of a program that has an address for
every slot, and let every node that stays read earlier slots that are present or listed. Then the
regeneration of the listed slots comes to an end on every stream. The listed slots get new nodes, and
after them each at most once some that were empty and not listed, so there are no more new nodes than
listed and empty slots. The program that comes out is valid, no slot was emptied, and the nodes in
slots that were present and not listed are the old ones. -/
theorem cascade_leaves_no_gap [Number α] (nodes : Program α) (slots : List Nat)
    (addressable : nodes.size ≤ 2 ^ 16) (inside : ∀ slot ∈ slots, slot < nodes.size)
    (ordered : ∀ slot node, slot ∉ slots → node? nodes slot = some node → ∀ read ∈ node.reads,
      read.toNat < slot ∧ (isPresent nodes read.toNat = true ∨ read.toNat ∈ slots))
    (stream : Stream) :
    ∃ more result rest,
      Walk (start nodes slots) stream (slots ++ more) result rest ∧
      (∀ order other later, Walk (start nodes slots) stream order other later →
        order = slots ++ more ∧ other = result ∧ later = rest) ∧
      (slots ++ more).length ≤ slots.length + emptyCount nodes ∧
      more.Nodup ∧ (∀ slot ∈ more, isPresent nodes slot = false ∧ slot ∉ slots) ∧
      regenerate nodes slots stream = .ok result rest ∧
      validate result = .ok () ∧
      result.size = nodes.size ∧
      (∀ slot, isPresent nodes slot = true → isPresent result slot = true) ∧
      ∀ slot, isPresent nodes slot = true → slot ∉ slots →
        node? result slot = node? nodes slot := by
  have mending : Mending nodes slots := ⟨inside, ordered⟩
  have addressed : ∀ slot ∈ slots, slot < Node.slotLimit := fun slot listed =>
    Nat.lt_of_lt_of_le (inside slot listed) addressable
  obtain ⟨result, rest, ended, regrown⟩ :=
    (mending.regenerate_ensures (.inl addressed)).total stream
  obtain ⟨order, short, walk⟩ := (start_faithful nodes slots).walk _ ended
  obtain ⟨more, rfl, once, fresh⟩ := walk.ordered (start_faithful nodes slots)
  exact ⟨more, result, rest, walk, fun _ _ _ again => walk.unique again, short, once, fresh, ended,
    (validate_ok_iff result).mpr regrown.valid, regrown.sized, regrown.present,
    fun slot present unlisted => regrown.kept slot unlisted present⟩

/-- The sum reads a listed slot that is empty, and the last slot is listed twice and reads beyond the
program. -/
def gapped : Program Small :=
  #[some (.argument 0), none, none, some (.binary .add 1 0), some (.move 9)]

/-- The new nodes of the last slot read the third one, which is empty and not listed, and it is
filled. The sum stays. -/
theorem gapped_filled :
    ∃ more rest,
      gapped.size ≤ 2 ^ 16 ∧
      (∀ slot ∈ [4, 1, 4], slot < gapped.size) ∧
      (∀ slot node, slot ∉ [4, 1, 4] → node? gapped slot = some node → ∀ read ∈ node.reads,
        read.toNat < slot ∧ (isPresent gapped read.toNat = true ∨ read.toNat ∈ [4, 1, 4])) ∧
      Worklist.Walk (Worklist.start gapped [4, 1, 4]) (Stream.cyclic #[0x80000000])
        ([4, 1, 4] ++ more)
        #[some (.argument 0), some (.binary .div 0 0), some (.binary .div 1 1),
          some (.binary .add 1 0), some (.binary .div 2 2)] rest ∧
      ([4, 1, 4] ++ more).length ≤ 5 := by
  have addressable : gapped.size ≤ 2 ^ 16 := by decide
  have inside : ∀ slot ∈ [4, 1, 4], slot < gapped.size := by decide
  have ordered : ∀ slot node, slot ∉ [4, 1, 4] → node? gapped slot = some node →
      ∀ read ∈ node.reads,
        read.toNat < slot ∧ (isPresent gapped read.toNat = true ∨ read.toNat ∈ [4, 1, 4]) := by
    intro slot node unlisted held read member
    have below : slot < 5 := node_bound gapped slot node held
    obtain rfl | rfl | rfl : slot = 0 ∨ slot = 2 ∨ slot = 3 := by
      simp at unlisted
      omega
    · cases held
      cases member
    · cases held
    · cases held
      obtain rfl | rfl : read = 1 ∨ read = 0 := by simpa [Node.reads] using member
      · decide
      · decide
  obtain ⟨more, result, rest, walk, _, short, _, _, ended, _⟩ :=
    cascade_leaves_no_gap gapped [4, 1, 4] addressable inside ordered
      (Stream.cyclic #[0x80000000])
  have computed : Draw.isDrawn (regenerate gapped [4, 1, 4]) (Stream.cyclic #[0x80000000])
      (fun result => decide (result =
        #[some (.argument 0), some (.binary .div 0 0), some (.binary .div 1 1),
          some (.binary .add 1 0), some (.binary .div 2 2)])) = true := by decide +kernel
  have passed := Draw.test_of_drawn computed ended
  obtain rfl := of_decide_eq_true passed
  exact ⟨more, rest, addressable, inside, ordered, walk, short⟩

end ProgramSearch.Program
