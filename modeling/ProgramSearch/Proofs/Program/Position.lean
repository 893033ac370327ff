import ProgramSearch.Proofs.Number.Small
import ProgramSearch.Proofs.Program.Generation

/-!
# Positions without an address

Operands have sixteen bits, so no operand names a position from 65536 on, and a node there can only
read the slots before that. Its operands are drawn from a range that the position bounds, once it is
cut to sixteen bits. Cutting 65536 leaves zero and not the greatest bound that is possible, so the
range is empty. A node there is a constant, or the request breaks off; the kind of the node that is
drawn first decides.

A mutation fails in this way and no other. It fails when it selects a slot without an address and a
node with operands is drawn first; a cascade never gets to such a slot, because it follows operands.
-/

namespace ProgramSearch

variable {α : Type} [Number α]

namespace Node

variable {position : Nat}

/-- The kind of a new node can always be drawn. -/
theorem kind_drawn (stream : Stream) :
    ∃ kind rest, Draw.belowWide (Operator.all.length + 2) stream = .ok kind rest := by
  obtain ⟨kind, rest, drawn, _⟩ :=
    (Draw.below_wide_ensures (Nat.succ_pos (Operator.all.length + 1))).total stream
  exact ⟨kind, rest, drawn⟩

/-- When a constant is drawn, or the position has an address, there is a new node. -/
theorem random_drawn (later : 0 < position) {stream rest : Stream} {kind : Nat}
    (drawn : Draw.belowWide (Operator.all.length + 2) stream = .ok kind rest)
    (possible : position < slotLimit ∨ kind = 0) :
    ∃ (node : Node α) (last : Stream), random position stream = .ok node last ∧
      node.Fresh position := by
  rcases possible with addressed | rfl
  · exact (random_ensures (.inl addressed)).total stream
  · obtain ⟨node, last, made, fresh⟩ := (random_constant_ensures (α := α)).total rest
    refine ⟨node, last, ?_, fresh⟩
    rw [random, if_neg (Nat.ne_of_gt later), Draw.bind_drawn drawn, if_pos rfl]
    exact made

/-- When a node with operands is drawn for a position without an address, the request breaks off. -/
theorem random_breaks_off (beyond : slotLimit ≤ position) {stream rest : Stream} {kind : Nat}
    (drawn : Draw.belowWide (Operator.all.length + 2) stream = .ok kind rest)
    (operated : kind ≠ 0) :
    (random position : Draw (Node α)) stream = .error .crash rest := by
  have later : position ≠ 0 := Nat.ne_of_gt (Nat.lt_of_lt_of_le (by decide) beyond)
  rw [random, if_neg later, Draw.bind_drawn drawn, if_neg operated, random_operand_beyond beyond]
  cases Operator.all[kind - 1]? <;> rfl

/-- What is drawn for a position behind the leading one: a node that reads earlier slots when the
position has an address or a constant is drawn, and nothing otherwise. -/
theorem random_outcomes (later : 0 < position) (stream : Stream) :
    ∃ kind rest, Draw.belowWide (Operator.all.length + 2) stream = .ok kind rest ∧
      (position < slotLimit ∨ kind = 0 → ∃ (node : Node α) (last : Stream),
        random position stream = .ok node last ∧ ∀ read ∈ node.reads, read.toNat < position) ∧
      (slotLimit ≤ position → kind ≠ 0 →
        (random position : Draw (Node α)) stream = .error .crash rest) := by
  obtain ⟨kind, rest, drawn⟩ := kind_drawn stream
  refine ⟨kind, rest, drawn, fun possible => ?_, fun beyond => random_breaks_off beyond drawn⟩
  obtain ⟨node, last, made, fresh⟩ := random_drawn (α := α) later drawn possible
  exact ⟨node, last, made, fresh.earlier⟩

end Node

namespace Program

variable {nodes : Program α} {slot : Nat} {stream rest : Stream}

/-- Once a new node was drawn for a slot of a valid program, the program is regrown. What the node
reads has an address. -/
theorem regenerate_drawn (valid : Valid nodes) (inside : slot < nodes.size) {node : Node α}
    (drawn : Node.random slot stream = .ok node rest) :
    ∃ result last, regenerate nodes [slot] stream = .ok result last ∧
      Regrown nodes [slot] result := by
  have ensured : Draw.Ensures (fun _ => True) (Node.Fresh slot)
      (Node.random slot : Draw (Node α)) := Node.random_ensures (.inr trivial)
  have fresh := ensured.drawn drawn
  have mending : Mending nodes [slot] := .of_valid valid (by simpa using inside)
  have enough : remaining nodes [slot] ≤ emptyCount nodes + 1 :=
    Nat.add_comm 1 _ ▸ remaining_le nodes [slot]
  obtain ⟨mended, sufficient, regrown⟩ := mending.advance fresh enough
  have addressed := empty_operands_addressed (nodes.setIfInBounds slot (some node)) [] node.reads
  obtain ⟨result, last, ended, grown⟩ :=
    (regenerate_loop_ensures _ _ _ (.inl addressed) mended sufficient).total rest
  refine ⟨result, last, ?_, regrown result grown⟩
  rw [regenerate, List.length_singleton, Nat.add_comm, regenerateLoop, Draw.bind_drawn drawn,
    if_pos inside]
  exact ended

/-- A regeneration fails where the first new node does. -/
theorem regenerate_failed {failure : Failure}
    (failed : (Node.random slot : Draw (Node α)) stream = .error failure rest) :
    regenerate nodes [slot] stream = .error failure rest := by
  rw [regenerate, List.length_singleton, Nat.add_comm, regenerateLoop, Draw.bind_failed failed]

/-- What a mutation of a valid program does: it draws a candidate and the kind of its new node, and it
succeeds when the candidate has an address or the node is a constant. -/
theorem mutate_outcomes {offset : Nat} (valid : Valid nodes) (room : max offset 1 < nodes.size)
    (stream : Stream) :
    ∃ index selected slot kind rest,
      Draw.belowWide (candidates nodes (max offset 1)).length stream = .ok index selected ∧
      (candidates nodes (max offset 1))[index]? = some slot ∧
      max offset 1 ≤ slot ∧ slot < nodes.size ∧
      Draw.belowWide (Operator.all.length + 2) selected = .ok kind rest ∧
      (slot < Node.slotLimit ∨ kind = 0 → ∃ result last,
        mutate nodes offset stream = .ok (result, some slot) last ∧
        validate result = .ok () ∧ result.size = nodes.size) ∧
      (Node.slotLimit ≤ slot → kind ≠ 0 → mutate nodes offset stream = .error .crash rest) := by
  obtain ⟨index, selected, chosen, bounded, same⟩ := mutate_selects room stream
  obtain ⟨above, inside⟩ := candidate_inside (List.getElem_mem bounded)
  obtain ⟨kind, rest, drawn⟩ := Node.kind_drawn selected
  refine ⟨index, selected, _, kind, rest, chosen, List.getElem?_eq_getElem bounded, above, inside,
    drawn, fun possible => ?_, fun beyond operated => ?_⟩
  · have later : 0 < (candidates nodes (max offset 1))[index] := by omega
    obtain ⟨node, last, made, _⟩ := Node.random_drawn (α := α) later drawn possible
    obtain ⟨result, last, ended, regrown⟩ := regenerate_drawn valid inside made
    refine ⟨result, last, ?_, (validate_ok_iff result).mpr regrown.valid, regrown.sized⟩
    rw [same, replaceSlot, Draw.bind_drawn ended]
    rfl
  · rw [same, replaceSlot,
      Draw.bind_failed (regenerate_failed (Node.random_breaks_off beyond drawn operated))]

/-- Generation and mutation need addresses. For a position behind the leading one a node is drawn
that reads earlier slots, if the position is below 65536 or the node is a constant; otherwise the
request breaks off. A mutation of a valid program selects a slot at or after the offset that is not
the leading one. It leaves a valid program of the same size under the same condition on that slot,
and breaks off otherwise. -/
theorem generation_needs_addresses (nodes : Program α) (position offset : Nat) (stream : Stream)
    (later : 1 ≤ position) (valid : validate nodes = .ok ()) (room : max offset 1 < nodes.size) :
    (∃ kind rest, Draw.belowWide (Operator.all.length + 2) stream = .ok kind rest ∧
      (position < 2 ^ 16 ∨ kind = 0 → ∃ (node : Node α) (last : Stream),
        Node.random position stream = .ok node last ∧
        ∀ read ∈ node.reads, read.toNat < position) ∧
      (2 ^ 16 ≤ position → kind ≠ 0 →
        (Node.random position : Draw (Node α)) stream = .error .crash rest)) ∧
    ∃ index selected slot kind rest,
      Draw.belowWide (candidates nodes (max offset 1)).length stream = .ok index selected ∧
      (candidates nodes (max offset 1))[index]? = some slot ∧
      max offset 1 ≤ slot ∧ slot < nodes.size ∧
      Draw.belowWide (Operator.all.length + 2) selected = .ok kind rest ∧
      (slot < 2 ^ 16 ∨ kind = 0 → ∃ result last,
        mutate nodes offset stream = .ok (result, some slot) last ∧
        validate result = .ok () ∧ result.size = nodes.size) ∧
      (2 ^ 16 ≤ slot → kind ≠ 0 → mutate nodes offset stream = .error .crash rest) :=
  ⟨Node.random_outcomes later stream,
    mutate_outcomes ((validate_ok_iff nodes).mp valid) room stream⟩

/-- A sum behind an argument. -/
def summed : Program Small := #[some (.argument 0), some (.binary .add 0 0)]

/-- The sum is the only slot behind the argument. It has an address and is replaced, whatever node is
drawn. -/
theorem summed_replaced :
    1 ≤ 1 ∧ validate summed = .ok () ∧ max 1 1 < summed.size ∧
      ∃ result last, mutate summed 1 (Stream.cyclic #[477218589]) = .ok (result, some 1) last ∧
        validate result = .ok () ∧ result.size = 2 := by
  have valid : validate summed = .ok () := rfl
  have room : max 1 1 < summed.size := by decide
  obtain ⟨_, _, _, slot, _, _, _, _, above, below, _, works, _⟩ :=
    generation_needs_addresses summed 1 1 (Stream.cyclic #[477218589]) (Nat.le_refl 1) valid room
  obtain rfl : slot = 1 := Nat.le_antisymm (Nat.le_of_lt_succ below) above
  exact ⟨Nat.le_refl 1, valid, room, works (.inl (by decide))⟩

/-- Constants only, one more than there are addresses. -/
def crowded : Program Small := Array.replicate 65537 (some (.constant Number.one))

/-- At the first position without an address a node with operands cannot be drawn, and a mutation
that replaces the last of 65537 constants by such a node breaks off. -/
theorem unaddressed_position_breaks_off :
    (∃ rest, (Node.random 65536 : Draw (Node Small)) (Stream.cyclic #[0, 477218589, 0, 0]) =
      .error .crash rest) ∧
    validate crowded = .ok () ∧ max 65536 1 < crowded.size ∧
    ∃ rest, mutate crowded 65536 (Stream.cyclic #[477218589]) = .error .crash rest := by
  have size : crowded.size = 65537 := Array.size_replicate
  have constants : ∀ slot node, node? crowded slot = some node → node.reads = [] := by
    intro slot node held
    simp only [node?, crowded, Array.getElem?_replicate] at held
    split at held
    · cases held
      rfl
    · cases held
  have valid : Valid crowded := by
    intro slot node held read member
    rw [constants slot node held] at member
    cases member
  have room : max 65536 1 < crowded.size := size ▸ by decide
  refine ⟨?_, (validate_ok_iff crowded).mpr valid, room, ?_⟩
  · have later : 0 < 65536 := by decide
    obtain ⟨kind, rest, drawn, _, breaksOff⟩ :=
      Node.random_outcomes (α := Small) later (Stream.cyclic #[0, 477218589, 0, 0])
    have operated : Draw.isDrawn (Draw.belowWide (Operator.all.length + 2))
        (Stream.cyclic #[0, 477218589, 0, 0]) (fun kind => kind != 0) = true := by decide +kernel
    have nonzero := Draw.test_of_drawn operated drawn
    exact ⟨rest, breaksOff (Nat.le_refl _) (bne_iff_ne.mp nonzero)⟩
  · obtain ⟨index, selected, slot, kind, rest, chosen, _, above, _, drawn, _, breaksOff⟩ :=
      mutate_outcomes valid room (Stream.cyclic #[477218589])
    have operated : Draw.isDrawn
        (Draw.belowWide 1 >>= fun _ => Draw.belowWide (Operator.all.length + 2))
        (Stream.cyclic #[477218589]) (fun kind => kind != 0) = true := by decide +kernel
    have last : candidates crowded (max 65536 1) = [65536] := candidates_last size
    rw [last, List.length_singleton] at chosen
    have after := (Draw.bind_drawn chosen fun _ => _).trans drawn
    have nonzero := Draw.test_of_drawn operated after
    exact ⟨rest, breaksOff above (bne_iff_ne.mp nonzero)⟩

end Program

end ProgramSearch
