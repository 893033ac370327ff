import ProgramSearch.Program.Prior
import ProgramSearch.Proofs.Program.Validity

/-!
# What a walk over a program knows

Collapsing and simplifying walk over a program from left to right and extend what is known of the
slots treated so far. The nodes that are known are the new program. A law that holds of whatever is
known is kept by an extension if it holds of the new slot.

Both walks keep most slots and rewrite others, the leading one excepted. They differ in the forms
that they permit for a node.
-/

namespace ProgramSearch

namespace Prior

variable {α : Type}

/-- What is known covers as many slots as its nodes do. -/
theorem program_size (prior : Prior α) : prior.program.size = prior.size := by
  simp [program]

/-- The nodes of a prior are those that are known. -/
theorem program_node (prior : Prior α) (slot : Nat) :
    prior.program.node? slot = prior[slot]?.join.map Known.node := by
  simp only [Program.node?, program, Array.getElem?_map]
  rcases prior[slot]? with _ | _ | known <;> rfl

/-- A law holds of everything that is known, slot by slot. -/
def Every (law : Nat → Known α → Prop) (prior : Prior α) : Prop :=
  ∀ slot known, prior[slot]?.join = some known → law slot known

theorem every_empty (law : Nat → Known α → Prop) : Every law #[] := by
  intro slot known found
  simp at found

variable [Number α]

/-- Extending what is known by a slot adds the content of the slot to the nodes. -/
theorem program_extend (prior : Prior α) (slot : Option (Node α)) :
    (prior.extend slot).program = prior.program.push slot := by
  cases slot <;> simp [extend, program, Node.known]

/-- A law that holds of everything known still does after an extension if it holds of what is learnt
about the new slot. -/
theorem every_extend {law : Nat → Known α → Prop} {prior : Prior α} (before : Every law prior)
    (content : Option (Node α))
    (learnt : ∀ node, content = some node → law prior.size (node.known prior)) :
    Every law (prior.extend content) := by
  intro slot known found
  simp only [extend, Array.getElem?_push] at found
  by_cases last : slot = prior.size
  · subst last
    obtain ⟨node, rfl, rfl⟩ : ∃ node, content = some node ∧ node.known prior = known := by
      simpa [Option.map_eq_some_iff] using found
    exact learnt node rfl
  · rw [if_neg last] at found
    exact before slot known found

end Prior

namespace Program

variable {α : Type} [Number α]

theorem prior_push (nodes : Program α) (content : Option (Node α)) :
    prior (nodes.push content) = (prior nodes).extend content :=
  Array.foldl_push

theorem prior_extract_succ (nodes : Program α) (slot : Nat) (inside : slot < nodes.size) :
    prior (nodes.extract 0 (slot + 1)) = (prior (nodes.extract 0 slot)).extend nodes[slot] := by
  rw [← prior_push, Array.push_extract_getElem inside, Nat.zero_min]

theorem prior_size (nodes : Program α) : (prior nodes).size = nodes.size := by
  let counted (count : Nat) (known : Prior α) : Prop := known.size = count
  refine Array.foldl_induction counted rfl ?_
  rintro index known before
  simp only [counted, Prior.extend, Array.size_push]
  exact congrArg (· + 1) before

/-- What a walk may put into the next slot: what the slot held before or, behind the leading slot, a
form that is permitted for the node there. -/
inductive Rewrites (permitted : Prior α → Node α → Node α → Prop) (prior : Prior α) :
    Option (Node α) → Option (Node α) → Prop where
  | kept (content : Option (Node α)) : Rewrites permitted prior content content
  | replaced {node form : Node α} :
      0 < prior.size → permitted prior node form →
        Rewrites permitted prior (some node) (some form)

/-- What is known after a walk over the leading slots of a program that kept or rewrote each. -/
inductive Rewritten (nodes : Program α) (permitted : Prior α → Node α → Node α → Prop) :
    Prior α → Prop where
  | start : Rewritten nodes permitted #[]
  | next {prior : Prior α} {content : Option (Node α)} :
      Rewritten nodes permitted prior →
      Rewrites permitted prior (node? nodes prior.size) content →
        Rewritten nodes permitted (prior.extend content)

/-- Treating slot after slot walks over all slots, if each step keeps or rewrites one. -/
theorem fold_rewritten {σ : Type} {permitted : Prior α → Node α → Node α → Prop}
    (step : σ → Option (Node α) → σ) (prior : σ → Prior α)
    (rewrites : ∀ state content, ∃ form, prior (step state content) = (prior state).extend form ∧
      Rewrites permitted (prior state) content form)
    (nodes : Program α) (initial : σ) (unknown : prior initial = #[]) :
    Rewritten nodes permitted (prior (nodes.foldl step initial)) ∧
      (prior (nodes.foldl step initial)).size = nodes.size := by
  let walked (count : Nat) (state : σ) : Prop :=
    Rewritten nodes permitted (prior state) ∧ (prior state).size = count
  refine Array.foldl_induction walked ⟨unknown ▸ .start, unknown ▸ rfl⟩ ?_
  rintro index state ⟨before, sized⟩
  obtain ⟨form, extended, permits⟩ := rewrites state nodes[index]
  have held : node? nodes (prior state).size = nodes[index] := by
    rw [sized]
    exact node_inside nodes index index.isLt
  rw [← held] at permits
  constructor
  · rw [extended]
    exact .next before permits
  · rw [extended, Prior.extend, Array.size_push, sized]

end Program

end ProgramSearch
