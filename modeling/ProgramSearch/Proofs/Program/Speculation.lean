import ProgramSearch.Program.Pruning
import ProgramSearch.Program.Tiered
import ProgramSearch.Proofs.Program.Acceptance
import ProgramSearch.Proofs.Program.Checking
import ProgramSearch.Proofs.Program.Execution
import ProgramSearch.Proofs.Program.Knowledge

/-!
# Speculation

Collapsing behind guards makes a guarded copy: some conditionals lose one side and check that the
other one is selected. A guarded copy of a ready program is ready, and it needs no more inputs.

The eager values of the original program explain the copy, since a guard that agrees with them
has the value of its conditional. So a copy that comes to an end ends as the original does, no
matter which guards it evaluated. A copy of a program without guards has no other reason to stop
than a guard, and then the fallback runs.
-/

namespace ProgramSearch

namespace Program

variable {α : Type}

/-- What a slot of a guarded copy may hold: what the slot held before or, behind the leading slot,
a guard in place of a conditional. -/
inductive GuardedSlot (slot : Nat) : Option (Node α) → Option (Node α) → Prop where
  | same (content : Option (Node α)) : GuardedSlot slot content content
  | guarded (later : 0 < slot) (x y cond : UInt16) (taken : Bool) :
      GuardedSlot slot (some (.conditional x y cond))
        (some (.guarded (if taken then x else y) cond taken))

/-- A copy of a program in which some conditionals keep one side, behind a guard. -/
structure GuardedCopy (nodes copy : Program α) : Prop where
  sized : copy.size = nodes.size
  slots : ∀ slot, GuardedSlot slot (node? nodes slot) (node? copy slot)

/-- Collapsing one conditional behind a guard, or leaving a slot alone, is what a guarded copy
allows. -/
theorem collapse_step_guarded [Number α] (sides : Sides) (offset : Nat) (state : Collapse α)
    (slot : Option (Node α)) :
    ∃ content, (state.step sides offset true slot).prior = state.prior.extend content ∧
      GuardedSlot state.prior.size slot content := by
  cases collapsed : slot.bind fun node =>
      (if state.prior.size < max offset 1 then none
        else onlySide? sides (UInt16.ofNat state.prior.size)).bind fun taken =>
          node.collapse? state.prior taken true with
  | none => exact ⟨slot, by simp only [Collapse.step, collapsed], .same slot⟩
  | some node =>
    refine ⟨some node, by simp only [Collapse.step, collapsed], ?_⟩
    obtain ⟨original, rfl, found⟩ := Option.bind_eq_some_iff.mp collapsed
    obtain ⟨taken, sided, guarded⟩ := Option.bind_eq_some_iff.mp found
    have later : 0 < state.prior.size := by
      refine Nat.pos_of_ne_zero fun leading => ?_
      have excluded : state.prior.size < max offset 1 := by omega
      simp [excluded] at sided
    cases original with
    | conditional x y cond =>
      obtain rfl : Node.guarded (if taken then x else y) cond taken = node := by
        simpa [Node.collapse?] using guarded
      exact .guarded later x y cond taken
    | constant | argument | binary | move | guarded => simp [Node.collapse?] at guarded

/-- What collapsing behind guards has made of a number of slots. -/
structure CollapsedBehindGuards [Number α] (nodes : Program α) (count : Nat) (state : Collapse α) :
    Prop where
  sized : state.prior.size = count
  treated : ∀ slot, slot < count →
    GuardedSlot slot (node? nodes slot) (node? state.prior.program slot)

/-- Collapsing the next slot behind guards leaves the slots before it as they are. -/
theorem CollapsedBehindGuards.step [Number α] {nodes : Program α} {count : Nat}
    {state : Collapse α} (collapsed : CollapsedBehindGuards nodes count state) (sides : Sides)
    (offset : Nat) (inside : count < nodes.size) :
    CollapsedBehindGuards nodes (count + 1) (state.step sides offset true nodes[count]) := by
  obtain ⟨sized, before⟩ := collapsed
  obtain ⟨content, extended, guarded⟩ := collapse_step_guarded sides offset state nodes[count]
  rw [sized] at guarded
  refine ⟨by rw [extended, Prior.extend, Array.size_push, sized], ?_⟩
  intro slot bounded
  rw [extended, Prior.program_extend, node_push, Prior.program_size, sized]
  by_cases last : slot = count
  · subst last
    rw [if_pos rfl, node_inside nodes slot inside]
    exact guarded
  · rw [if_neg last]
    exact before slot (by omega)

/-- Collapsing behind guards makes a guarded copy. -/
theorem prune_guarded [Number α] (nodes : Program α) (offset : Nat) (sides : Sides) :
    GuardedCopy nodes (nodes.prune offset sides true).1 := by
  obtain ⟨sized, treated⟩ : CollapsedBehindGuards nodes nodes.size
      (nodes.foldl (Collapse.step sides offset true) ⟨#[], 0⟩) :=
    Array.foldl_induction (CollapsedBehindGuards nodes) ⟨rfl, fun _ impossible => by omega⟩
      fun index _ collapsed => collapsed.step sides offset index.isLt
  have same : (nodes.prune offset sides true).1.size = nodes.size :=
    (Prior.program_size _).trans sized
  refine ⟨same, fun slot => ?_⟩
  by_cases inside : slot < nodes.size
  · exact treated slot inside
  · have beyond : nodes.size ≤ slot := Nat.le_of_not_lt inside
    rw [node_beyond nodes slot beyond, node_beyond _ slot (same ▸ beyond)]
    exact .same none

namespace GuardedCopy

variable {nodes copy : Program α}

/-- A guarded copy holds nodes where the original does. -/
theorem present_eq (copied : GuardedCopy nodes copy) (slot : Nat) :
    isPresent copy slot = isPresent nodes slot := by
  have content := copied.slots slot
  simp only [isPresent]
  generalize node? nodes slot = original at content ⊢
  generalize node? copy slot = changed at content ⊢
  cases content <;> rfl

/-- A node of a guarded copy stands in the original or guards one side of a conditional there. -/
theorem origin (copied : GuardedCopy nodes copy) {slot : Nat} {node : Node α}
    (held : node? copy slot = some node) :
    node? nodes slot = some node ∨
      0 < slot ∧ ∃ x y cond taken, node = .guarded (if taken then x else y) cond taken ∧
        node? nodes slot = some (.conditional x y cond) := by
  have content := copied.slots slot
  rw [held] at content
  generalize found : node? nodes slot = original at content ⊢
  cases content with
  | same => exact .inl rfl
  | guarded later x y cond taken => exact .inr ⟨later, x, y, cond, taken, rfl, rfl⟩

/-- The arguments of a guarded copy are arguments of the original. -/
theorem argument (copied : GuardedCopy nodes copy) {slot : Nat} {parameter : UInt16}
    (held : node? copy slot = some (.argument parameter)) :
    node? nodes slot = some (.argument parameter) := by
  rcases copied.origin held with same | ⟨_, x, y, cond, taken, guard, _⟩
  · exact same
  · cases guard

/-- A guard reads two of the operands of its conditional, so a guarded copy of a valid program is
valid. -/
theorem valid (copied : GuardedCopy nodes copy) (valid : Valid nodes) : Valid copy := by
  intro slot node held read member
  rw [copied.present_eq]
  rcases copied.origin held with same | ⟨_, x, y, cond, taken, rfl, original⟩
  · exact valid slot node same read member
  · refine valid slot _ original read ?_
    simp only [Node.reads, List.mem_cons, List.not_mem_nil, or_false] at member ⊢
    rcases member with rfl | rfl
    · exact .inr (.inr rfl)
    · cases taken with
      | true => exact .inl rfl
      | false => exact .inr (.inl rfl)

/-- A guarded copy of a ready program is ready: the leading slot stays what it was, and no node
appears or disappears. -/
theorem ready {outputs : Nat} (copied : GuardedCopy nodes copy) (ready : Ready nodes outputs) :
    Ready copy outputs := by
  refine ⟨ready.positive, copied.sized ▸ ready.enough, ?_, copied.valid ready.valid, ?_⟩
  · obtain ⟨node, held, direct⟩ := ready.leading
    obtain ⟨leader, leads⟩ := (present_iff copy 0).mp
      ((copied.present_eq 0).trans ((present_iff nodes 0).mpr ⟨node, held⟩))
    rcases copied.origin leads with same | ⟨later, _⟩
    · exact ⟨node, leads.trans (same.symm.trans held), direct⟩
    · exact absurd later (Nat.lt_irrefl 0)
  · intro slot above below
    rw [copied.present_eq]
    exact ready.present slot (copied.sized ▸ above) (copied.sized ▸ below)

variable [Number α]

/-- Whatever explains a program explains its guarded copies. A guard that agrees with the valuation
keeps the side that the conditional selects; one that does not need not be explained. -/
theorem explains {inputs : Array α} {values : Nat → α} (copied : GuardedCopy nodes copy)
    (explained : Explains inputs values nodes) : Explains inputs values copy := by
  intro slot node held agrees
  rcases copied.origin held with same | ⟨_, x, y, cond, taken, rfl, original⟩
  · exact explained slot node same agrees
  · have selected : Number.positive (values cond.toNat) = taken := agrees
    rw [explained slot _ original trivial, Node.eager, Node.eager, selected]
    cases taken <;> rfl

/-- Compiled without checks, a guarded copy that comes to an end leaves what the compiled original
leaves, and otherwise it bails out. -/
theorem run_transparent {outputs : Nat} {mode otherMode : Mode} {baseline speculative : Compiled α}
    (copied : GuardedCopy nodes copy) (unguarded : Unguarded nodes)
    (compiled : compile nodes outputs mode = .ok baseline) (unchecked : mode.checked = false)
    (compiledCopy : compile copy outputs otherMode = .ok speculative)
    (uncheckedCopy : otherMode.checked = false) {inputs : Array α}
    (sufficient : baseline.arity ≤ inputs.size) (buffer : Array α) :
    (speculative.run inputs buffer).result = (baseline.run inputs buffer).result ∨
      (speculative.run inputs buffer).result = .error (.signal .bailout) := by
  obtain ⟨ready, _, linked⟩ := linked_of_compile compiled
  obtain ⟨_, _, linkedCopy⟩ := linked_of_compile compiledCopy
  have smaller : speculative.arity ≤ baseline.arity :=
    linked.arity_le linkedCopy fun slot _ held => ⟨slot, copied.argument held⟩
  have covered : speculative.arity ≤ inputs.size := Nat.le_trans smaller sufficient
  have settled := linkedCopy.run_settles
    (copied.explains (eager_explains inputs nodes ready.valid)) covered buffer
  rw [run_unguarded compiled unguarded unchecked sufficient buffer]
  cases ran : (speculative.run inputs buffer).result with
  | ok results =>
    rw [ran] at settled
    have exact : results = overwritten (eager inputs nodes) (copy.size - outputs) outputs buffer :=
      settled
    exact .inl (by rw [exact, copied.sized])
  | error halt =>
    rw [ran] at settled
    cases settled with
    | guarded => exact .inr rfl
    | operator _ checked => simp [uncheckedCopy] at checked

end GuardedCopy

variable [Number α]

/-- Specialization is transparent. Collapsing the conditionals of an accepted program without guards
behind guards gives a program that is accepted as its specialized form, and together they run as
the original does: the results come from the specialized form if all guards that it needed agreed,
and from the original otherwise. A caller who has a buffer filled finds the same in it. -/
theorem specialization_transparent (nodes : Program α) (outputs offset : Nat) (sides : Sides)
    (baseline : Compiled α)
    (compiled : compile nodes outputs { checked := false, profile := none } = .ok baseline)
    (unguarded : Unguarded nodes) :
    ∃ tiered, Tiered.compile (some (nodes.prune offset sides true).1) nodes outputs = .ok tiered ∧
      ∀ inputs buffer : Array α, baseline.arity ≤ inputs.size →
        ∃ results, tiered.run inputs buffer = .ok results ∧
          (baseline.run inputs buffer).result = .ok results ∧
          tiered.call inputs buffer = baseline.call inputs buffer := by
  have copied := prune_guarded nodes offset sides
  obtain ⟨ready, _⟩ := linked_of_compile compiled
  obtain ⟨speculative, accepted⟩ := compile_of_ready (copied.ready ready) {}
  refine ⟨⟨some speculative, baseline⟩, ?_, ?_⟩
  · simp only [Tiered.compile, compiled, Refusal.ok_bind, Option.mapM_some, accepted]
    rfl
  · intro inputs buffer sufficient
    have ended := run_unguarded compiled unguarded rfl sufficient buffer
    rcases copied.run_transparent unguarded compiled rfl accepted rfl sufficient buffer with
      same | bailed
    · refine ⟨_, ?_, ended, ?_⟩
      · simp only [Tiered.run, same, ended]
      · simp only [Tiered.call, Compiled.call_ended (same.trans ended), Compiled.call_ended ended]
    · refine ⟨_, ?_, ended, ?_⟩
      · simp only [Tiered.run, bailed, ended]
      · simp only [Tiered.call, Compiled.call_stopped bailed]

/-- A conditional that a sum reads, inside a side of another conditional. -/
def nestedChoice : Program Float :=
  #[some (.argument 0), some (.argument 1), some (.conditional 0 1 1), some (.binary .add 2 0),
    some (.conditional 3 1 0)]

/-- The outer guard agrees and the inner one does not, so the original runs after all. -/
theorem nested_choice_transparent :
    ∃ baseline tiered,
      compile nestedChoice 1 { checked := false, profile := none } = .ok baseline ∧
      Unguarded nestedChoice ∧ baseline.arity ≤ #[1.0, (-2.0 : Float)].size ∧
      (nestedChoice.prune 0 ⟨[2, 4], []⟩ true).1 =
        #[some (.argument 0), some (.argument 1), some (.guarded 0 1 true),
          some (.binary .add 2 0), some (.guarded 3 0 true)] ∧
      Tiered.compile (some (nestedChoice.prune 0 ⟨[2, 4], []⟩ true).1) nestedChoice 1 =
        .ok tiered ∧
      tiered.run #[1.0, -2.0] #[0.0] = .ok #[-1.0] ∧
      tiered.call #[1.0, -2.0] #[0.0] = (.ok (), #[-1.0]) := by
  have compiled : compile nestedChoice 1 { checked := false, profile := none } = .ok
      ⟨[.conditional 4 none
          (.binary 3 false .add
            (.conditional 2 none (.value (.input 0)) (.value (.input 1)) (.value (.input 1)))
            (.value (.input 0)))
          (.value (.input 1)) (.value (.input 0))], [.temporary 0], 2⟩ := by rfl
  obtain ⟨tiered, accepted, transparent⟩ :=
    specialization_transparent nestedChoice 1 0 ⟨[2, 4], []⟩ _ compiled (by decide)
  obtain ⟨results, ran, expected, same⟩ := transparent #[1.0, -2.0] #[0.0] (by decide)
  refine ⟨_, tiered, compiled, by decide, by decide, by decide +kernel, accepted, ?_, ?_⟩
  · rw [ran, ← expected]
    rfl
  · rw [same]
    rfl

end Program

end ProgramSearch
