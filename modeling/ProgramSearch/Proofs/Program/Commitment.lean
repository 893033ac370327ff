import ProgramSearch.Training.Scalar
import ProgramSearch.Proofs.Branch.Sighting
import ProgramSearch.Proofs.Program.Observation

/-!
# Committing branches

Committing replaces a conditional that was seen on one side only by that side, for good. Nothing
checks the condition any more, so the committed program may compute something else on other inputs,
and even a node that some profiled run never evaluated may be committed to a side that its condition
does not select there.

What a profiled run observed is safe, however. An observed conditional has reported the side that
its condition selects, so if it is one-sided, then this is the side that it is committed to; and the
node needs observed slots only. A committed program therefore supports the eager values of the
original program on all observed slots, and the outputs of a run that came to an end are among them.
-/

namespace ProgramSearch

/-- The inputs of a run and the buffer for its outputs. -/
structure Sample (α : Type) where
  inputs : Array α
  buffer : Array α

namespace Observations

/-- Recording reports in observations of sides records them in the profile. -/
theorem fold_sides (reports : List Report) (profile : Liveness) :
    reports.foldl record (sides profile) = sides (reports.foldl Liveness.record profile) := by
  induction reports generalizing profile with
  | nil => rfl
  | cons report rest inductionHypothesis => exact inductionHypothesis (profile.record report)

/-- Recording reports in observations of counts records them in the profile. -/
theorem fold_counts (reports : List Report) (profile : BranchCounter) :
    reports.foldl record (counts profile) =
      counts (reports.foldl BranchCounter.record profile) := by
  induction reports generalizing profile with
  | nil => rfl
  | cons report rest inductionHypothesis => exact inductionHypothesis (profile.record report)

/-- Observations that start empty have seen exactly the reported sides of the program, whether they
keep sides or counts. -/
theorem seen_lists_iff (threshold : Nat) (reports : List Report) (slot : UInt16) (taken : Bool) :
    (reports.foldl record (new threshold)).seen.Lists slot taken ↔
      ⟨⟨0, slot⟩, taken⟩ ∈ reports := by
  unfold new
  split
  · rw [fold_sides, seen, Liveness.empty_fold_lists_iff]
  · rw [fold_counts, seen, BranchCounter.empty_fold_lists_iff]

end Observations

variable {α : Type} [Number α]

namespace Program

/-- A conditional that was seen on one side only is committed to what stands for that side. -/
inductive Commits (sides : Sides) (prior : Prior α) : Node α → Node α → Prop where
  | side {x y cond : UInt16} {taken : Bool} :
      onlySide? sides (UInt16.ofNat prior.size) = some taken →
        Commits sides prior (.conditional x y cond) (prior.selected (if taken then x else y))

/-- Collapsing one slot for good keeps it or commits the conditional there. -/
theorem commit_step_rewrites (sides : Sides) (offset : Nat) (state : Collapse α)
    (content : Option (Node α)) :
    ∃ form, (state.step sides offset false content).prior = state.prior.extend form ∧
      Rewrites (Commits sides) state.prior content form := by
  simp only [Collapse.step]
  split
  · rename_i form collapsed
    obtain ⟨node, rfl, found⟩ := Option.bind_eq_some_iff.mp collapsed
    obtain ⟨taken, sided, kept⟩ := Option.bind_eq_some_iff.mp found
    split at sided
    · cases sided
    · have later : 0 < state.prior.size := by omega
      cases node with
      | conditional x y cond =>
        obtain rfl := Option.some.inj kept
        exact ⟨_, rfl, .replaced later (.side sided)⟩
      | constant | argument | binary | move | guarded => cases kept
  · exact ⟨content, rfl, .kept content⟩

section Shape

variable (nodes : Program α) (offset : Nat) (sides : Sides)

/-- Collapsing for good walks over all slots and commits conditionals. -/
theorem prune_commits :
    ∃ prior, Rewritten nodes (Commits sides) prior ∧ prior.size = nodes.size ∧
      (nodes.prune offset sides false).1 = prior.program := by
  obtain ⟨walked, sized⟩ := fold_rewritten (Collapse.step sides offset false) Collapse.prior
    (commit_step_rewrites sides offset) nodes ⟨#[], 0⟩ rfl
  exact ⟨_, walked, sized, rfl⟩

theorem prune_sized : (nodes.prune offset sides false).1.size = nodes.size := by
  obtain ⟨prior, _, sized, same⟩ := prune_commits nodes offset sides
  rw [same, Prior.program_size, sized]

variable {nodes}

/-- Collapsing for good trims a valid program. No slot becomes empty. -/
theorem prune_trims (valid : Valid nodes) (protectedStart : Nat) :
    Trimmed nodes protectedStart (nodes.prune offset sides false).1 := by
  obtain ⟨prior, walked, sized, same⟩ := prune_commits nodes offset sides
  rw [same]
  apply walk_trims protectedStart sized
  · apply rewritten_slots _ walked
    intro prior node form commits parameter argument
    cases commits with
    | side => cases argument
  · apply rewritten_admits valid _ walked
    intro prior slot node form known admits commits
    cases commits with
    | @side x y cond taken =>
      apply selected_admits known
      apply admits.reads
      cases taken <;> simp [Node.reads]

/-- Collapsing for good makes no guards. -/
theorem prune_unguarded (unguarded : Unguarded nodes) :
    Unguarded (nodes.prune offset sides false).1 := by
  obtain ⟨prior, walked, _, same⟩ := prune_commits nodes offset sides
  rw [same]
  apply rewritten_unguarded _ unguarded walked
  intro prior node form commits
  cases commits with
  | side => exact prior.selected_direct _

end Shape

/-- Every slot that holds a node has a finite eager value. -/
def FiniteOn (nodes : Program α) (inputs : Array α) : Prop :=
  ∀ slot, isPresent nodes slot = true → Number.isFinite (eager inputs nodes slot) = true

/-- Looking at all slots decides whether all values are finite. -/
theorem finite_on_iff_slots (nodes : Program α) (inputs : Array α) :
    (∀ slot, slot < nodes.size → isPresent nodes slot = true →
        Number.isFinite (eager inputs nodes slot) = true) ↔ FiniteOn nodes inputs := by
  constructor
  · intro checked slot present
    obtain ⟨node, held⟩ := (present_iff nodes slot).mp present
    exact checked slot (node_bound nodes slot node held) present
  · intro finite slot _ present
    exact finite slot present

instance (nodes : Program α) (inputs : Array α) : Decidable (FiniteOn nodes inputs) :=
  decidable_of_iff _ (finite_on_iff_slots nodes inputs)

section Soundness

variable {nodes : Program α} {inputs others : Array α} {block : Nat} {made : Report → Prop}

/-- A valid program without guards supports its own finite eager values on what was observed, also
when it is given other inputs, as long as they are numerically equal where the program reads
them. -/
theorem observed_supports (comparison : Number.ComparisonLaws α) (valid : Valid nodes)
    (unguarded : Unguarded nodes) (finite : FiniteOn nodes inputs)
    (alike : ∀ slot parameter, node? nodes slot = some (.argument parameter) →
      Number.equal (others.getD parameter.toNat Number.nan)
        (inputs.getD parameter.toNat Number.nan) = true) :
    Supports others (eager inputs nodes) (Observed nodes (eager inputs nodes) block made)
      nodes := by
  intro slot node observed held
  constructor
  · exact agrees_of_unguarded unguarded _ slot node held
  · have exact := eager_exact inputs nodes valid slot node held
    have reflexive := comparison.equal_refl _ (finite slot observed.present)
    cases node with
    | argument parameter =>
      rw [exact]
      exact alike slot parameter held
    | constant | binary | move | conditional | guarded =>
      rw [exact] at reflexive ⊢
      exact reflexive
  · exact (observed_inversion observed held).2

/-- Committing keeps the support of finite values on what was observed, if every report that was
made is listed among the sides. An observed conditional has reported the side that it selects, so it
cannot be committed to the other one. -/
theorem commit_supports (comparison : Number.ComparisonLaws α)
    (arithmetic : Number.ArithmeticLaws α) {values : Nat → α}
    (finite : ∀ slot, Observed nodes values block made slot →
      Number.isFinite (values slot) = true)
    (offset : Nat) {sides : Sides}
    (listed : ∀ slot taken, made ⟨⟨block, slot⟩, taken⟩ → sides.Lists slot taken)
    (supports : Supports inputs values (Observed nodes values block made) nodes) :
    Supports inputs values (Observed nodes values block made)
      (nodes.prune offset sides false).1 := by
  obtain ⟨prior, walked, _, same⟩ := prune_commits nodes offset sides
  rw [same]
  apply known_supports
  apply rewritten_sound comparison arithmetic finite supports _ walked
  intro prior node form sound observed held yields commits
  cases commits with
  | @side x y cond taken found =>
    have reported := (observed_inversion observed held).1 x y cond rfl
    have selected := only_side_of_lists found (listed _ _ reported)
    exact Node.side_yields comparison sound finite yields selected

end Soundness

/-- A finite argument is numerically equal to itself. -/
theorem argument_equal (comparison : Number.ComparisonLaws α) {nodes : Program α} {inputs : Array α}
    (valid : Valid nodes) (finite : FiniteOn nodes inputs) (slot : Nat) (parameter : UInt16)
    (held : node? nodes slot = some (.argument parameter)) :
    Number.equal (inputs.getD parameter.toNat Number.nan)
      (inputs.getD parameter.toNat Number.nan) = true := by
  have value := finite slot ((present_iff nodes slot).mpr ⟨_, held⟩)
  rw [eager_exact inputs nodes valid slot _ held] at value
  exact comparison.equal_refl _ value

/-- A trimmed program computes outputs that are numerically equal to finite values that it supports
on the outputs. -/
theorem Supports.outputs_equal (comparison : Number.ComparisonLaws α)
    (arithmetic : Number.ArithmeticLaws α) {nodes result : Program α}
    {outputs protectedStart : Nat} (ready : Ready nodes outputs)
    (trimmed : Trimmed nodes protectedStart result)
    (protects : protectedStart ≤ nodes.size - outputs)
    {inputs : Array α} {values : Nat → α} {demanded : Nat → Prop}
    (finite : ∀ slot, demanded slot → Number.isFinite (values slot) = true)
    (needed : ∀ slot, nodes.size - outputs ≤ slot → slot < nodes.size → demanded slot)
    (supports : Supports inputs values demanded result) (index : Nat) (inside : index < outputs) :
    Number.equal (values (nodes.size - outputs + index))
      (eager inputs result (nodes.size - outputs + index)) = true := by
  have enough := ready.enough
  have sized := trimmed.sized
  have present := (trimmed.ready ready protects).present (nodes.size - outputs + index) (by omega)
    (by omega)
  exact supports.eager_equal comparison arithmetic trimmed.valid finite _
    (needed _ (by omega) (by omega)) present

/-- Committing and then simplifying trims a valid program, does not read beyond it, and makes no
guards. -/
theorem specialize_trims {nodes : Program α} (valid : Valid nodes) (unguarded : Unguarded nodes)
    (offset protectedStart : Nat) (sides : Sides) :
    let specialized := (nodes.prune offset sides false).1.optimize protectedStart
    Trimmed nodes protectedStart specialized.nodes ∧ specialized.inBounds = true ∧
      Unguarded specialized.nodes := by
  have commits := prune_trims offset sides valid protectedStart
  obtain ⟨simplifies, inBounds⟩ := optimize_trims commits.valid protectedStart
  have free := prune_unguarded offset sides unguarded
  exact ⟨commits.trans simplifies, inBounds, optimize_unguarded commits.valid free protectedStart⟩

/-! An instrumented run came to an end on finite values, and the sides list its reports. The program
that is committed to these sides may be given other inputs, as long as they are numerically equal
where the original reads them. -/
section Profiled

variable (comparison : Number.ComparisonLaws α) (arithmetic : Number.ArithmeticLaws α)
  {nodes : Program α} {outputs : Nat} {mode : Mode} {program : Compiled α} {slots : List Nat}
  (linked : Linked nodes outputs mode program slots) (ready : Ready nodes outputs)
  (unguarded : Unguarded nodes) {block : Nat} (instrumented : mode.profile = some block)
  {inputs others buffer results : Array α} (covered : Covered nodes inputs)
  (finite : FiniteOn nodes inputs) (ended : (program.run inputs buffer).result = .ok results)
  (offset : Nat) {sides : Sides}
  (listed : ∀ slot taken, ⟨⟨block, slot⟩, taken⟩ ∈ (program.run inputs buffer).reports →
    sides.Lists slot taken)
  (alike : ∀ slot parameter, node? nodes slot = some (.argument parameter) →
    Number.equal (others.getD parameter.toNat Number.nan)
      (inputs.getD parameter.toNat Number.nan) = true)

include comparison arithmetic linked ready unguarded instrumented covered finite ended listed alike

/-- The committed program supports the values of the run on some slots that held nodes, among which
are all outputs. -/
theorem Linked.commit_supports :
    ∃ demanded : Nat → Prop,
      (∀ slot, demanded slot → Number.isFinite (eager inputs nodes slot) = true) ∧
      (∀ slot, nodes.size - outputs ≤ slot → slot < nodes.size → demanded slot) ∧
      Supports others (eager inputs nodes) demanded (nodes.prune offset sides false).1 := by
  let made (report : Report) : Prop := report ∈ (program.run inputs buffer).reports
  have observed : ∀ slot, Observed nodes (eager inputs nodes) block made slot →
      Number.isFinite (eager inputs nodes slot) = true :=
    fun slot observed => finite slot observed.present
  refine ⟨Observed nodes (eager inputs nodes) block made, observed, ?_, ?_⟩
  · exact linked.run_observes ready.enough instrumented
      (eager_explains inputs nodes ready.valid) covered ended fun report told => told
  · exact Program.commit_supports comparison arithmetic observed offset listed
      (observed_supports comparison ready.valid unguarded finite alike)

/-- The committed program computes outputs that are numerically equal to the original ones. -/
theorem Linked.commit_equal (index : Nat) (inside : index < outputs) :
    Number.equal (eager inputs nodes (nodes.size - outputs + index))
      (eager others (nodes.prune offset sides false).1 (nodes.size - outputs + index)) = true := by
  obtain ⟨demanded, finiteDemanded, needed, supports⟩ := linked.commit_supports comparison
    arithmetic ready unguarded instrumented covered finite ended offset listed alike
  exact supports.outputs_equal comparison arithmetic ready
    (prune_trims offset sides ready.valid (nodes.size - outputs)) (Nat.le_refl _) finiteDemanded
    needed index inside

/-- The committed and simplified program computes outputs that are numerically equal to the original
ones, if they are protected. -/
theorem Linked.specialize_equal {protectedStart : Nat}
    (protects : protectedStart ≤ nodes.size - outputs) (index : Nat) (inside : index < outputs) :
    Number.equal (eager inputs nodes (nodes.size - outputs + index))
      (eager others ((nodes.prune offset sides false).1.optimize protectedStart).nodes
        (nodes.size - outputs + index)) = true := by
  obtain ⟨demanded, finiteDemanded, needed, supports⟩ := linked.commit_supports comparison
    arithmetic ready unguarded instrumented covered finite ended offset listed alike
  have valid := (prune_trims offset sides ready.valid protectedStart).valid
  have simplified : Supports others (eager inputs nodes) demanded
      ((nodes.prune offset sides false).1.optimize protectedStart).nodes :=
    optimize_supports comparison arithmetic finiteDemanded valid supports
  exact simplified.outputs_equal comparison arithmetic ready
    (specialize_trims ready.valid unguarded offset protectedStart sides).1 protects finiteDemanded
    needed index inside

end Profiled

/-- Committing is faithful to the runs that were profiled. The branches of an accepted program
without guards are observed in some runs, each of which came to an end; observations of sides and
observations of counts will both do. The committed and simplified program, with its outputs
protected, is found without reading beyond the program and is accepted for as many outputs. On the
inputs of each of the runs for which all eager values of the original are finite, it comes to an end
as well, each output is numerically equal to the original one, and the cells past the outputs keep
their content. -/
theorem commitment_preserves_outputs (comparison : Number.ComparisonLaws α)
    (arithmetic : Number.ArithmeticLaws α) (nodes : Program α)
    (outputs offset protectedStart threshold : Nat) (checked : Bool) (samples : List (Sample α))
    (original instrumented : Compiled α)
    (compiled : compile nodes outputs { checked := false, profile := none } = .ok original)
    (instruments : compile nodes outputs { checked, profile := some 0 } = .ok instrumented)
    (unguarded : Unguarded nodes)
    (completed : ∀ sample ∈ samples, ∃ results,
      (instrumented.run sample.inputs sample.buffer).result = .ok results)
    (protects : protectedStart ≤ nodes.size - outputs) :
    let reports := samples.flatMap fun sample =>
      (instrumented.run sample.inputs sample.buffer).reports
    let observations := reports.foldl Observations.record (Observations.new threshold)
    let committed := (nodes.prune offset observations.seen false).1
    (committed.optimize protectedStart).inBounds = true ∧
      ∃ specialized, compile (committed.optimize protectedStart).nodes outputs
          { checked := false, profile := none } = .ok specialized ∧
        ∀ sample ∈ samples, original.arity ≤ sample.inputs.size → FiniteOn nodes sample.inputs →
          ∃ expected results,
            (original.run sample.inputs sample.buffer).result = .ok expected ∧
            (instrumented.run sample.inputs sample.buffer).result = .ok expected ∧
            (specialized.run sample.inputs sample.buffer).result = .ok results ∧
            expected.size = sample.buffer.size ∧ results.size = sample.buffer.size ∧
            (∀ index x y, index < outputs → expected[index]? = some x →
              results[index]? = some y → Number.equal x y = true) ∧
            ∀ index, outputs ≤ index → results[index]? = sample.buffer[index]? := by
  intro reports observations committed
  obtain ⟨ready, _, linked⟩ := linked_of_compile compiled
  obtain ⟨_, _, linkedInstrumented⟩ := linked_of_compile instruments
  obtain ⟨trimmed, inBounds, unguardedResult⟩ :=
    specialize_trims ready.valid unguarded offset protectedStart observations.seen
  refine ⟨inBounds, ?_⟩
  obtain ⟨specialized, accepted⟩ :=
    compile_of_ready (trimmed.ready ready protects) { checked := false, profile := none }
  obtain ⟨_, _, linkedResult⟩ := linked_of_compile accepted
  refine ⟨specialized, accepted, ?_⟩
  intro sample member sufficient finite
  obtain ⟨expected, ended⟩ := completed sample member
  have covered : Covered nodes sample.inputs := by
    intro slot parameter held
    exact Nat.lt_of_lt_of_le (linked.covers slot parameter held) sufficient
  -- The reports of this run are among those of all runs.
  have listed : ∀ slot taken,
      ⟨⟨0, slot⟩, taken⟩ ∈ (instrumented.run sample.inputs sample.buffer).reports →
        observations.seen.Lists slot taken := by
    intro slot taken told
    apply (Observations.seen_lists_iff threshold reports slot taken).mpr
    exact List.mem_flatMap.mpr ⟨sample, member, told⟩
  have same := linkedInstrumented.specialize_equal comparison arithmetic ready unguarded rfl covered
    finite ended offset listed (argument_equal comparison ready.valid finite) protects
  have ran := run_unguarded compiled unguarded rfl sufficient sample.buffer
  have sufficientInstrumented : instrumented.arity ≤ sample.inputs.size :=
    Nat.le_trans (linked.arity_le linkedInstrumented fun slot _ held => ⟨slot, held⟩) sufficient
  obtain rfl := linkedInstrumented.run_exact (eager_explains sample.inputs nodes ready.valid)
    sufficientInstrumented ended
  have sufficientResult : specialized.arity ≤ sample.inputs.size :=
    Nat.le_trans (linked.arity_le linkedResult trimmed.borrowed) sufficient
  have ranResult := run_unguarded accepted unguardedResult rfl sufficientResult sample.buffer
  rw [trimmed.sized] at ranResult
  refine ⟨_, _, ran, ended, ranResult, overwritten_size .., overwritten_size .., ?_, ?_⟩
  · exact overwritten_related same sample.buffer sample.buffer
  · intro index beyond
    exact overwritten_rest _ _ _ sample.buffer index beyond

/-- A conditional that only one side of another conditional needs. -/
def sheltered : Program Small :=
  #[some (.argument 0), some (.argument 1), some (.conditional 0 1 1), some (.binary .add 2 0),
    some (.conditional 3 0 0)]

/-- One run on each side of the outer conditional. -/
def shelteredSamples : List (Sample Small) :=
  [⟨#[Small.ofInt 2, Small.ofInt 1], #[.undefined]⟩,
    ⟨#[Small.ofInt (-3), Small.ofInt (-1)], #[.undefined]⟩]

/-- The inner conditional is committed to its first side, which it would not select in the second
run. That run did not need it, and its result stays what it was. -/
theorem sheltered_commitment :
    ∃ original instrumented specialized results y,
      compile sheltered 1 { checked := false, profile := none } = .ok original ∧
      compile sheltered 1 { checked := true, profile := some 0 } = .ok instrumented ∧
      Unguarded sheltered ∧
      (∀ sample ∈ shelteredSamples, ∃ results,
        (instrumented.run sample.inputs sample.buffer).result = .ok results) ∧
      4 ≤ sheltered.size - 1 ∧
      (∀ sample ∈ shelteredSamples, original.arity ≤ sample.inputs.size ∧
        FiniteOn sheltered sample.inputs) ∧
      (let reports := shelteredSamples.flatMap fun sample =>
          (instrumented.run sample.inputs sample.buffer).reports
        let observations := reports.foldl Observations.record (Observations.new 0)
        let committed := (sheltered.prune 0 observations.seen false).1
        reports = [⟨⟨0, 4⟩, true⟩, ⟨⟨0, 2⟩, true⟩, ⟨⟨0, 4⟩, false⟩] ∧
        committed = #[some (.argument 0), some (.argument 1), some (.argument 0),
          some (.binary .add 2 0), some (.conditional 3 0 0)] ∧
        compile (committed.optimize 4).nodes 1 { checked := false, profile := none } =
          .ok specialized) ∧
      (specialized.run #[Small.ofInt (-3), Small.ofInt (-1)] #[.undefined]).result = .ok results ∧
      results[0]? = some y ∧ Number.equal (Small.ofInt (-3)) y = true := by
  obtain ⟨original, compiled, arity⟩ : ∃ original,
      compile sheltered 1 { checked := false, profile := none } = .ok original ∧
        original.arity = 2 := ⟨_, rfl, rfl⟩
  obtain ⟨instrumented, instruments, first, second⟩ : ∃ instrumented,
      compile sheltered 1 { checked := true, profile := some 0 } = .ok instrumented ∧
        instrumented.run #[Small.ofInt 2, Small.ofInt 1] #[.undefined] =
          ⟨[⟨⟨0, 4⟩, true⟩, ⟨⟨0, 2⟩, true⟩], .ok #[Small.ofInt 4]⟩ ∧
        instrumented.run #[Small.ofInt (-3), Small.ofInt (-1)] #[.undefined] =
          ⟨[⟨⟨0, 4⟩, false⟩], .ok #[Small.ofInt (-3)]⟩ := ⟨_, rfl, rfl, rfl⟩
  have completed : ∀ sample ∈ shelteredSamples, ∃ results,
      (instrumented.run sample.inputs sample.buffer).result = .ok results := by
    simp [shelteredSamples, first, second]
  have proper : ∀ sample ∈ shelteredSamples, original.arity ≤ sample.inputs.size ∧
      FiniteOn sheltered sample.inputs := by
    rw [arity]
    decide +kernel
  obtain ⟨_, specialized, accepted, faithful⟩ := commitment_preserves_outputs
    Small.comparison_laws Small.arithmetic_laws sheltered 1 0 4 0 true shelteredSamples original
    instrumented compiled instruments (by decide) completed (by decide)
  obtain ⟨expected, results, _, ended, ran, _, sized, same, _⟩ :=
    faithful _ (List.mem_cons_of_mem _ List.mem_cons_self) (proper _ (by simp [shelteredSamples])).1
      (proper _ (by simp [shelteredSamples])).2
  rw [second] at ended
  obtain rfl := Except.ok.inj ended
  have inside : 0 < results.size := sized ▸ Nat.one_pos
  have found := Array.getElem?_eq_getElem inside
  have told : (shelteredSamples.flatMap fun sample =>
      (instrumented.run sample.inputs sample.buffer).reports) =
        [⟨⟨0, 4⟩, true⟩, ⟨⟨0, 2⟩, true⟩, ⟨⟨0, 4⟩, false⟩] := by
    simp [shelteredSamples, first, second]
  refine ⟨original, instrumented, specialized, results, results[0], compiled, instruments,
    by decide, completed, by decide, proper, ⟨told, ?_, accepted⟩, ran, found,
    same 0 _ _ (by decide) rfl found⟩
  rw [told]
  decide +kernel

end Program

end ProgramSearch
