import ProgramSearch.Proofs.Number.Small
import ProgramSearch.Proofs.Tree.Numbering
import ProgramSearch.Proofs.Tree.Similarity
import ProgramSearch.Proofs.Tree.Speculation

/-!
# Specializing whole trees

Three passes rewrite a tree by what profiled runs noted: one-sided branches are committed, others
are guarded, and loops that were never entered are removed. The branch passes go by the numbers of
basic blocks and the loop pass by the numbers of blocks, but none of them changes the numbers that
another one goes by, so together they are one walk over the tree.

The runs of an instrumented tree only ever add notes. A run whose notes are within the final profile
therefore sees every basic block specialized by notes that include its own, which keeps the
variables numerically equal, and never reaches a loop that was removed. The specialized tree follows
such a run step by step. Values may differ in the sign of a zero, but neither a loop nor an address
can tell.
-/

namespace ProgramSearch

variable {α : Type} [Number α]

/-- Which conditionals are guarded: those behind the offset with a side that was not selected more
often than the threshold. -/
structure Guarding where
  offset : Nat
  threshold : Nat

section Passes

variable (profile : TreeProfile) (offset : Nat) (guarding : Option Guarding)

/-- Commit the one-sided branches of one basic block, and count. -/
def BasicBlock.commitStep (state : Tree.PassCount) (code : BasicBlock α) :
    BasicBlock α × Tree.PassCount :=
  let (nodes, collapsed) := code.nodes.prune offset (profile.branches.sides state.1 0) false
  (⟨nodes, none⟩, (state.1 + 1, state.2 + collapsed))

/-- Guard rarely taken sides of one basic block in a specialized form, and count. -/
def BasicBlock.guardStep (guarding : Guarding) (state : Tree.PassCount) (code : BasicBlock α) :
    BasicBlock α × Tree.PassCount :=
  let (nodes, guarded) := code.nodes.prune guarding.offset
    (profile.branches.sides state.1 guarding.threshold) true
  (⟨code.nodes, if guarded = 0 then none else some nodes⟩, (state.1 + 1, state.2 + guarded))

/-- What specializing makes of the basic block with a number. -/
def BasicBlock.specialize (ordinal : Nat) (code : BasicBlock α) : BasicBlock α :=
  let committed := (code.commitStep profile offset (ordinal, 0)).1
  match guarding with
  | none => committed
  | some guarding => (committed.guardStep profile guarding (ordinal, 0)).1

namespace Tree

variable (tree : Tree α)

/-- Commit one-sided branches, guard others if asked for, and remove the loops that were never
entered, all by one profile. -/
def specialize : Tree α :=
  let committed := (tree.commitBranches profile offset).1
  let guarded :=
    match guarding with
    | none => committed
    | some guarding =>
      (committed.speculateBranches profile guarding.offset guarding.threshold).1
  (guarded.stripDeadLoops profile).1

/-- All passes together amount to a single walk over the tree, in which every basic block and every
loop goes by its number. -/
theorem specialize_eq_tailor :
    tree.specialize profile offset guarding =
      tree.tailor (BasicBlock.specialize profile offset guarding) profile.isReached ⟨0, 0⟩ := by
  cases guarding with
  | none =>
    have counts : ∀ (state : PassCount) (number : Nat) (code : BasicBlock α), state.1 = number →
        (code.commitStep profile offset state).1 =
            code.specialize profile offset none number ∧
          (code.commitStep profile offset state).2.1 = number + 1 := by
      rintro state number code rfl
      exact ⟨rfl, rfl⟩
    exact (strip_eq_tailor (fun state number => state.1 = number) counts profile tree (0, 0) (0, 0)
      ⟨0, 0⟩ rfl rfl).1
  | some guarding =>
    have twice := map_basic_twice (BasicBlock.commitStep profile offset)
      (BasicBlock.guardStep profile guarding) tree (0, 0) (0, 0)
    let numbers (states : PassCount × PassCount) (number : Nat) : Prop :=
      states.1.1 = number ∧ states.2.1 = number
    have counts : ∀ (states : PassCount × PassCount) (number : Nat) (code : BasicBlock α),
        numbers states number →
        let changed := both (BasicBlock.commitStep profile offset)
          (BasicBlock.guardStep profile guarding) states code
        changed.1 = code.specialize profile offset (some guarding) number ∧
          numbers changed.2 (number + 1) := by
      rintro ⟨⟨first, _⟩, second, _⟩ number code ⟨same, other⟩
      obtain rfl : first = number := same
      obtain rfl : second = first := other
      exact ⟨rfl, rfl, rfl⟩
    have walked := (strip_eq_tailor numbers counts profile tree ((0, 0), (0, 0)) (0, 0) ⟨0, 0⟩
      ⟨rfl, rfl⟩ rfl).1
    rw [twice] at walked
    exact walked

end Tree

end Passes

/-- A program that fits still does when branches are committed. -/
theorem Program.Fits.commit {nodes : Program α} {count : Nat} (fits : nodes.Fits count)
    (offset : Nat) (sides : Sides) : (nodes.prune offset sides false).1.Fits count := by
  have trimmed := prune_trims offset sides fits.ready.valid (nodes.size - count)
  refine ⟨trimmed.ready fits.ready (Nat.le_refl _), ?_⟩
  intro slot parameter held
  obtain ⟨other, found⟩ := trimmed.borrowed slot parameter held
  exact fits.arguments other parameter found

namespace BasicBlock

/-- The baseline of a specialized basic block is the committed one. -/
theorem specialize_nodes (profile : TreeProfile) (offset : Nat) (guarding : Option Guarding)
    (ordinal : Nat) (code : BasicBlock α) :
    (code.specialize profile offset guarding ordinal).nodes =
      (code.nodes.prune offset (profile.branches.sides ordinal 0) false).1 := by
  cases guarding <;> rfl

/-- Specializing a basic block that fits and has no guards makes one that fits, and its specialized
form can be dropped. -/
theorem specialize_discardable (profile : TreeProfile) (offset : Nat) (guarding : Option Guarding)
    (ordinal : Nat) {code : BasicBlock α} {count : Nat} (fits : code.nodes.Fits count)
    (unguarded : code.nodes.Unguarded) :
    (code.specialize profile offset guarding ordinal).Fits count ∧
      (code.specialize profile offset guarding ordinal).Discardable := by
  have committed := fits.commit offset (profile.branches.sides ordinal 0)
  have free := Program.prune_unguarded offset (profile.branches.sides ordinal 0) unguarded
  cases guarding with
  | none => exact ⟨⟨committed, nofun⟩, free, nofun⟩
  | some guarding => exact guarded_discardable committed free _ _

end BasicBlock

/-- When a basic block without a specialized form comes to an end, the variables are what its
compiled program left, and the profile has its reports. -/
theorem Action.replace_all_ended {program : Compiled α} {machine after : Machine α}
    (ran : Action.replaceAll program machine = .ok () after) :
    ∃ results, (program.run machine.values machine.scratch).result = .ok results ∧
      after = { machine with
        values := results
        scratch := results
        profile := machine.profile.map fun profile =>
          (program.run machine.values machine.scratch).reports.foldl TreeProfile.record
            profile } := by
  obtain ⟨results, ended, same⟩ | ⟨halt, _, same⟩ := Action.replace_all_cases program machine <;>
    rw [same] at ran <;> cases ran
  exact ⟨results, ended, rfl⟩

/-- The reports of a basic block whose notes are within a profile are listed there, under the number
of the block. -/
theorem TreeProfile.lists_of_within {before final : TreeProfile} {reports : List Report}
    (within : (reports.foldl TreeProfile.record before).Within final) {block : Nat} {slot : UInt16}
    {taken : Bool} (told : ⟨⟨block, slot⟩, taken⟩ ∈ reports) :
    (final.branches.sides block 0).Lists slot taken := by
  rw [BranchCounter.sides_lists_iff]
  have counted := List.count_pos_iff.mpr told
  have recorded := within.selections ⟨⟨block, slot⟩, taken⟩
  rw [TreeProfile.selections_fold] at recorded
  omega

/-- Similar machines hold variables that are numerically equal where a program reads finite ones. -/
theorem Similar.arguments {count : Nat} {left right : Machine α}
    (similar : Similar count left right) (comparison : Number.ComparisonLaws α)
    {nodes : Program α} (fits : nodes.Fits count)
    (finite : nodes.FiniteOn left.values) (slot : Nat) (parameter : UInt16)
    (held : nodes.node? slot = some (.argument parameter)) :
    Number.equal (right.values.getD parameter.toNat Number.nan)
      (left.values.getD parameter.toNat Number.nan) = true := by
  have inside : parameter.toNat < left.values.size :=
    similar.sized ▸ fits.arguments slot parameter held
  have value := finite slot ((Program.present_iff nodes slot).mpr ⟨_, held⟩)
  rw [Program.eager_exact left.values nodes fits.ready.valid slot _ held] at value
  have alike := similar.values.cells parameter.toNat
  have insideRight : parameter.toNat < right.values.size := similar.values.sized ▸ inside
  simp only [Node.eager, Array.getD_eq_getD_getElem?, Array.getElem?_eq_getElem inside,
    Array.getElem?_eq_getElem insideRight, Option.getD_some] at value alike ⊢
  exact comparison.equal_symm _ _ (alike.equal comparison value)

namespace Tree

open ProgramSearch.Action

section Simulation

variable {config : MachineConfig} {otherwise : Bool} {final : TreeProfile} {offset : Nat}
  {guarding : Option Guarding}

/-- A specialized basic block follows the original, if the profile that it was specialized by has
the notes of the run. The reports of the run are listed in the profile, so the committed outputs are
numerically equal to the original ones, and a specialized form can be dropped. -/
theorem basic_follows (comparison : Number.ComparisonLaws α)
    (arithmetic : Number.ArithmeticLaws α) {code : BasicBlock α}
    (unspecialized : code.specialized = none) (unguarded : code.nodes.Unguarded)
    {ordinal otherOrdinal : Nat} {compiled other : Statement α}
    (accepted : Setting.basic ⟨config, true⟩ code ordinal = .ok compiled)
    (acceptedOther : Setting.basic ⟨config, otherwise⟩
      (code.specialize final offset guarding ordinal) otherOrdinal = .ok other) :
    Follows config.variableCount final (fun machine => [⟨code, machine.values⟩]) compiled.run
      other.run := by
  obtain ⟨baseline, unguided, rfl, compiledNodes, second⟩ := (basic_ok_iff _ _ _ _).mp accepted
  rw [unspecialized, Refusal.mapM_ok_iff] at second
  subst second
  obtain ⟨instruments, within⟩ := (scalar_ok_iff _ _ _ _).mp compiledNodes
  obtain ⟨ready, _, linked⟩ := Program.linked_of_compile instruments
  have fits : code.nodes.Fits config.variableCount :=
    (scalar_accepted_iff ⟨config, true⟩ code.nodes _).mp ⟨baseline, compiledNodes⟩
  obtain ⟨fitsOther, discardable⟩ :=
    BasicBlock.specialize_discardable final offset guarding ordinal fits unguarded
  obtain ⟨baselineOther, specialized, rfl, _⟩ := (basic_ok_iff _ _ _ _).mp acceptedOther
  intro left right after similar ran noted finite
  have finite : code.nodes.FiniteOn left.values := finite _ (List.mem_singleton.mpr rfl)
  obtain ⟨results, ended, rfl⟩ := replace_all_ended ran
  have covered : code.nodes.Covered left.values := by
    intro slot parameter held
    exact similar.sized ▸ fits.arguments slot parameter held
  -- The reports of this run are in the final notes, so every side that it took is known as taken.
  have listed : ∀ slot taken,
      ⟨⟨ordinal, slot⟩, taken⟩ ∈ (baseline.run left.values left.scratch).reports →
        (final.branches.sides ordinal 0).Lists slot taken := by
    intro slot taken told
    obtain ⟨profile, found, within⟩ := noted
    obtain ⟨before, _, rfl⟩ := Option.map_eq_some_iff.mp found
    exact TreeProfile.lists_of_within within told
  have same : ∀ index, index < config.variableCount → Alike
      (Program.eager left.values code.nodes (code.nodes.size - config.variableCount + index))
      (Program.eager right.values
        (code.nodes.prune offset (final.branches.sides ordinal 0) false).1
        (code.nodes.size - config.variableCount + index)) := by
    intro index inside
    exact .inl (linked.commit_equal comparison arithmetic ready unguarded rfl covered finite ended
      offset listed (similar.arguments comparison fits finite) index inside)
  obtain rfl := linked.run_exact (Program.eager_explains left.values code.nodes ready.valid)
    (similar.sized ▸ within) ended
  have sizedOther : right.values.size = config.variableCount :=
    similar.values.sized.symm.trans similar.sized
  obtain ⟨profile, finished⟩ := basic_exact acceptedOther discardable right sizedOther
  refine ⟨_, finished, ?_⟩
  have sized := (Program.overwritten_size (Program.eager left.values code.nodes)
    (code.nodes.size - config.variableCount) config.variableCount left.scratch).trans
      similar.scratch
  have alike : ArraysAlike
      (left.successors code.nodes config.variableCount)
      (right.successors (code.specialize final offset guarding ordinal).nodes
        config.variableCount) := by
    rw [BasicBlock.specialize_nodes]
    simp only [Machine.successors, Program.prune_sized]
    apply ArraysAlike.of_cells
    · rw [sized, Program.overwritten_size, similar.otherScratch]
    · intro index x y foundLeft foundRight
      have inside := (Array.getElem?_eq_some_iff.mp foundLeft).1
      exact Program.overwritten_related same left.scratch right.scratch index x y (sized ▸ inside)
        foundLeft foundRight
  exact { similar with
    values := alike
    sized := sized
    scratch := sized
    otherScratch := alike.sized.symm.trans sized }

/-- A loop whose body is not reached in the end did nothing whenever it came to an end. -/
theorem unreached_follows {count block : Nat} (unreached : final.isReached block = false)
    (condition : Nat) (parts : List (Statement α)) (visits : Machine α → List (Visit α)) :
    Follows count final visits (Statement.loop condition (.block (some block) parts)).run
      (Statement.skip : Statement α).run := by
  intro left right after similar ran noted _
  have entered := (Statement.block (some block) parts).run_notes
  replace ran : repeatWhile condition (Statement.block (some block) parts).run left.remaining left =
    .ok () after := ran
  generalize left.remaining = fuel at ran
  cases fuel with
  | zero =>
    rw [repeat_while_zero] at ran
    split at ran
    · cases ran
    · cases ran
      exact ⟨right, rfl, similar⟩
  | succ fuel =>
    rw [repeat_while_succ] at ran
    split at ran
    · obtain ⟨_, spent, _, rest⟩ := (bind_ended_iff _ _ _ _ _).mp ran
      obtain ⟨_, iterated, body, others⟩ := (bind_ended_iff _ _ _ _ _).mp rest
      have notedBody := ((entered.repeat_while condition fuel).ended others).noted noted
      obtain ⟨_, marked, enters, inside⟩ := (bind_ended_iff _ _ _ _ _).mp body
      cases enters
      obtain ⟨profile, found, within⟩ :=
        ((Statement.runAll_notes parts).ended inside).noted notedBody
      obtain ⟨before, _, rfl⟩ := Option.map_eq_some_iff.mp found
      have reached := within.reached block
        ((TreeProfile.reached_mark_iff before block block).mpr (.inl rfl))
      simp [unreached] at reached
    · cases ran
      exact ⟨right, rfl, similar⟩

mutual

/-- A specialized tree follows the original.

The induction follows the tree. A removed loop follows from the profile alone; everything else is
compiled on both sides and runs alike, with its own numbers on either side. -/
theorem tailor_follows (comparison : Number.ComparisonLaws α)
    (arithmetic : Number.ArithmeticLaws α) (likeness : Number.LikenessLaws α) (tree : Tree α)
    (next otherNext : Ordinals) {compiled other : Statement α × Ordinals}
    (plain : tree.Respects config.variableCount fun code =>
      code.specialized = none ∧ code.nodes.Unguarded)
    (accepted : statement ⟨config, true⟩ next tree = .ok compiled)
    (acceptedOther : statement ⟨config, otherwise⟩ otherNext
      (tree.tailor (BasicBlock.specialize final offset guarding) final.isReached next) =
        .ok other) :
    Follows config.variableCount final (tree.visits compiled.1) compiled.1.run other.1.run := by
  cases tree with
  | skip =>
    obtain rfl := Except.ok.inj accepted
    obtain rfl := Except.ok.inj acceptedOther
    exact .pure _
  | block children =>
    rw [tailor] at acceptedOther
    obtain ⟨parts, inside, rfl⟩ := (statement_block_iff _ _ _ _).mp accepted
    obtain ⟨otherParts, otherInside, rfl⟩ := (statement_block_iff _ _ _ _).mp acceptedOther
    have continued := tailor_all_follows comparison arithmetic likeness children next otherNext
      plain inside otherInside
    exact (Follows.note _ _).bind (Statement.runAll_notes parts.1) continued
  | loop condition body =>
    obtain ⟨_, inner, inside, rfl⟩ := (statement_loop_iff _ _ _ _ _).mp accepted
    rw [tailor] at acceptedOther
    -- Either the loop was removed because its body was not reached, or both sides have it.
    split at acceptedOther
    · rename_i removed
      obtain rfl := Except.ok.inj acceptedOther
      simp only [Bool.and_eq_true, Bool.not_eq_true'] at removed
      obtain ⟨shape, unreached⟩ := removed
      cases body with
      | block children =>
        obtain ⟨parts, within, rfl⟩ := (statement_block_iff _ _ _ _).mp inside
        rw [past, ← statements_numbers _ children next within] at unreached
        exact unreached_follows unreached condition.toNat parts.1 _
      | skip | loop | read | write | basic => cases shape
    · obtain ⟨_, otherInner, otherInside, rfl⟩ :=
        (statement_loop_iff _ _ _ _ _).mp acceptedOther
      have repeated := tailor_follows comparison arithmetic likeness body next otherNext plain.2
        inside otherInside
      intro left right after similar ran noted finite
      have looped := Follows.repeat_while comparison likeness condition.toNat inner.1.run_notes
        repeated left.remaining left right after similar ran noted finite
      simp only [Statement.run, get_bind, ← similar.remaining]
      exact looped
  | read target =>
    obtain ⟨_, rfl⟩ := (statement_read_iff _ _ _ _).mp accepted
    obtain ⟨_, rfl⟩ := (statement_read_iff _ target _ _).mp acceptedOther
    exact .read likeness target.toNat
  | write address value =>
    obtain ⟨_, _, rfl⟩ := (statement_write_iff _ _ _ _ _).mp accepted
    obtain ⟨_, _, rfl⟩ := (statement_write_iff _ address value _ _).mp acceptedOther
    exact .write likeness address.toNat value.toNat
  | basic code =>
    rw [tailor] at acceptedOther
    obtain ⟨block, inside, rfl⟩ := (statement_basic_iff _ _ _ _).mp accepted
    obtain ⟨otherBlock, otherInside, rfl⟩ := (statement_basic_iff _ _ _ _).mp acceptedOther
    exact basic_follows comparison arithmetic plain.1 plain.2 inside otherInside

/-- The specialized children of a block follow the original ones, one after another. Children that
are empty on one side are left out there. -/
theorem tailor_all_follows (comparison : Number.ComparisonLaws α)
    (arithmetic : Number.ArithmeticLaws α) (likeness : Number.LikenessLaws α)
    (trees : List (Tree α)) (next otherNext : Ordinals)
    {compiled other : List (Statement α) × Ordinals}
    (plain : RespectsAll config.variableCount
      (fun code => code.specialized = none ∧ code.nodes.Unguarded) trees)
    (accepted : statements ⟨config, true⟩ next trees = .ok compiled)
    (acceptedOther : statements ⟨config, otherwise⟩ otherNext
      (tailorAll (BasicBlock.specialize final offset guarding) final.isReached next trees) =
        .ok other) :
    Follows config.variableCount final (visitsAll trees compiled.1) (Statement.runAll compiled.1)
      (Statement.runAll other.1) := by
  cases trees with
  | nil =>
    obtain rfl := Except.ok.inj accepted
    obtain rfl := Except.ok.inj acceptedOther
    exact .pure _
  | cons tree rest =>
    cases empty : tree.isSkip with
    | true =>
      cases tree with
      | skip =>
        exact tailor_all_follows comparison arithmetic likeness rest next otherNext plain.2 accepted
          acceptedOther
      | block | loop | read | write | basic => cases empty
    | false =>
      obtain ⟨first, others, start, remaining, rfl⟩ :=
        (statements_cons_iff _ empty _ _ _).mp accepted
      simp only [tailorAll, ← statement_numbers _ tree next start] at acceptedOther
      have notes := Statement.runAll_notes others.1
      have visited : visitsAll (tree :: rest) (first.1 :: others.1) = fun machine =>
          tree.visits first.1 machine ++
            first.1.run.afterwards (visitsAll rest others.1) machine := by
        funext machine
        simp only [visitsAll, empty, Bool.false_eq_true, if_false]
      rw [visited]
      split at acceptedOther
      · rename_i removed
        have begin := tailor_follows comparison arithmetic likeness tree next otherNext plain.1
          start (statement_of_is_skip ⟨config, otherwise⟩ otherNext removed)
        have continued := tailor_all_follows comparison arithmetic likeness rest first.2 otherNext
          plain.2 remaining acceptedOther
        exact begin.bind notes continued
      · rename_i kept
        obtain ⟨otherFirst, otherRest, otherStart, otherRemaining, rfl⟩ :=
          (statements_cons_iff _ (Bool.eq_false_iff.mpr kept) _ _ _).mp acceptedOther
        have begin := tailor_follows comparison arithmetic likeness tree next otherNext plain.1
          start otherStart
        have continued := tailor_all_follows comparison arithmetic likeness rest first.2
          otherFirst.2 plain.2 remaining otherRemaining
        exact begin.bind notes continued

end

end Simulation

section Executions

/-- Specializing an accepted tree without guards makes one that fits, and specialized forms that can
be dropped. -/
theorem specialize_respects (tree : Tree α) (count : Nat) (profile : TreeProfile) (offset : Nat)
    (guarding : Option Guarding)
    (respects : tree.Respects count fun code => code.Fits count ∧ code.nodes.Unguarded) :
    (tree.specialize profile offset guarding).Respects count fun code =>
      code.Fits count ∧ code.Discardable := by
  apply strip_dead_loops_respects
  have committed : (tree.commitBranches profile offset).1.Respects count fun code =>
      (code.Fits count ∧ code.nodes.Unguarded) ∧ code.specialized = none := by
    refine map_basic_respects ?_ tree (0, 0) respects
    rintro ⟨ordinal, _⟩ code ⟨fits, unguarded⟩
    have committed := fits.baseline.commit offset (profile.branches.sides ordinal 0)
    have free := Program.prune_unguarded offset (profile.branches.sides ordinal 0) unguarded
    exact ⟨⟨⟨committed, nofun⟩, free⟩, rfl⟩
  cases guarding with
  | none =>
    refine respects_mono ?_ _ committed
    rintro code ⟨⟨fits, unguarded⟩, unspecialized⟩
    exact ⟨fits, unguarded, fun _ given => nomatch unspecialized.symm.trans given⟩
  | some guarding =>
    exact speculate_respects _ count profile guarding.offset guarding.threshold
      (respects_mono (fun _ both => both.1) _ committed)

/-- The basic blocks that an execution of a compiled tree executes. -/
def executed (tree : Tree α) (program : Executable α) (inputs : Array α) (pool : PagePool α)
    (profile : Option TreeProfile) : List (Visit α) :=
  tree.visits program.root (program.start inputs pool profile)

/-- Runs of an instrumented tree, each of which comes to an end, executes basic blocks on finite
values only, and adds its notes to the profile that the run before left. Each finds a blank pool. -/
inductive Profiles (tree : Tree α) (program : Executable α) :
    List (Sample α) → TreeProfile → TreeProfile → Prop where
  | done (profile : TreeProfile) : Profiles tree program [] profile profile
  | next {sample : Sample α} {rest : List (Sample α)} {before after final : TreeProfile}
      {pool : PagePool α} : pool.Blank →
      (program.execute sample.inputs sample.buffer pool (some before)).ending = .ok () →
      (program.execute sample.inputs sample.buffer pool (some before)).profile = some after →
      (∀ visit ∈ tree.executed program sample.inputs pool (some before), visit.Finite) →
      Profiles tree program rest after final → Profiles tree program (sample :: rest) before final

/-- The profile that runs leave, if each of them comes to an end on finite values. -/
def profile? (tree : Tree α) (program : Executable α) (profile : TreeProfile) :
    List (Sample α) → Option TreeProfile
  | [] => some profile
  | sample :: rest =>
    let outcome := program.execute sample.inputs sample.buffer PagePool.empty (some profile)
    match outcome.ending, outcome.profile with
    | .ok _, some after =>
      if ∀ visit ∈ tree.executed program sample.inputs PagePool.empty (some profile),
          visit.Finite then
        tree.profile? program after rest
      else none
    | _, _ => none

/-- The profile that is computed is one that the runs leave. -/
theorem profiles_of_eq_some {tree : Tree α} {program : Executable α} {samples : List (Sample α)}
    {first final : TreeProfile} (collected : tree.profile? program first samples = some final) :
    tree.Profiles program samples first final := by
  induction samples generalizing first with
  | nil =>
    obtain rfl := Option.some.inj collected
    exact .done first
  | cons sample rest inductionHypothesis =>
    simp only [profile?] at collected
    split at collected
    · next ended noted =>
      split at collected
      · next finite =>
        exact .next PagePool.blank_empty ended noted finite (inductionHypothesis collected)
      · cases collected
    · cases collected

/-- An execution that comes to an end was a run of its root, and lays the variables over the
buffer. -/
theorem execute_ended {program : Executable α} {inputs buffer : Array α} {pool : PagePool α}
    {before : Option TreeProfile}
    (ended : (program.execute inputs buffer pool before).ending = .ok ()) :
    ∃ machine, program.root.run (program.start inputs pool before) = .ok () machine ∧
      (program.execute inputs buffer pool before).profile = machine.profile ∧
      (program.execute inputs buffer pool before).answer =
        (.ok (), machine.values.extract 0 buffer.size ++
          buffer.extract machine.values.size buffer.size) := by
  simp only [Executable.execute] at ended ⊢
  cases ran : program.root.run (program.start inputs pool before) with
  | ok value machine => exact ⟨machine, rfl, rfl, rfl⟩
  | error halt machine =>
    rw [ran] at ended
    cases ended

/-- Each of the profiled runs came to an end on finite values, with notes within the final
profile. -/
theorem Profiles.each {tree : Tree α} {program : Executable α} {samples : List (Sample α)}
    {first final : TreeProfile} (profiled : tree.Profiles program samples first final) :
    first.Within final ∧ ∀ sample ∈ samples, ∃ (pool : PagePool α) (before after : TreeProfile),
      pool.Blank ∧
        (program.execute sample.inputs sample.buffer pool (some before)).ending = .ok () ∧
        (program.execute sample.inputs sample.buffer pool (some before)).profile = some after ∧
        after.Within final ∧
        ∀ visit ∈ tree.executed program sample.inputs pool (some before), visit.Finite := by
  induction profiled with
  | done profile => exact ⟨.refl profile, by simp⟩
  | next blank ended noted finite rest inductionHypothesis =>
    obtain ⟨within, others⟩ := inductionHypothesis
    obtain ⟨machine, ran, notes, _⟩ := execute_ended ended
    have grown := program.root.run_notes.ended ran
    rw [← notes, noted] at grown
    cases grown with
    | grown early =>
      refine ⟨early.trans within, ?_⟩
      intro sample member
      rcases List.mem_cons.mp member with rfl | later
      · exact ⟨_, _, _, blank, ended, noted, within, finite⟩
      · exact others sample later

/-- Programs for the same machine start from similar machines. -/
theorem start_similar (program other : Executable α) (same : other.config = program.config)
    (inputs : Array α) (pool : PagePool α) (profile otherProfile : Option TreeProfile) :
    Similar program.config.variableCount (program.start inputs pool profile)
      (other.start inputs pool otherProfile) := by
  obtain ⟨⟨noted, aligned⟩, sized, scratch⟩ :=
    start_aligned program other same inputs pool profile otherProfile
  rw [aligned]
  exact ⟨.refl _, sized, scratch, scratch, .refl _, rfl, rfl⟩

/-- Specializing is faithful to the runs that were profiled. Some runs of an instrumented tree,
whose basic blocks have no guards and no specialized forms, came to an end on finite values and left
a profile. By this profile, one-sided branches are committed, others may be guarded, and the loops
that were never entered are removed. The specialized tree is accepted and comes to an end on the
inputs of each of these runs, with outputs that are numerically equal to the original ones or, like
them, "not a number". Neither the profiles that are kept along the way nor the blank pages that an
execution finds matter for the outputs. -/
theorem specialization_preserves_variables (comparison : Number.ComparisonLaws α)
    (arithmetic : Number.ArithmeticLaws α) (likeness : Number.LikenessLaws α) (tree : Tree α)
    (config : MachineConfig) (program : Executable α)
    (accepted : tree.compile config true = .ok program)
    (plain : ∀ code ∈ tree.basicBlocks, code.specialized = none ∧ code.nodes.Unguarded)
    (samples : List (Sample α)) (profile : TreeProfile)
    (profiled : tree.Profiles program samples TreeProfile.empty profile) (offset : Nat)
    (guarding : Option Guarding) (instrumented : Bool) :
    ∃ specialized,
      (tree.specialize profile offset guarding).compile config instrumented = .ok specialized ∧
        ∀ sample ∈ samples, ∃ expected results, ArraysAlike expected results ∧
          ∀ (pool : PagePool α) (noted : Option TreeProfile), pool.Blank →
            (program.execute sample.inputs sample.buffer pool noted).answer =
                (.ok (), expected) ∧
              (specialized.execute sample.inputs sample.buffer pool noted).answer =
                (.ok (), results) := by
  obtain ⟨valid, fits⟩ := (compile_accepted_iff tree config true).mp ⟨program, accepted⟩
  have respects := respects_and tree fits plain
  have special := specialize_respects tree config.variableCount profile offset guarding
    (respects_mono (fun _ both => ⟨both.1, both.2.2⟩) tree respects)
  -- Both trees can be compared to themselves without specialized forms, so neither the profile nor
  -- the pool matters.
  obtain ⟨same, cleared, again, _, erased⟩ := discardable_of_copies valid
    (respects_mono (fun _ both => ⟨both.1, both.2.2, fun _ given =>
      nomatch both.2.1.symm.trans given⟩) tree respects) true true
  obtain rfl := Except.ok.inj (again.symm.trans accepted)
  obtain ⟨specialized, clearedSpecial, acceptedSpecial, _, erasedSpecial⟩ :=
    discardable_of_copies valid special instrumented true
  refine ⟨specialized, acceptedSpecial, ?_⟩
  intro sample member
  obtain ⟨pool, before, after, blank, ended, noted, within, finite⟩ :=
    profiled.each.2 sample member
  obtain ⟨machine, ran, notes, answers⟩ := execute_ended ended
  simp only [compile, Refusal.bind_ok_iff] at accepted acceptedSpecial
  obtain ⟨_, _, root, acceptedRoot, sameRoot⟩ := accepted
  obtain ⟨_, _, specialRoot, acceptedSpecialRoot, sameSpecialRoot⟩ := acceptedSpecial
  obtain rfl := Except.ok.inj sameRoot
  obtain rfl := Except.ok.inj sameSpecialRoot
  rw [specialize_eq_tailor] at acceptedSpecialRoot
  have follows := tailor_follows comparison arithmetic likeness tree ⟨0, 0⟩ ⟨0, 0⟩
    (respects_mono (fun _ both => both.2) tree respects) acceptedRoot acceptedSpecialRoot
  have started := start_similar ⟨root.1, config, true⟩ ⟨specialRoot.1, config, instrumented⟩ rfl
    sample.inputs pool (some before) none
  obtain ⟨result, finished, similar⟩ :=
    follows _ _ machine started ran ⟨after, notes.symm.trans noted, within⟩ finite
  refine ⟨_, _, similar.values.overlay sample.buffer, fun otherPool otherNoted otherBlank => ?_⟩
  constructor
  · rw [erased sample.inputs sample.buffer otherPool pool otherNoted none otherBlank blank,
      ← erased sample.inputs sample.buffer pool pool (some before) none blank blank, answers]
  · rw [erasedSpecial sample.inputs sample.buffer otherPool pool otherNoted none otherBlank blank,
      ← erasedSpecial sample.inputs sample.buffer pool pool none none blank blank]
    simp only [Executable.execute, Executable.Outcome.answer, finished]

end Executions

/-- Adds the numbers up to the first variable, as long as they are positive, and writes the sum to
memory. The second loop is never entered. -/
def summation : Tree Small :=
  .block [.loop 0 (.block [.basic ⟨#[some (.argument 0), some (.argument 1),
      some (.constant (Small.ofInt 1)), some (.binary .sub 0 2), some (.binary .add 1 0),
      some (.conditional 4 1 0), some (.move 3), some (.move 5)], none⟩]),
    .write 0 1, .loop 0 (.block [.read 1])]

def summationSamples : List (Sample Small) :=
  [⟨#[Small.ofInt 2, .negativeZero], #[.undefined, .undefined]⟩,
    ⟨#[Small.ofInt 3], #[.undefined, .undefined]⟩]

/-- What the profiled runs tell about the sum: the conditional only ever selects the addition, and
the second loop is never entered. -/
theorem summation_specialized :
    ∃ program profile specialized results,
      summation.compile ⟨2, 2, 8, 1⟩ true = .ok program ∧
      (∀ code ∈ summation.basicBlocks, code.specialized = none ∧ code.nodes.Unguarded) ∧
      summation.Profiles program summationSamples TreeProfile.empty profile ∧
      (summation.specialize profile 2 (some ⟨2, 1⟩)).compile ⟨2, 2, 8, 1⟩ false =
        .ok specialized ∧
      (specialized.execute #[Small.ofInt 3] #[.undefined, .undefined] ⟨[Page.blank]⟩ none).answer =
        (.ok (), results) ∧
      ArraysAlike #[Small.ofInt 0, Small.ofInt 6] results := by
  have computed : (match summation.compile ⟨2, 2, 8, 1⟩ true with
      | .ok program => (summation.profile? program .empty summationSamples).isSome &&
        (program.execute #[Small.ofInt 3] #[.undefined, .undefined] PagePool.empty none).outputs ==
          #[Small.ofInt 0, Small.ofInt 6]
      | .error _ => false) = true := by decide +kernel
  cases accepted : summation.compile ⟨2, 2, 8, 1⟩ true with
  | error _ =>
    simp [accepted] at computed
  | ok program =>
    simp only [accepted, Bool.and_eq_true, beq_iff_eq] at computed
    obtain ⟨collected, summed⟩ := computed
    obtain ⟨profile, collected⟩ := Option.isSome_iff_exists.mp collected
    have plain : ∀ code ∈ summation.basicBlocks,
        code.specialized = none ∧ code.nodes.Unguarded := by decide
    have profiled := profiles_of_eq_some collected
    obtain ⟨specialized, acceptedSpecial, faithful⟩ := specialization_preserves_variables
      Small.comparison_laws Small.arithmetic_laws Small.likeness_laws summation ⟨2, 2, 8, 1⟩ program
      accepted plain summationSamples profile profiled 2 (some ⟨2, 1⟩) false
    obtain ⟨expected, results, alike, answers⟩ :=
      faithful _ (List.mem_cons_of_mem _ List.mem_cons_self)
    obtain ⟨ended, _⟩ := answers _ none PagePool.blank_empty
    obtain ⟨_, ran⟩ := answers _ none PagePool.blank_single
    obtain rfl := (congrArg Prod.snd ended).symm.trans summed
    exact ⟨program, profile, specialized, results, rfl, plain, profiled, acceptedSpecial, ran,
      alike⟩

end Tree

end ProgramSearch
