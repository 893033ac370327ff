import ProgramSearch.Number.Double
import ProgramSearch.Proofs.Program.Speculation
import ProgramSearch.Proofs.Tree.Clearing
import ProgramSearch.Proofs.Tree.Freshness

/-!
# Specialized forms can be dropped

A basic block without guards replaces the variables by eager values, whether a specialized form
was tried first or not: a guarded copy that ends leaves the same values, and one that bails out
leaves the machine to the baseline. So a tree whose specialized forms are guarded copies runs in
lockstep with the tree without them, through all loops and memory operations, and both have the same
results.

The pass that guards rarely taken sides makes such a tree from any accepted tree without guards, and
removing loops afterwards keeps it one.
-/

namespace ProgramSearch

variable {α : Type}

/-- The baseline of a basic block has no guards, and its specialized form is a guarded copy. -/
structure BasicBlock.Discardable (code : BasicBlock α) : Prop where
  unguarded : code.nodes.Unguarded
  copied : ∀ nodes, code.specialized = some nodes → Program.GuardedCopy code.nodes nodes

/-- A guarded copy of a program that fits the variables fits them too. -/
theorem Program.Fits.copied {nodes copy : Program α} {count : Nat} (fits : nodes.Fits count)
    (copied : Program.GuardedCopy nodes copy) : copy.Fits count where
  ready := copied.ready fits.ready
  arguments slot parameter held := fits.arguments slot parameter (copied.argument held)

section Blocks

variable [Number α]

/-- Guarding a basic block that fits makes a guarded copy, which fits as well. A block in which
nothing is guarded gets no specialized form. -/
theorem BasicBlock.guarded_discardable {nodes : Program α} {count : Nat} (fits : nodes.Fits count)
    (unguarded : nodes.Unguarded) (offset : Nat) (sides : Sides) :
    let pruned := nodes.prune offset sides true
    let code : BasicBlock α := ⟨nodes, if pruned.2 = 0 then none else some pruned.1⟩
    code.Fits count ∧ code.Discardable := by
  intro pruned code
  have copied : Program.GuardedCopy nodes pruned.1 := Program.prune_guarded nodes offset sides
  have guarded : ∀ copy, code.specialized = some copy → Program.GuardedCopy nodes copy := by
    intro copy given
    simp only [code] at given
    split at given
    · cases given
    · exact Option.some.inj given ▸ copied
  exact ⟨⟨fits, fun copy given => fits.copied (guarded copy given)⟩, unguarded, guarded⟩

/-- The variables after a basic block: the eager values of its outputs, as many as the scratch space
holds. -/
def Machine.successors (machine : Machine α) (nodes : Program α) (count : Nat) : Array α :=
  Program.overwritten (Program.eager machine.values nodes) (nodes.size - count) count
    machine.scratch

/-- A compiled baseline always comes to an end. It replaces the variables, adds its reports to the
profile and changes nothing else. -/
theorem Action.replace_all_noted {nodes : Program α} {count : Nat} {mode : Program.Mode}
    {program : Compiled α} (compiled : nodes.compile count mode = .ok program)
    (unguarded : nodes.Unguarded) (unchecked : mode.checked = false) (machine : Machine α)
    (sufficient : program.arity ≤ machine.values.size) :
    Action.replaceAll program machine = .ok ()
      { machine with
        values := machine.successors nodes count
        scratch := machine.successors nodes count
        profile := machine.noting program } := by
  have ended := Program.run_unguarded compiled unguarded unchecked sufficient machine.scratch
  exact Action.replace_all_done ended

/-- A compiled basic block always comes to an end and replaces the variables as its baseline does.
If the specialized form bails out, the baseline still finds the machine as it was. The profile has
the reports of the baseline, unless there is a specialized form that came to an end: then nothing is
reported. -/
theorem Tree.basic_noted {setting : Tree.Setting} {code : BasicBlock α} {ordinal : Nat}
    {baseline : Compiled α} {specialized : Option (Compiled α)}
    (accepted : setting.basic code ordinal = .ok (.basic baseline specialized))
    (discardable : code.Discardable) (machine : Machine α)
    (sized : machine.values.size = setting.config.variableCount) :
    ∃ profile, Action.basic baseline specialized machine = .ok ()
      { machine with
        values := machine.successors code.nodes setting.config.variableCount
        scratch := machine.successors code.nodes setting.config.variableCount
        profile } ∧
      (profile = machine.noting baseline ∨
        code.specialized ≠ none ∧ profile = machine.profile) := by
  obtain ⟨_, _, same, first, second⟩ := (Tree.basic_ok_iff setting code ordinal _).mp accepted
  cases same
  obtain ⟨compiled, within⟩ := (Tree.scalar_ok_iff setting code.nodes _ baseline).mp first
  have sufficient : baseline.arity ≤ machine.values.size := sized ▸ within
  have fallback := Action.replace_all_noted compiled discardable.unguarded rfl machine sufficient
  cases given : code.specialized with
  | none =>
    rw [given, Refusal.mapM_ok_iff] at second
    subst second
    exact ⟨_, fallback, .inl rfl⟩
  | some nodes =>
    rw [given, Refusal.mapM_ok_iff] at second
    obtain ⟨program, found, rfl⟩ := second
    obtain ⟨compiledCopy, _⟩ := (Tree.scalar_ok_iff setting nodes none program).mp found
    have ended :=
      Program.run_unguarded compiled discardable.unguarded rfl sufficient machine.scratch
    rcases (discardable.copied nodes given).run_transparent discardable.unguarded compiled rfl
      compiledCopy rfl sufficient machine.scratch with same | bailed
    · rw [ended] at same
      exact ⟨machine.profile, Action.basic_done same, .inr ⟨nofun, rfl⟩⟩
    · exact ⟨machine.noting baseline, (Action.basic_bailed bailed).trans fallback, .inl rfl⟩

/-- A compiled basic block always comes to an end and replaces the variables as its baseline does.
It may add to the profile and changes nothing else. -/
theorem Tree.basic_exact {setting : Tree.Setting} {code : BasicBlock α} {ordinal : Nat}
    {baseline : Compiled α} {specialized : Option (Compiled α)}
    (accepted : setting.basic code ordinal = .ok (.basic baseline specialized))
    (discardable : code.Discardable) (machine : Machine α)
    (sized : machine.values.size = setting.config.variableCount) :
    ∃ profile, Action.basic baseline specialized machine = .ok ()
      { machine with
        values := machine.successors code.nodes setting.config.variableCount
        scratch := machine.successors code.nodes setting.config.variableCount
        profile } := by
  obtain ⟨profile, ended, _⟩ := Tree.basic_noted accepted discardable machine sized
  exact ⟨profile, ended⟩

end Blocks

namespace Tree

section Lockstep

variable [Number α] {config : MachineConfig} {instrumented otherwise : Bool}

open ProgramSearch.Action

/-- A basic block whose specialized form can be dropped runs in lockstep with the one without it:
both come to an end with the same variables. -/
theorem basic_lockstep {code : BasicBlock α} (discardable : code.Discardable)
    {ordinal otherOrdinal : Nat} {compiled cleared : Statement α}
    (accepted : Setting.basic ⟨config, instrumented⟩ code ordinal = .ok compiled)
    (acceptedCleared :
      Setting.basic ⟨config, otherwise⟩ ⟨code.nodes, none⟩ otherOrdinal = .ok cleared) :
    Lockstep (Aligned config.variableCount) compiled.run cleared.run := by
  obtain ⟨baseline, specialized, rfl, _⟩ := (basic_ok_iff _ _ _ _).mp accepted
  obtain ⟨clearedBaseline, fallback, rfl, _⟩ := (basic_ok_iff _ _ _ _).mp acceptedCleared
  rintro left right ⟨⟨profile, rfl⟩, values, scratch⟩
  obtain ⟨noted, ended⟩ := basic_exact accepted discardable left values
  obtain ⟨clearedNoted, clearedEnded⟩ := basic_exact acceptedCleared
    ⟨discardable.unguarded, fun _ given => nomatch given⟩ { left with profile } values
  have sized : (left.successors code.nodes config.variableCount).size = config.variableCount := by
    rw [Machine.successors, Program.overwritten_size, scratch]
  simp only [Statement.run]
  rw [ended, clearedEnded]
  exact .ended () ⟨⟨clearedNoted, rfl⟩, sized, sized⟩

/-- Aligned machines stay aligned when specialized forms that can be dropped are dropped, whatever the
numbers are and whichever side is instrumented. -/
theorem aligned_clears_alike :
    ClearsAlike config instrumented otherwise (Aligned (α := α) config.variableCount)
      (fun _ _ => True) fun _ code => code.Discardable where
  remaining := by
    rintro left right ⟨⟨profile, rfl⟩, _, _⟩
    rfl
  get := Aligned.get
  spend := Aligned.spend
  read := Aligned.read
  write := Aligned.write
  note _ := Aligned.note _ _
  basic _ discardable := basic_lockstep discardable
  past_block := id
  past_basic := id

/-- A statement whose specialized forms can be dropped runs in lockstep with the one without them,
whatever the numbers of its parts are and whichever of the two is instrumented. -/
theorem statement_lockstep (tree : Tree α) (next otherNext : Ordinals)
    {compiled cleared : Statement α × Ordinals}
    (discardable : tree.Respects config.variableCount BasicBlock.Discardable)
    (accepted : statement ⟨config, instrumented⟩ next tree = .ok compiled)
    (acceptedCleared :
      statement ⟨config, otherwise⟩ otherNext tree.clearSpecialized = .ok cleared) :
    Lockstep (Aligned config.variableCount) compiled.1.run cleared.1.run := by
  have obey : ObeyFrom (fun _ code => code.Discardable) next.basicBlocks tree.basicBlocks :=
    fun _ code found => respects_blocks tree discardable code (List.mem_of_getElem? found)
  exact (aligned_clears_alike.statement tree next otherNext trivial obey accepted acceptedCleared).1

end Lockstep

section Executions

variable [Number α]

/-- Two programs for the same machine start aligned, from the same inputs and pages. -/
theorem start_aligned (program other : Executable α) (same : other.config = program.config)
    (inputs : Array α) (pool : PagePool α) (profile otherProfile : Option TreeProfile) :
    Aligned program.config.variableCount (program.start inputs pool profile)
      (other.start inputs pool otherProfile) := by
  refine ⟨⟨otherProfile, ?_⟩, ?_, ?_⟩
  · simp [Executable.start, same]
  · simp only [Executable.start, Array.size_append, Array.size_replicate, Array.size_extract]
    omega
  · simp [Executable.start]

/-- Executions whose outcomes agree have the same answer. -/
theorem answer_eq_of_matches {program other : Executable α} {inputs : Array α} {pool : PagePool α}
    {count : Nat} {notes otherNotes : Option TreeProfile}
    (same : Action.Matches (Aligned count) (program.root.run (program.start inputs pool notes))
      (other.root.run (other.start inputs pool otherNotes))) (buffer : Array α) :
    (program.execute inputs buffer pool notes).answer =
      (other.execute inputs buffer pool otherNotes).answer := by
  simp only [Executable.execute]
  generalize program.root.run _ = outcome at same ⊢
  generalize other.root.run _ = otherOutcome at same ⊢
  cases same with
  | ended value aligned =>
    obtain ⟨⟨_, rfl⟩, _, _⟩ := aligned
    rfl
  | stopped halt aligned => rfl

/-- The specialized forms of a tree can be dropped on a machine: with and without them the tree is
accepted, instrumented or not, and executions give the same answers, from any blank pools and with
any profiles. -/
def SpecializationDiscardable (tree : Tree α) (config : MachineConfig) : Prop :=
  ∀ instrumented otherwise, ∃ program cleared,
    tree.compile config instrumented = .ok program ∧
    tree.clearSpecialized.compile config otherwise = .ok cleared ∧
    ∀ (inputs buffer : Array α) (pool otherPool : PagePool α)
      (profile otherProfile : Option TreeProfile), pool.Blank → otherPool.Blank →
        (program.execute inputs buffer pool profile).answer =
          (cleared.execute inputs buffer otherPool otherProfile).answer

/-- Guarded copies of programs without guards can be dropped from an accepted tree. -/
theorem discardable_of_copies {tree : Tree α} {config : MachineConfig}
    (valid : config.validate = .ok ())
    (respects : tree.Respects config.variableCount fun code =>
      code.Fits config.variableCount ∧ code.Discardable) :
    SpecializationDiscardable tree config := by
  intro instrumented otherwise
  have fits := respects_mono (fun _ both => both.1) tree respects
  obtain ⟨program, compiled⟩ := (compile_accepted_iff tree config instrumented).mpr ⟨valid, fits⟩
  obtain ⟨cleared, compiledCleared⟩ :=
    (compile_accepted_iff tree.clearSpecialized config otherwise).mpr
      ⟨valid, clear_fits tree fits⟩
  refine ⟨program, cleared, compiled, compiledCleared, ?_⟩
  simp only [compile, Refusal.bind_ok_iff] at compiled compiledCleared
  obtain ⟨_, _, root, accepted, same⟩ := compiled
  obtain ⟨_, _, clearedRoot, acceptedCleared, sameCleared⟩ := compiledCleared
  obtain rfl := Except.ok.inj same
  obtain rfl := Except.ok.inj sameCleared
  intro inputs buffer pool otherPool profile otherProfile blank otherBlank
  have lockstep := statement_lockstep tree ⟨0, 0⟩ ⟨0, 0⟩
    (respects_mono (fun _ both => both.2) tree respects) accepted acceptedCleared
  have started := start_aligned ⟨root.1, config, instrumented⟩ ⟨clearedRoot.1, config, otherwise⟩
    rfl inputs otherPool profile otherProfile
  rw [(Executable.execute_fresh _ inputs buffer blank otherBlank profile).1]
  exact answer_eq_of_matches (lockstep _ _ started) buffer

/-- Guarding rarely taken sides makes guarded copies of the baselines, which fit if the baselines
do. -/
theorem speculate_respects (tree : Tree α) (count : Nat) (profile : TreeProfile)
    (offset threshold : Nat)
    (respects : tree.Respects count fun code => code.Fits count ∧ code.nodes.Unguarded) :
    (tree.speculateBranches profile offset threshold).1.Respects count fun code =>
      code.Fits count ∧ code.Discardable := by
  refine map_basic_respects ?_ tree (0, 0) respects
  rintro ⟨ordinal, total⟩ code ⟨fits, unguarded⟩
  exact BasicBlock.guarded_discardable fits.baseline unguarded offset
    (profile.branches.sides ordinal threshold)

/-- Specialized forms are discardable. From every accepted tree without guards, speculation makes a
tree that is accepted, instrumented or not, and whose executions end as those of the same tree
without its specialized forms: with the same variables, or by the same signal. Loops that a profile
calls dead may be removed in between, so what a search stores behaves as what it has scored. -/
theorem speculation_discardable (tree : Tree α) (config : MachineConfig) (instrumented : Bool)
    (program : Executable α) (accepted : tree.compile config instrumented = .ok program)
    (unguarded : ∀ code ∈ tree.basicBlocks, code.nodes.Unguarded)
    (profile : TreeProfile) (offset threshold : Nat) :
    let speculative := (tree.speculateBranches profile offset threshold).1
    SpecializationDiscardable speculative config ∧
      ∀ reached : TreeProfile,
        SpecializationDiscardable (speculative.stripDeadLoops reached).1 config := by
  obtain ⟨valid, fits⟩ := (compile_accepted_iff tree config instrumented).mp ⟨program, accepted⟩
  have respects := speculate_respects tree config.variableCount profile offset threshold
    (respects_and tree fits unguarded)
  exact ⟨discardable_of_copies valid respects, fun reached =>
    discardable_of_copies valid (strip_dead_loops_respects _ reached respects)⟩

end Executions

/-- Counts the first variable down and adds it to the second one unless it comes to its end. -/
def countdown : Tree Float :=
  .loop 0 (.block [.skip, .basic ⟨#[some (.argument 0), some (.argument 1), some (.constant 1.0),
    some (.binary .sub 0 2), some (.binary .add 1 0), some (.conditional 4 1 3), some (.move 3),
    some (.move 5)], none⟩])

/-- The sum was selected twice and passed over once. -/
def countdownSeen : TreeProfile :=
  [⟨⟨0, 5⟩, true⟩, ⟨⟨0, 5⟩, true⟩, ⟨⟨0, 5⟩, false⟩].foldl TreeProfile.record TreeProfile.empty

/-- With a threshold of one, the sum is guarded in a specialized form, and that can be dropped. -/
theorem countdown_discardable :
    ∃ program, countdown.compile ⟨2, 1, 8, 1⟩ true = .ok program ∧
      (∀ code ∈ countdown.basicBlocks, code.nodes.Unguarded) ∧
      (countdown.speculateBranches countdownSeen 2 1).1.basicBlocks.map BasicBlock.specialized =
        [some #[some (.argument 0), some (.argument 1), some (.constant 1.0),
          some (.binary .sub 0 2), some (.binary .add 1 0), some (.guarded 4 3 true),
          some (.move 3), some (.move 5)]] ∧
      SpecializationDiscardable (countdown.speculateBranches countdownSeen 2 1).1 ⟨2, 1, 8, 1⟩ := by
  have accepted : ∃ program, countdown.compile ⟨2, 1, 8, 1⟩ true = .ok program := ⟨_, by rfl⟩
  have unguarded : ∀ code ∈ countdown.basicBlocks, code.nodes.Unguarded := by decide
  obtain ⟨program, accepted⟩ := accepted
  exact ⟨program, accepted, unguarded, by decide +kernel,
    (speculation_discardable countdown ⟨2, 1, 8, 1⟩ true program accepted unguarded countdownSeen 2
      1).1⟩

end Tree

end ProgramSearch
