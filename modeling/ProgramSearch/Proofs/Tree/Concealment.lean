import ProgramSearch.Proofs.Branch.Agreement
import ProgramSearch.Proofs.Tree.Commitment

/-!
# What specialized forms conceal

An instrumented basic block tries its specialized form first, and that reports nothing. When it comes
to an end, the selections that the baseline would have reported are missing from the profile. So a
profile of a tree with specialized forms is not the profile of the tree without them, and committing
by it may commit a conditional against a side that a profiled run did select.

What is concealed has narrow limits, however. All loops and memory operations go on alike, so the
same blocks are noted as reached. No selection is made up. And a basic block reports under its own
number only, so every basic block that has no specialized form is counted as if there were none in
the whole tree, and committing does the same to it.
-/

namespace ProgramSearch

variable {α : Type}

namespace BranchCounter

/-- Recording a report changes the counts of its branch only. -/
theorem get_record (counter : BranchCounter) (report : Report) (branch : Branch) :
    (counter.record report).get? branch =
      if report.branch = branch then some (((counter.get? branch).getD {}).add report.taken)
      else counter.get? branch := by
  simp only [get?, record, Std.TreeMap.getElem?_alter, Std.LawfulEqCmp.compare_eq_iff_eq]
  split
  · rename_i same
    rw [same]
  · rfl

end BranchCounter

namespace TreeProfile

/-- Notes that lack some selections in hidden basic blocks at most. -/
structure Conceals (hidden : Nat → Prop) (noted full : TreeProfile) : Prop where
  reached : noted.reached = full.reached
  selections : ∀ report, noted.branches.selections report ≤ full.branches.selections report
  counts : ∀ branch, ¬ hidden branch.block → noted.branches.get? branch = full.branches.get? branch

namespace Conceals

variable {hidden : Nat → Prop} {noted full : TreeProfile}

theorem refl (profile : TreeProfile) : Conceals hidden profile profile :=
  ⟨rfl, fun _ => Nat.le_refl _, fun _ _ => rfl⟩

/-- Both sides mark a block as reached. -/
theorem mark (conceals : Conceals hidden noted full) (block : Nat) :
    Conceals hidden (noted.markReached block) (full.markReached block) :=
  ⟨congrArg (·.insert block) conceals.reached, conceals.selections, conceals.counts⟩

/-- Both sides record a report. -/
theorem record (conceals : Conceals hidden noted full) (report : Report) :
    Conceals hidden (noted.record report) (full.record report) := by
  refine ⟨conceals.reached, fun other => ?_, fun branch shown => ?_⟩
  · simp only [TreeProfile.record, BranchCounter.selections_record]
    exact Nat.add_le_add_right (conceals.selections other) _
  · simp only [TreeProfile.record, BranchCounter.get_record, conceals.counts branch shown]

/-- Only the full notes record a report of a hidden basic block. -/
theorem hide (conceals : Conceals hidden noted full) {report : Report}
    (secret : hidden report.branch.block) : Conceals hidden noted (full.record report) := by
  refine ⟨conceals.reached, fun other => ?_, fun branch shown => ?_⟩
  · simp only [TreeProfile.record, BranchCounter.selections_record]
    exact Nat.le_trans (conceals.selections other) (Nat.le_add_right _ _)
  · have elsewhere : report.branch ≠ branch := by
      rintro rfl
      exact shown secret
    simp only [TreeProfile.record, BranchCounter.get_record, elsewhere, if_false,
      conceals.counts branch shown]

/-- Both sides record the same reports. -/
theorem record_all (reports : List Report) {noted full : TreeProfile}
    (conceals : Conceals hidden noted full) :
    Conceals hidden (reports.foldl TreeProfile.record noted)
      (reports.foldl TreeProfile.record full) := by
  induction reports generalizing noted full with
  | nil => exact conceals
  | cons report rest inductionHypothesis => exact inductionHypothesis (conceals.record report)

/-- Only the full notes record reports of hidden basic blocks. -/
theorem hide_all {reports : List Report} {full : TreeProfile}
    (conceals : Conceals hidden noted full)
    (secret : ∀ report ∈ reports, hidden report.branch.block) :
    Conceals hidden noted (reports.foldl TreeProfile.record full) := by
  induction reports generalizing full with
  | nil => exact conceals
  | cons report rest inductionHypothesis =>
    obtain ⟨first, others⟩ := List.forall_mem_cons.mp secret
    exact inductionHypothesis (conceals.hide first) others

/-- The sides of a basic block that is not hidden are the same, whatever the threshold is. -/
theorem sides_eq (conceals : Conceals hidden noted full) {block : Nat} (shown : ¬ hidden block)
    (threshold : Nat) : noted.branches.sides block threshold = full.branches.sides block threshold := by
  apply Sides.eq_of_lists (BranchCounter.sides_ordered _ _ _) (BranchCounter.sides_ordered _ _ _)
  intro slot taken
  rw [BranchCounter.sides_lists_iff, BranchCounter.sides_lists_iff, BranchCounter.selections,
    BranchCounter.selections, conceals.counts ⟨block, slot⟩ shown]

end Conceals

end TreeProfile

section Reports

variable [Number α]

namespace Traced

variable {β γ : Type}

/-- Everything that is reported is reported for one block. -/
def ReportsFor (block : Nat) (traced : Traced β) : Prop :=
  ∀ report ∈ traced.reports, report.branch.block = block

namespace ReportsFor

variable {block : Nat}

/-- A result alone reports nothing. -/
theorem of_result (result : Except Halt β) : ReportsFor block (Traced.ofResult result) :=
  Tells.of_result result

/-- A sequence reports for a block when its parts do. -/
theorem bind {first : Traced β} {next : β → Traced γ} (start : ReportsFor block first)
    (continued : ∀ value, ReportsFor block (next value)) : ReportsFor block (first >>= next) :=
  Tells.bind start fun value _ => continued value

end ReportsFor

end Traced

open Traced (ReportsFor)

variable {nodes : Program α} {mode : Program.Mode} {block : Nat}

/-- An expression that was compiled for no other block reports for this block. -/
theorem Expression.Unfolds.evaluate_reports {slots : List Nat} {expression : Expression α}
    {slot : Nat} (unfolds : expression.Unfolds nodes mode slots slot)
    (named : ∀ other, mode.profile = some other → other = block) (frame : Frame α) :
    ReportsFor block (expression.evaluate frame) := by
  induction unfolds with
  | value leads => exact .of_result _
  | binary held _ _ left right =>
    refine left.bind fun x => right.bind fun y => ?_
    unfold Expression.operate
    split <;> exact .of_result _
  | conditional held _ _ _ first second condition =>
    rw [Expression.evaluate_conditional]
    refine condition.bind fun z => Traced.ReportsFor.bind ?_ fun _ => ?_
    · intro report told
      cases instrumented : mode.profile with
      | none =>
        rw [instrumented] at told
        cases told
      | some other =>
        rw [instrumented] at told
        obtain rfl := List.mem_singleton.mp told
        exact named other instrumented
    · split
      · exact first
      · exact second
  | guarded held _ _ kept condition =>
    refine condition.bind fun z => ?_
    split
    · exact kept
    · exact .of_result _

/-- Filling temporaries reports for this block when the steps were compiled for no other one. -/
theorem Expression.Fills.fill_reports {filled slots : List Nat} {steps : List (Expression α)}
    (fills : Expression.Fills nodes mode filled steps slots)
    (named : ∀ other, mode.profile = some other → other = block) (inputs temporaries : Array α) :
    ReportsFor block (Compiled.fill inputs steps temporaries) := by
  induction fills generalizing temporaries with
  | done => exact .of_result _
  | next unfolds _ inductionHypothesis =>
    exact (unfolds.evaluate_reports named _).bind fun value => inductionHypothesis _

/-- A program that was compiled for no other block reports for this block only. -/
theorem Program.Linked.run_reports {outputs : Nat} {program : Compiled α} {slots : List Nat}
    (linked : Program.Linked nodes outputs mode program slots)
    (named : ∀ other, mode.profile = some other → other = block) (inputs buffer : Array α) :
    ReportsFor block (program.run inputs buffer) :=
  (linked.fills.fill_reports named inputs #[]).bind fun _ =>
    (ReportsFor.of_result _).bind fun _ => .of_result _

/-- A program that was compiled for no block reports nothing. -/
theorem Program.Linked.run_silent {outputs : Nat} {program : Compiled α} {slots : List Nat}
    (linked : Program.Linked nodes outputs mode program slots) (bare : mode.profile = none)
    (inputs buffer : Array α) : (program.run inputs buffer).reports = [] := by
  have named (block other : Nat) (instrumented : mode.profile = some other) : other = block :=
    nomatch bare.symm.trans instrumented
  rw [List.eq_nil_iff_forall_not_mem]
  intro report told
  have first := linked.run_reports (named 0) inputs buffer report told
  have second := linked.run_reports (named 1) inputs buffer report told
  omega

end Reports

namespace Action

variable {β : Type}

/-- Whether it comes to an end or not, the action takes no notes. -/
def Quiet (action : Action α β) : Prop :=
  ∀ machine, Leaves (fun after => after.profile = machine.profile) (action machine)

namespace Quiet

theorem spend : Quiet (Action.spend : Action α Unit) := by
  intro machine
  obtain ⟨rest, _, ran⟩ | ⟨_, ran⟩ := spend_cases machine <;> rw [ran]
  · exact .ended () rfl
  · exact .stopped _ rfl

variable [Number α]

theorem get (index : Nat) : Quiet (Action.get index : Action α α) :=
  fun _ => .ended _ rfl

theorem read (target : Nat) : Quiet (Action.read target : Action α Unit) :=
  fun _ => .ended () rfl

theorem write (address value : Nat) : Quiet (Action.write address value : Action α Unit) := by
  intro machine
  obtain ⟨memory, pool, _, ran⟩ | ⟨cause, _, _, ran⟩ := write_cases address value machine <;> rw [ran]
  · exact .ended () rfl
  · exact .stopped _ rfl

end Quiet

end Action

/-- Aligned machines that both take notes. Those of the first one lack some selections in hidden
basic blocks at most. -/
structure Concealed (hidden : Nat → Prop) (count : Nat) (left right : Machine α) : Prop where
  aligned : Aligned count left right
  notes : ∃ noted full, left.profile = some noted ∧ right.profile = some full ∧
    noted.Conceals hidden full

namespace Concealed

open ProgramSearch.Action

variable {β : Type} {hidden : Nat → Prop} {count : Nat}

/-- An action that takes no notes conceals none. -/
theorem quiet {action : Action α β} (aligned : Lockstep (Aligned count) action action)
    (quiet : Quiet action) : Lockstep (Concealed hidden count) action action := by
  rintro left right ⟨start, noted, full, first, second, conceals⟩
  have reached := aligned left right start
  have silent := quiet left
  have silentToo := quiet right
  rw [first] at silent
  rw [second] at silentToo
  generalize action left = outcome at reached silent ⊢
  generalize action right = other at reached silentToo ⊢
  cases reached with
  | ended value finish =>
    cases silent with
    | ended _ kept =>
      cases silentToo with
      | ended _ keptToo => exact .ended value ⟨finish, noted, full, kept, keptToo, conceals⟩
  | stopped halt finish =>
    cases silent with
    | stopped _ kept =>
      cases silentToo with
      | stopped _ keptToo => exact .stopped halt ⟨finish, noted, full, kept, keptToo, conceals⟩

/-- Entering a block is noted on both sides. -/
theorem note (block : Option Nat) :
    Lockstep (Concealed (α := α) hidden count) (Action.note block) (Action.note block) := by
  rintro left right ⟨⟨⟨profile, rfl⟩, values, scratch⟩, noted, full, first, rfl, conceals⟩
  cases block with
  | none => exact .ended () ⟨⟨⟨_, rfl⟩, values, scratch⟩, noted, full, first, rfl, conceals⟩
  | some block =>
    exact .ended () ⟨⟨⟨_, rfl⟩, values, scratch⟩, _, _, congrArg (Option.map _) first, rfl,
      conceals.mark block⟩

variable [Number α]

/-- A basic block and the same one without its specialized form leave the same variables. If there
is no specialized form, then both report alike; otherwise the number of the basic block is hidden. -/
theorem basic {config : MachineConfig} {code : BasicBlock α} (discardable : code.Discardable)
    {ordinal : Nat} {compiled cleared : Statement α}
    (accepted : Tree.Setting.basic ⟨config, true⟩ code ordinal = .ok compiled)
    (acceptedCleared : Tree.Setting.basic ⟨config, true⟩ ⟨code.nodes, none⟩ ordinal = .ok cleared)
    (secret : code.specialized ≠ none → hidden ordinal) :
    Lockstep (Concealed hidden config.variableCount) compiled.run cleared.run := by
  obtain ⟨baseline, specialized, rfl, found, _⟩ := (Tree.basic_ok_iff _ _ _ _).mp accepted
  obtain ⟨clearedBaseline, fallback, rfl, foundToo, _⟩ :=
    (Tree.basic_ok_iff _ _ _ _).mp acceptedCleared
  obtain rfl : baseline = clearedBaseline := Except.ok.inj (found.symm.trans foundToo)
  obtain ⟨instruments, _⟩ := (Tree.scalar_ok_iff _ _ _ _).mp found
  obtain ⟨_, _, linked⟩ := Program.linked_of_compile instruments
  rintro left right ⟨⟨⟨profile, rfl⟩, values, scratch⟩, noted, full, first, rfl, conceals⟩
  have plain : BasicBlock.Discardable ⟨code.nodes, none⟩ :=
    ⟨discardable.unguarded, fun _ given => nomatch given⟩
  obtain ⟨notes, ended, told⟩ := Tree.basic_noted accepted discardable left values
  obtain ⟨clearedNotes, clearedEnded, clearedTold⟩ :=
    Tree.basic_noted acceptedCleared plain { left with profile := some full } values
  have sized : (left.successors code.nodes config.variableCount).size = config.variableCount := by
    rw [Machine.successors, Program.overwritten_size, scratch]
  obtain rfl | ⟨impossible, _⟩ := clearedTold
  · simp only [Statement.run]
    rw [ended, clearedEnded]
    refine .ended () ⟨⟨⟨_, rfl⟩, sized, sized⟩, ?_⟩
    rcases told with rfl | ⟨specializes, rfl⟩
    · exact ⟨_, _, congrArg (Option.map _) first, rfl, conceals.record_all _⟩
    · refine ⟨noted, _, first, rfl, conceals.hide_all fun report made => ?_⟩
      rw [linked.run_reports (fun _ named => (Option.some.inj named).symm) left.values
        left.scratch report made]
      exact secret specializes
  · exact absurd rfl impossible

end Concealed

/-- Counted from a first number on, the basic blocks with a specialized form have hidden numbers. -/
def HiddenFrom (hidden : Nat → Prop) (first : Nat) (codes : List (BasicBlock α)) : Prop :=
  ∀ index code, codes[index]? = some code → code.specialized ≠ none → hidden (first + index)

namespace Tree

section Lockstep

variable [Number α] {config : MachineConfig} {hidden : Nat → Prop}

open ProgramSearch.Action

/-- Concealed notes stay concealed when specialized forms are dropped whose basic blocks have hidden
numbers, provided that the numbers are the same on both sides. -/
theorem concealed_clears_alike :
    ClearsAlike config true true (Concealed (α := α) hidden config.variableCount) Eq
      fun number code => code.Discardable ∧ (code.specialized ≠ none → hidden number) where
  remaining start := by
    obtain ⟨profile, rfl⟩ := start.aligned.same
    rfl
  get index := Concealed.quiet (Aligned.get index) (Quiet.get index)
  spend := Concealed.quiet Aligned.spend Quiet.spend
  read target := Concealed.quiet (Aligned.read target) (Quiet.read target)
  write address value := Concealed.quiet (Aligned.write address value) (Quiet.write address value)
  note := by
    rintro next _ rfl
    exact Concealed.note _
  basic := by
    rintro next _ code compiled cleared rfl ⟨discardable, secret⟩ accepted acceptedCleared
    exact Concealed.basic discardable accepted acceptedCleared secret
  past_block := by
    rintro next _ rfl
    rfl
  past_basic := by
    rintro next _ rfl
    rfl

/-- An instrumented statement and the same one without its specialized forms run in lockstep and
under the same numbers. What is concealed is in basic blocks with a specialized form. -/
theorem statement_conceals (tree : Tree α) (next : Ordinals)
    {compiled cleared : Statement α × Ordinals}
    (discardable : tree.Respects config.variableCount BasicBlock.Discardable)
    (secret : HiddenFrom hidden next.basicBlocks tree.basicBlocks)
    (accepted : statement ⟨config, true⟩ next tree = .ok compiled)
    (acceptedCleared : statement ⟨config, true⟩ next tree.clearSpecialized = .ok cleared) :
    Lockstep (Concealed hidden config.variableCount) compiled.1.run cleared.1.run := by
  have obey : ObeyFrom (fun number code => code.Discardable ∧
      (code.specialized ≠ none → hidden number)) next.basicBlocks tree.basicBlocks :=
    fun index code found =>
      ⟨respects_blocks tree discardable code (List.mem_of_getElem? found), secret index code found⟩
  exact (concealed_clears_alike.statement tree next next rfl obey accepted acceptedCleared).1

end Lockstep

end Tree

namespace Executable

variable [Number α]

/-- The notes that are left when samples are run one after another, each with the pages that the one
before left. -/
def observe (program : Executable α) :
    List (Sample α) → PagePool α → Option TreeProfile → Option TreeProfile
  | [], _, notes => notes
  | sample :: rest, pool, notes =>
    let outcome := program.execute sample.inputs sample.buffer pool notes
    program.observe rest outcome.pool outcome.profile

/-- From two blank pools, the same notes are left. -/
theorem observe_fresh (program : Executable α) (samples : List (Sample α))
    {pool other : PagePool α} (blank : pool.Blank) (otherBlank : other.Blank)
    (notes : Option TreeProfile) :
    program.observe samples pool notes = program.observe samples other notes := by
  induction samples generalizing pool other notes with
  | nil => rfl
  | cons sample rest inductionHypothesis =>
    obtain ⟨_, same⟩ :=
      program.execute_fresh sample.inputs sample.buffer blank otherBlank notes
    simp only [observe, same]
    exact inductionHypothesis (program.execute_blank _ _ blank notes)
      (program.execute_blank _ _ otherBlank notes) _

end Executable

namespace Tree

/-- The basic block with the given number has a specialized form. -/
def IsSpecialized (tree : Tree α) (ordinal : Nat) : Prop :=
  ∃ code, tree.basicBlocks[ordinal]? = some code ∧ code.specialized ≠ none

section Executions

variable [Number α]

/-- If two programs conceal notes from each other in one run, they do so over any number of runs. The
induction is on the samples, and the notes are those of the runs so far. -/
theorem observe_conceals {hidden : Nat → Prop} (program cleared : Executable α)
    (same : cleared.config = program.config)
    (conceals : Action.Lockstep (Concealed hidden program.config.variableCount) program.root.run
      cleared.root.run) (samples : List (Sample α)) {pool : PagePool α} (blank : pool.Blank)
    {noted full : TreeProfile} (before : noted.Conceals hidden full) :
    ∃ after fullAfter, program.observe samples pool (some noted) = some after ∧
      cleared.observe samples pool (some full) = some fullAfter ∧
      after.Conceals hidden fullAfter := by
  induction samples generalizing pool noted full with
  | nil => exact ⟨noted, full, rfl, rfl, before⟩
  | cons sample rest inductionHypothesis =>
    obtain ⟨next, fullNext, first, second, remains⟩ : ∃ next fullNext,
        (program.execute sample.inputs sample.buffer pool (some noted)).profile = some next ∧
        (cleared.execute sample.inputs sample.buffer pool (some full)).profile = some fullNext ∧
        next.Conceals hidden fullNext := by
      have reached := conceals _ _ ⟨start_aligned program cleared same sample.inputs pool
        (some noted) (some full), noted, full, rfl, rfl, before⟩
      simp only [Executable.execute]
      generalize program.root.run _ = outcome at reached ⊢
      generalize cleared.root.run _ = clearedOutcome at reached ⊢
      cases reached with
      | ended value concealed => exact concealed.2
      | stopped halt concealed => exact concealed.2
    have left := program.execute_blank sample.inputs sample.buffer blank (some noted)
    have leftToo := cleared.execute_blank sample.inputs sample.buffer blank (some full)
    simp only [Executable.observe, first, second, cleared.observe_fresh rest leftToo left]
    exact inductionHypothesis left remains

omit [Number α] in
/-- Dropping specialized forms drops that of every basic block. -/
theorem clear_basic_blocks (tree : Tree α) (ordinal : Nat) :
    tree.clearSpecialized.basicBlocks[ordinal]? =
      tree.basicBlocks[ordinal]?.map fun code => ⟨code.nodes, none⟩ := by
  let clear (_ : Unit) (code : BasicBlock α) : BasicBlock α × Unit := (⟨code.nodes, none⟩, ())
  have counts : ∀ (state : Unit) (number : Nat) (code : BasicBlock α), True →
      (clear state code).1 = ⟨code.nodes, none⟩ ∧ True := fun _ _ _ _ => ⟨rfl, trivial⟩
  have changed := (map_basic_numbered (fun _ _ => True) counts tree () 0 trivial).1
  rw [show tree.clearSpecialized.basicBlocks = _ from changed, List.getElem?_mapIdx]

/-- Committing changes every basic block by its number. -/
theorem commit_basic_blocks (tree : Tree α) (profile : TreeProfile) (offset ordinal : Nat) :
    (tree.commitBranches profile offset).1.basicBlocks[ordinal]? =
      tree.basicBlocks[ordinal]?.map fun code =>
        (code.commitStep profile offset (ordinal, 0)).1 := by
  have counts : ∀ (state : PassCount) (number : Nat) (code : BasicBlock α), state.1 = number →
      (code.commitStep profile offset state).1 = (code.commitStep profile offset (number, 0)).1 ∧
        (code.commitStep profile offset state).2.1 = number + 1 := by
    rintro state number code rfl
    exact ⟨rfl, rfl⟩
  have changed :=
    (map_basic_numbered (fun state number => state.1 = number) counts tree (0, 0) 0 rfl).1
  rw [show (tree.commitBranches profile offset).1.basicBlocks = _ from changed,
    List.getElem?_mapIdx, Nat.zero_add]

/-- Specialized forms conceal selections of their own basic blocks and nothing else.

Speculation makes a tree with specialized forms from an accepted tree without guards. Both this tree
and the one without its specialized forms are accepted as instrumented programs, and run on any list
of samples, from an empty profile and any blank pools. Then the same blocks are noted as reached, no
side is counted more often than it is without specialized forms, and all counts agree in the basic
blocks that have none. Committing by either profile makes the same of each of these basic blocks. -/
theorem specialized_forms_conceal_own_selections (tree : Tree α) (config : MachineConfig)
    (instrumented : Bool) (program : Executable α)
    (accepted : tree.compile config instrumented = .ok program)
    (unguarded : ∀ code ∈ tree.basicBlocks, code.nodes.Unguarded)
    (profile : TreeProfile) (offset threshold : Nat) :
    let speculative := (tree.speculateBranches profile offset threshold).1
    ∃ noting counting, speculative.compile config true = .ok noting ∧
      speculative.clearSpecialized.compile config true = .ok counting ∧
      ∀ samples : List (Sample α), ∃ noted full,
        (∀ pool : PagePool α, pool.Blank →
          noting.observe samples pool (some .empty) = some noted ∧
          counting.observe samples pool (some .empty) = some full) ∧
        noted.Conceals speculative.IsSpecialized full ∧
        ∀ ordinal, ¬ speculative.IsSpecialized ordinal → ∀ later,
          (speculative.commitBranches noted later).1.basicBlocks[ordinal]? =
            (speculative.clearSpecialized.commitBranches full later).1.basicBlocks[ordinal]? := by
  intro speculative
  obtain ⟨valid, fits⟩ := (compile_accepted_iff tree config instrumented).mp ⟨program, accepted⟩
  have respects := speculate_respects tree config.variableCount profile offset threshold
    (respects_and tree fits unguarded)
  have fitting := respects_mono (fun _ both => both.1) speculative respects
  obtain ⟨noting, compiled⟩ := (compile_accepted_iff speculative config true).mpr ⟨valid, fitting⟩
  obtain ⟨counting, compiledCleared⟩ :=
    (compile_accepted_iff speculative.clearSpecialized config true).mpr
      ⟨valid, clear_fits speculative fitting⟩
  refine ⟨noting, counting, compiled, compiledCleared, fun samples => ?_⟩
  simp only [compile, Refusal.bind_ok_iff] at compiled compiledCleared
  obtain ⟨_, _, root, acceptedRoot, same⟩ := compiled
  obtain ⟨_, _, clearedRoot, acceptedClearedRoot, sameCleared⟩ := compiledCleared
  obtain rfl := Except.ok.inj same
  obtain rfl := Except.ok.inj sameCleared
  have secret : HiddenFrom speculative.IsSpecialized 0 speculative.basicBlocks := by
    intro index code found specializes
    exact ⟨code, by rwa [Nat.zero_add], specializes⟩
  have conceals := statement_conceals speculative ⟨0, 0⟩
    (respects_mono (fun _ both => both.2) speculative respects) secret acceptedRoot
    acceptedClearedRoot
  obtain ⟨noted, full, observed, observedFull, remains⟩ :=
    observe_conceals ⟨root.1, config, true⟩ ⟨clearedRoot.1, config, true⟩ rfl conceals samples
      PagePool.blank_empty (.refl .empty)
  refine ⟨noted, full, ?_, remains, ?_⟩
  · intro pool blank
    exact ⟨(Executable.observe_fresh _ samples blank PagePool.blank_empty _).trans observed,
      (Executable.observe_fresh _ samples blank PagePool.blank_empty _).trans observedFull⟩
  · intro ordinal shown later
    rw [commit_basic_blocks, commit_basic_blocks, clear_basic_blocks, Option.map_map]
    congr 1
    funext code
    simp only [Function.comp, BasicBlock.commitStep, remains.sides_eq shown]

/-- What an instrumented tree leaves in an empty profile, if it is accepted. -/
def observed? (tree : Tree α) (config : MachineConfig) (samples : List (Sample α)) :
    Option TreeProfile :=
  (tree.compile config true).toOption.bind fun program =>
    program.observe samples PagePool.empty (some .empty)

end Executions

/-- Chooses the first variable if it is positive and the second one otherwise, and does so again. -/
def choices : Tree Small :=
  .block [.basic ⟨#[some (.argument 0), some (.argument 1), some (.conditional 0 1 0),
      some (.move 1)], none⟩,
    .basic ⟨#[some (.argument 0), some (.argument 1), some (.conditional 0 1 0),
      some (.move 1)], none⟩]

/-- Only the first choice was seen, and only on one side. -/
def choicesSeen : TreeProfile := TreeProfile.empty.record ⟨⟨0, 2⟩, true⟩

/-- The first variable is positive once, and once it is not. -/
def choicesSamples : List (Sample Small) :=
  [⟨#[Small.ofInt 5, Small.ofInt (-1)], #[.undefined, .undefined]⟩,
    ⟨#[Small.ofInt (-2), Small.ofInt (-1)], #[.undefined, .undefined]⟩]

/-- The first choice has a specialized form, and the second one is still counted in full. -/
theorem choices_conceal_first :
    let speculative := (choices.speculateBranches choicesSeen 2 0).1
    ∃ program noting counting noted full, choices.compile ⟨2, 2, 1, 1⟩ false = .ok program ∧
      (∀ code ∈ choices.basicBlocks, code.nodes.Unguarded) ∧
      speculative.compile ⟨2, 2, 1, 1⟩ true = .ok noting ∧
      speculative.clearSpecialized.compile ⟨2, 2, 1, 1⟩ true = .ok counting ∧
      noting.observe choicesSamples ⟨[Page.blank]⟩ (some .empty) = some noted ∧
      counting.observe choicesSamples ⟨[Page.blank]⟩ (some .empty) = some full ∧
      speculative.IsSpecialized 0 ∧ ¬ speculative.IsSpecialized 1 ∧
      noted.branches.get? ⟨1, 2⟩ = full.branches.get? ⟨1, 2⟩ := by
  intro speculative
  have accepted : ∃ program, choices.compile ⟨2, 2, 1, 1⟩ false = .ok program := ⟨_, by rfl⟩
  have unguarded : ∀ code ∈ choices.basicBlocks, code.nodes.Unguarded := by decide
  have forms : speculative.basicBlocks.map (·.specialized.isSome) = [true, false] := by
    decide +kernel
  have special : ∀ ordinal, speculative.IsSpecialized ordinal ↔
      (speculative.basicBlocks.map (·.specialized.isSome))[ordinal]? = some true := by
    intro ordinal
    simp [IsSpecialized, Option.isSome_iff_ne_none]
  obtain ⟨program, accepted⟩ := accepted
  obtain ⟨noting, counting, compiled, compiledCleared, runs⟩ :=
    specialized_forms_conceal_own_selections choices ⟨2, 2, 1, 1⟩ false program accepted unguarded
      choicesSeen 2 0
  obtain ⟨noted, full, observes, conceals, _⟩ := runs choicesSamples
  obtain ⟨observed, observedFull⟩ := observes _ PagePool.blank_single
  have first : speculative.IsSpecialized 0 := by rw [special, forms]; rfl
  have second : ¬ speculative.IsSpecialized 1 := by rw [special, forms]; decide
  exact ⟨program, noting, counting, noted, full, accepted, unguarded, compiled, compiledCleared,
    observed, observedFull, first, second, conceals.counts ⟨1, 2⟩ second⟩

/-- The first choice selected both of its sides. With its specialized form, only the side is counted
on which that bails out, and committing by this profile keeps this side alone. Without it, both
sides are counted and the choice stays. -/
theorem specialized_form_misleads_commitment :
    let speculative := (choices.speculateBranches choicesSeen 2 0).1
    let noted := speculative.observed? ⟨2, 2, 1, 1⟩ choicesSamples
    let full := speculative.clearSpecialized.observed? ⟨2, 2, 1, 1⟩ choicesSamples
    noted.bind (·.branches.get? ⟨0, 2⟩) = some ⟨0, 1⟩ ∧
      full.bind (·.branches.get? ⟨0, 2⟩) = some ⟨1, 1⟩ ∧
      noted.bind (fun profile => (speculative.commitBranches profile 2).1.basicBlocks.head?.map
          BasicBlock.nodes) =
        some #[some (.argument 0), some (.argument 1), some (.argument 1), some (.move 1)] ∧
      full.bind (fun profile => (speculative.commitBranches profile 2).1.basicBlocks.head?.map
          BasicBlock.nodes) =
        some #[some (.argument 0), some (.argument 1), some (.conditional 0 1 0),
          some (.move 1)] := by
  decide +kernel

end Tree

end ProgramSearch
