import ProgramSearch.Proofs.Program.Modes
import ProgramSearch.Proofs.Tree.Barrier
import ProgramSearch.Proofs.Tree.Concealment
import ProgramSearch.Proofs.Tree.Execution

/-!
# Loops that were never entered

Runs of an instrumented tree note the blocks that they enter, and then the loops are removed whose
body is a block that was not noted. Each of these runs is done again without these loops, whatever
became of it: it has the same variables at the end, or is stopped by the same signal.

There is one exception. A run that is barred in front of a removed loop was stopped for want of
budget, and nothing stops it there any more. That the body was not reached does not mean that the
condition was never positive.
-/

namespace ProgramSearch

variable {α : Type} [Number α]

namespace Action

variable {β : Type} {count : Nat} {final : TreeProfile}

omit [Number α] in
/-- If the notes that an action leaves are within a profile, those before it were so. -/
theorem Notes.noted_before {action : Action α β} (notes : Notes action) {machine : Machine α}
    (noted : Leaves (Machine.NotedIn final) (action machine)) : machine.NotedIn final := by
  have grown := notes machine
  generalize action machine = outcome at grown noted
  cases noted with
  | ended value noted =>
    cases grown with
    | ended _ grown => exact grown.noted noted
  | stopped halt noted =>
    cases grown with
    | stopped _ grown => exact grown.noted noted

/-- If the notes that a loop leaves are within a profile and it began an iteration, then the block
of its body is reached there, even if the loop was stopped later. -/
theorem reached_of_iteration {condition block fuel : Nat} {parts : List (Statement α)}
    {machine : Machine α} (remains : machine.remaining = fuel + 1)
    (positive : Number.positive (machine.values.getD condition Number.zero) = true)
    (noted : Leaves (Machine.NotedIn final)
      (repeatWhile condition (Statement.block (some block) parts).run (fuel + 1) machine)) :
    final.isReached block = true := by
  obtain ⟨values, scratch, memory, pool, remaining, profile⟩ := machine
  obtain rfl : remaining = fuel + 1 := remains
  rw [repeat_while_succ, if_pos positive] at noted
  let rest := repeatWhile condition (Statement.block (some block) parts).run fuel
  have notes : Notes (Statement.runAll parts >>= fun _ => rest) :=
    (Statement.runAll_notes parts).bind fun _ =>
      (Statement.block (some block) parts).run_notes.repeat_while condition fuel
  -- The budget is taken and the block is noted before anything else is done.
  have entered : Machine.NotedIn final
      ⟨values, scratch, memory, pool, fuel, profile.map (·.markReached block)⟩ :=
    notes.noted_before noted
  obtain ⟨_, found, within⟩ := entered
  obtain ⟨before, _, rfl⟩ := Option.map_eq_some_iff.mp found
  exact within.reached block ((TreeProfile.reached_mark_iff before block block).mpr (.inl rfl))

/-- Unless a first action is barred, a second one has the same outcome on aligned machines, if the
notes that the first one leaves are within the final profile. -/
def Imitates (count : Nat) (final : TreeProfile) (barred : Machine α → Bool)
    (first second : Action α Unit) : Prop :=
  ∀ left right, Aligned count left right → Leaves (Machine.NotedIn final) (first left) →
    barred left = false → Matches (Aligned count) (first left) (second right)

namespace Imitates

omit [Number α] in
/-- Actions in lockstep imitate each other. -/
theorem of_lockstep {first second : Action α Unit}
    (lockstep : Lockstep (Aligned count) first second) (barred : Machine α → Bool) :
    Imitates count final barred first second :=
  fun left right aligned _ _ => lockstep left right aligned

omit [Number α] in
/-- Entering a block imitates entering a block, whether they are noted or not. -/
theorem note (first second : Option Nat) :
    Imitates (α := α) count final (fun _ => false) (Action.note first) (Action.note second) :=
  of_lockstep (Aligned.note first second) _

omit [Number α] in
/-- A sequence imitates another one when its parts do. The notes that the first part leaves are
within those of the whole sequence. -/
theorem bind {first second next following : Action α Unit} {barred barredNext : Machine α → Bool}
    (start : Imitates count final barred first second) (notes : Notes next)
    (continued : Imitates count final barredNext next following) :
    Imitates count final (fun machine => barred machine || first.leadsTo barredNext machine)
      (first >>= fun _ => next) (second >>= fun _ => following) := by
  intro left right aligned noted free
  obtain ⟨freeFirst, freeNext⟩ := Bool.or_eq_false_iff.mp free
  have reached := start left right aligned
  change Leaves _ (EStateM.bind first (fun _ => next) left) at noted
  change Matches _ (EStateM.bind first (fun _ => next) left)
    (EStateM.bind second (fun _ => following) right)
  unfold leadsTo at freeNext
  simp only [EStateM.bind] at noted ⊢
  cases ran : first left with
  | error halt middle =>
    simp only [ran] at reached noted ⊢
    have same := reached noted freeFirst
    generalize second right = other at same ⊢
    cases same with
    | stopped _ aligned => exact .stopped halt aligned
  | ok value middle =>
    simp only [ran] at reached noted freeNext ⊢
    have same := reached (.ended value (notes.noted_before noted)) freeFirst
    generalize second right = other at same ⊢
    cases same with
    | ended _ aligned => exact continued _ _ aligned noted freeNext

/-- A loop imitates another one when its body does. The induction is on the fuel, which both use up
together. -/
theorem repeat_while (condition : Nat) {body other : Action α Unit} {barred : Machine α → Bool}
    (notes : Notes body) (imitates : Imitates count final barred body other) (fuel : Nat) :
    Imitates count final (barredWhile condition barred body fuel)
      (repeatWhile condition body fuel) (repeatWhile condition other fuel) := by
  induction fuel with
  | zero =>
    apply of_lockstep
    rintro left right ⟨⟨profile, rfl⟩, values, scratch⟩
    rw [repeat_while_zero, repeat_while_zero]
    split
    · exact .stopped _ ⟨⟨profile, rfl⟩, values, scratch⟩
    · exact .ended () ⟨⟨profile, rfl⟩, values, scratch⟩
  | succ fuel inductionHypothesis =>
    rintro left right ⟨⟨profile, rfl⟩, values, scratch⟩ noted free
    rw [repeat_while_succ] at noted ⊢
    rw [repeat_while_succ]
    split at noted
    · rename_i positive
      rw [if_pos positive, if_pos positive]
      rw [barredWhile, positive, Bool.true_and] at free
      have rest := imitates.bind (notes.repeat_while condition fuel) inductionHypothesis
      have iteration := (of_lockstep Aligned.spend fun _ => false).bind
        (notes.bind fun _ => notes.repeat_while condition fuel) rest
      exact iteration left _ ⟨⟨profile, rfl⟩, values, scratch⟩ noted (by simpa using free)
    · rename_i idle
      rw [if_neg idle, if_neg idle]
      exact .ended () ⟨⟨profile, rfl⟩, values, scratch⟩

/-- A loop whose body is not reached in the end did nothing, unless it was barred. -/
theorem removed {body : Statement α} (unreached : body.isUnreached final.isReached = true)
    (condition : Nat) :
    Imitates count final ((Statement.loop condition body).barred final.isReached)
      (Statement.loop condition body).run (Statement.skip : Statement α).run := by
  obtain ⟨block, parts, rfl, missing⟩ :
      ∃ block parts, body = .block (some block) parts ∧ final.isReached block = false := by
    unfold Statement.isUnreached at unreached
    split at unreached
    · exact ⟨_, _, rfl, by simpa using unreached⟩
    · cases unreached
  intro left right aligned noted free
  rw [Statement.barred, if_pos unreached] at free
  change Leaves _ (repeatWhile condition (Statement.block (some block) parts).run left.remaining
    left) at noted
  change Matches _ (repeatWhile condition (Statement.block (some block) parts).run left.remaining
    left) _
  cases positive : Number.positive (left.values.getD condition Number.zero) with
  | true =>
    rw [positive, Bool.true_and, beq_eq_false_iff_ne] at free
    obtain ⟨fuel, remains⟩ := Nat.exists_eq_succ_of_ne_zero free
    rw [remains] at noted
    have reached := reached_of_iteration remains positive noted
    rw [missing] at reached
    cases reached
  | false =>
    rw [repeat_while_idle _ _ _ _ positive]
    exact .ended () aligned

end Imitates

end Action

namespace Tree

open ProgramSearch.Action

omit [Number α] in
/-- Removing loops alone is tailoring without changes to basic blocks. -/
theorem strip_dead_loops_eq_tailor (tree : Tree α) (profile : TreeProfile) :
    (tree.stripDeadLoops profile).1 =
      tree.tailor (fun _ code => code) profile.isReached ⟨0, 0⟩ := by
  let count (number : Nat) (code : BasicBlock α) : BasicBlock α × Nat := (code, number + 1)
  have counts : ∀ (state number : Nat) (code : BasicBlock α), state = number →
      (count state code).1 = code ∧ (count state code).2 = number + 1 := by
    rintro state number code rfl
    exact ⟨rfl, rfl⟩
  have walked := (strip_eq_tailor (fun state number => state = number) counts profile tree 0 (0, 0)
    ⟨0, 0⟩ rfl rfl).1
  rw [map_basic_same fun _ _ => rfl] at walked
  exact walked

section Imitation

variable {config : MachineConfig} {otherwise : Bool} {final : TreeProfile}

omit [Number α] in
/-- An instrumented statement is a block that was not reached when the tree is one whose number was
not noted. -/
theorem is_unreached_iff (reached : Nat → Bool) (tree : Tree α) (next : Ordinals)
    {compiled : Statement α × Ordinals}
    (accepted : statement ⟨config, true⟩ next tree = .ok compiled) :
    compiled.1.isUnreached reached = (tree.isBlock && !reached ((past next tree).blocks - 1)) := by
  cases tree with
  | block children =>
    obtain ⟨parts, inside, rfl⟩ := (statement_block_iff _ _ _ _).mp accepted
    simp [Statement.isUnreached, isBlock, past, ← statements_numbers _ children next inside]
  | skip =>
    obtain rfl := Except.ok.inj accepted
    rfl
  | loop condition body =>
    obtain ⟨_, inner, _, rfl⟩ := (statement_loop_iff _ _ _ _ _).mp accepted
    rfl
  | read target =>
    obtain ⟨_, rfl⟩ := (statement_read_iff _ _ _ _).mp accepted
    rfl
  | write address value =>
    obtain ⟨_, _, rfl⟩ := (statement_write_iff _ _ _ _ _).mp accepted
    rfl
  | basic code =>
    obtain ⟨_, inside, rfl⟩ := (statement_basic_iff _ _ _ _).mp accepted
    obtain ⟨_, _, rfl, _⟩ := (basic_ok_iff _ _ _ _).mp inside
    rfl

/-- A basic block without a specialized form does the same whether it reports or not. Its guards may
fail, and do so alike. -/
theorem basic_instrumented {code : BasicBlock α} (bare : code.specialized = none)
    {ordinal otherOrdinal : Nat} {compiled other : Statement α}
    (accepted : Setting.basic ⟨config, true⟩ code ordinal = .ok compiled)
    (acceptedOther : Setting.basic ⟨config, otherwise⟩ code otherOrdinal = .ok other) :
    Lockstep (Aligned config.variableCount) compiled.run other.run := by
  obtain ⟨baseline, specialized, rfl, first, second⟩ := (basic_ok_iff _ _ _ _).mp accepted
  obtain ⟨baselineOther, specializedOther, rfl, firstOther, secondOther⟩ :=
    (basic_ok_iff _ _ _ _).mp acceptedOther
  rw [bare, Refusal.mapM_ok_iff] at second secondOther
  subst second secondOther
  obtain ⟨instruments, _⟩ := (scalar_ok_iff _ _ _ _).mp first
  obtain ⟨plain, _⟩ := (scalar_ok_iff _ _ _ _).mp firstOther
  exact Aligned.replace_all fun inputs buffer =>
    Program.run_alike instruments plain rfl inputs buffer

mutual

/-- A tree without the loops that were not reached imitates the original one.

The induction follows the tree. A removed loop is imitated by nothing at all; everything else is
compiled on both sides and does the same, with its own numbers on either side. -/
theorem tailor_imitates (tree : Tree α) (next otherNext : Ordinals)
    {compiled other : Statement α × Ordinals}
    (bare : tree.Respects config.variableCount fun code => code.specialized = none)
    (accepted : statement ⟨config, true⟩ next tree = .ok compiled)
    (acceptedOther : statement ⟨config, otherwise⟩ otherNext
      (tree.tailor (fun _ code => code) final.isReached next) = .ok other) :
    Imitates config.variableCount final (compiled.1.barred final.isReached) compiled.1.run
      other.1.run := by
  cases tree with
  | skip =>
    obtain rfl := Except.ok.inj accepted
    obtain rfl := Except.ok.inj acceptedOther
    exact .of_lockstep (.pure ()) _
  | block children =>
    rw [tailor] at acceptedOther
    obtain ⟨parts, inside, rfl⟩ := (statement_block_iff _ _ _ _).mp accepted
    obtain ⟨otherParts, otherInside, rfl⟩ := (statement_block_iff _ _ _ _).mp acceptedOther
    have continued := tailor_all_imitates children next otherNext bare inside otherInside
    exact (Imitates.note _ _).bind (Statement.runAll_notes parts.1) continued
  | loop condition body =>
    obtain ⟨_, inner, inside, rfl⟩ := (statement_loop_iff _ _ _ _ _).mp accepted
    have removal := is_unreached_iff final.isReached body next inside
    rw [tailor, ← removal] at acceptedOther
    split at acceptedOther
    · rename_i removed
      obtain rfl := Except.ok.inj acceptedOther
      exact .removed removed condition.toNat
    · rename_i kept
      obtain ⟨_, otherInner, otherInside, rfl⟩ :=
        (statement_loop_iff _ _ _ _ _).mp acceptedOther
      have repeated := tailor_imitates body next otherNext bare.2 inside otherInside
      rintro left right ⟨⟨profile, rfl⟩, values, scratch⟩ noted free
      rw [Statement.barred, if_neg kept] at free
      exact Imitates.repeat_while condition.toNat inner.1.run_notes repeated left.remaining left _
        ⟨⟨profile, rfl⟩, values, scratch⟩ noted free
  | read target =>
    obtain ⟨_, rfl⟩ := (statement_read_iff _ _ _ _).mp accepted
    obtain ⟨_, rfl⟩ := (statement_read_iff _ target _ _).mp acceptedOther
    exact .of_lockstep (Aligned.read target.toNat) _
  | write address value =>
    obtain ⟨_, _, rfl⟩ := (statement_write_iff _ _ _ _ _).mp accepted
    obtain ⟨_, _, rfl⟩ := (statement_write_iff _ address value _ _).mp acceptedOther
    exact .of_lockstep (Aligned.write address.toNat value.toNat) _
  | basic code =>
    rw [tailor] at acceptedOther
    obtain ⟨block, inside, rfl⟩ := (statement_basic_iff _ _ _ _).mp accepted
    obtain ⟨otherBlock, otherInside, rfl⟩ := (statement_basic_iff _ _ _ _).mp acceptedOther
    exact .of_lockstep (basic_instrumented bare inside otherInside) _

/-- The children of a block without the loops that were not reached imitate the original ones, one
after another. Children that are empty on one side are left out there. -/
theorem tailor_all_imitates (trees : List (Tree α)) (next otherNext : Ordinals)
    {compiled other : List (Statement α) × Ordinals}
    (bare : RespectsAll config.variableCount (fun code => code.specialized = none) trees)
    (accepted : statements ⟨config, true⟩ next trees = .ok compiled)
    (acceptedOther : statements ⟨config, otherwise⟩ otherNext
      (tailorAll (fun _ code => code) final.isReached next trees) = .ok other) :
    Imitates config.variableCount final (Statement.barredAll final.isReached compiled.1)
      (Statement.runAll compiled.1) (Statement.runAll other.1) := by
  cases trees with
  | nil =>
    obtain rfl := Except.ok.inj accepted
    obtain rfl := Except.ok.inj acceptedOther
    exact .of_lockstep (.pure ()) _
  | cons tree rest =>
    cases empty : tree.isSkip with
    | true =>
      cases tree with
      | skip => exact tailor_all_imitates rest next otherNext bare.2 accepted acceptedOther
      | block | loop | read | write | basic => cases empty
    | false =>
      obtain ⟨first, others, start, remaining, rfl⟩ :=
        (statements_cons_iff _ empty _ _ _).mp accepted
      simp only [tailorAll, ← statement_numbers _ tree next start] at acceptedOther
      have notes := Statement.runAll_notes others.1
      -- A child that became empty is left out, which is as good as doing nothing.
      split at acceptedOther
      · rename_i removed
        have begin := tailor_imitates tree next otherNext bare.1 start
          (statement_of_is_skip ⟨config, otherwise⟩ otherNext removed)
        have continued := tailor_all_imitates rest first.2 otherNext bare.2 remaining acceptedOther
        exact begin.bind notes continued
      · rename_i kept
        obtain ⟨otherFirst, otherRest, otherStart, otherRemaining, rfl⟩ :=
          (statements_cons_iff _ (Bool.eq_false_iff.mpr kept) _ _ _).mp acceptedOther
        have begin := tailor_imitates tree next otherNext bare.1 start otherStart
        have continued := tailor_all_imitates rest first.2 otherFirst.2 bare.2 remaining
          otherRemaining
        exact begin.bind notes continued

end

end Imitation

section Executions

/-- An execution leaves notes that have grown, and its last machine holds them, whether it came to
an end or not. -/
theorem execute_notes (program : Executable α) (inputs buffer : Array α) (pool : PagePool α)
    (before : TreeProfile) :
    ∃ after, (program.execute inputs buffer pool (some before)).profile = some after ∧
      before.Within after ∧
      ∀ final, after.Within final → Leaves (Machine.NotedIn final)
        (program.root.run (program.start inputs pool (some before))) := by
  have leaves := program.root.run_notes (program.start inputs pool (some before))
  simp only [Executable.execute]
  generalize program.root.run _ = outcome at leaves ⊢
  cases leaves with
  | ended value grown =>
    obtain ⟨after, found, within⟩ := grown.present
    exact ⟨after, found, within, fun final later => .ended value ⟨after, found, later⟩⟩
  | stopped halt grown =>
    obtain ⟨after, found, within⟩ := grown.present
    exact ⟨after, found, within, fun final later => .stopped halt ⟨after, found, later⟩⟩

/-- Runs that are observed one after another leave notes, and the notes of each run are within those
in the end. The induction is on the samples, and the notes are those of the runs so far. -/
theorem observe_each (program : Executable α) (samples : List (Sample α)) (before : TreeProfile) :
    ∃ final, program.observe samples PagePool.empty (some before) = some final ∧
      before.Within final ∧
      ∀ sample ∈ samples, ∃ notes, Leaves (Machine.NotedIn final)
        (program.root.run (program.start sample.inputs PagePool.empty notes)) := by
  induction samples generalizing before with
  | nil => exact ⟨before, rfl, .refl before, nofun⟩
  | cons sample rest inductionHypothesis =>
    obtain ⟨after, noted, grown, leaves⟩ :=
      execute_notes program sample.inputs sample.buffer PagePool.empty before
    obtain ⟨final, observed, within, each⟩ := inductionHypothesis after
    have left := program.execute_blank sample.inputs sample.buffer PagePool.blank_empty (some before)
    refine ⟨final, ?_, grown.trans within, ?_⟩
    · rw [Executable.observe]
      simp only [noted]
      rw [program.observe_fresh rest left PagePool.blank_empty, observed]
    · intro other member
      rcases List.mem_cons.mp member with rfl | later
      · exact ⟨some before, leaves final within⟩
      · exact each other later

/-- Removing loops that were never entered is faithful to the runs that were profiled, unless they
were barred.

An accepted tree without specialized forms is instrumented and run on any list of samples, with one
profile for all of them, from any blank pool. Each of the runs may come to an end or be stopped by a
signal. Then the loops are removed whose body was not reached. What is left is accepted, instrumented
or not, and gives the same answer on each sample, the same variables or the same signal, whatever is
noted along the way. The exception are runs that were stopped for want of budget in front of a
removed loop. -/
theorem stripping_keeps_unbarred_results (tree : Tree α) (config : MachineConfig)
    (program : Executable α) (accepted : tree.compile config true = .ok program)
    (bare : ∀ code ∈ tree.basicBlocks, code.specialized = none) (samples : List (Sample α))
    (instrumented : Bool) :
    ∃ final stripped,
      (∀ pool : PagePool α, pool.Blank → program.observe samples pool (some .empty) = some final) ∧
      (tree.stripDeadLoops final).1.compile config instrumented = .ok stripped ∧
      ∀ sample ∈ samples, ∀ (pool otherPool : PagePool α) (noted otherNoted : Option TreeProfile),
        pool.Blank → otherPool.Blank →
          if program.root.barred final.isReached
              (program.start sample.inputs PagePool.empty none) then
            (program.execute sample.inputs sample.buffer pool noted).answer =
              (.error (.signal .loopBudgetExceeded), sample.buffer)
          else
            (stripped.execute sample.inputs sample.buffer otherPool otherNoted).answer =
              (program.execute sample.inputs sample.buffer pool noted).answer := by
  obtain ⟨final, observed, _, each⟩ := observe_each program samples .empty
  obtain ⟨valid, fits⟩ := (compile_accepted_iff tree config true).mp ⟨program, accepted⟩
  obtain ⟨stripped, acceptedStripped⟩ := (compile_accepted_iff _ config instrumented).mpr
    ⟨valid, strip_dead_loops_respects tree final fits⟩
  refine ⟨final, stripped, fun pool blank =>
    (program.observe_fresh samples blank PagePool.blank_empty _).trans observed, acceptedStripped, ?_⟩
  simp only [compile, Refusal.bind_ok_iff] at accepted acceptedStripped
  obtain ⟨_, _, root, acceptedRoot, same⟩ := accepted
  obtain ⟨_, _, strippedRoot, acceptedStrippedRoot, sameStripped⟩ := acceptedStripped
  obtain rfl := Except.ok.inj same
  obtain rfl := Except.ok.inj sameStripped
  rw [strip_dead_loops_eq_tailor] at acceptedStrippedRoot
  have imitates := tailor_imitates tree ⟨0, 0⟩ ⟨0, 0⟩
    (respects_mono (fun _ both => both.2) tree (respects_and tree fits bare)) acceptedRoot
    acceptedStrippedRoot
  intro sample member pool otherPool noted otherNoted blank otherBlank
  obtain ⟨notes, leaves⟩ := each sample member
  have started (profile : Option TreeProfile) :=
    start_aligned ⟨root.1, config, true⟩ ⟨root.1, config, true⟩ rfl sample.inputs PagePool.empty
      notes profile
  have judged := Machine.Invariant.barred final.isReached root.1 _ _ (started none)
  have again := @answer_eq_of_matches _ _ ⟨root.1, config, true⟩ ⟨root.1, config, true⟩ _ _ _ _ _
    (Aligned.run root.1 _ _ (started noted)) sample.buffer
  rw [← judged, (Executable.execute_fresh _ _ _ blank PagePool.blank_empty _).1,
    (Executable.execute_fresh _ _ _ otherBlank PagePool.blank_empty _).1, ← again]
  split
  · rename_i barred
    obtain ⟨after, stopped⟩ := Exhausts.barred final.isReached root.1 _ barred
    simp only [Executable.execute, Executable.Outcome.answer, stopped]
  · rename_i free
    have aligned := start_aligned ⟨root.1, config, true⟩ ⟨strippedRoot.1, config, instrumented⟩ rfl
      sample.inputs PagePool.empty notes otherNoted
    exact (answer_eq_of_matches (imitates _ _ aligned leaves (Bool.eq_false_iff.mpr free))
      sample.buffer).symm

end Executions

/-- Counts the first variable down to zero, and then reads the second one from memory as long as it
is positive. -/
def descents : Tree Float :=
  .block [.loop 0 (.block [.basic ⟨#[some (.argument 0), some (.argument 1),
      some (.constant 1.0), some (.binary .sub 0 2), some (.move 1)], none⟩]),
    .loop 1 (.block [.read 1])]

/-- With two iterations, the first sample comes to an end, the second one counts too far, and the
third one is barred in front of the second loop. -/
def descentsSamples : List (Sample Float) :=
  [⟨#[1.0, 0.0], #[7.0, 7.0]⟩, ⟨#[3.0, 0.0], #[7.0, 7.0]⟩, ⟨#[2.0, 1.0], #[7.0, 7.0]⟩]

/-- The second loop is removed. Without it, and without the instrumentation, the first sample has
the same variables, and the second one is stopped for want of budget again. -/
theorem descents_kept :
    ∃ program final stripped, descents.compile ⟨2, 2, 2, 1⟩ true = .ok program ∧
      (∀ code ∈ descents.basicBlocks, code.specialized = none) ∧
      program.observe descentsSamples ⟨[Page.blank]⟩ (some .empty) = some final ∧
      (descents.stripDeadLoops final).2 = 1 ∧
      (descents.stripDeadLoops final).1.compile ⟨2, 2, 2, 1⟩ false = .ok stripped ∧
      (stripped.execute #[1.0, 0.0] #[7.0, 7.0] ⟨[Page.blank]⟩ none).answer =
        (.ok (), #[0.0, 0.0]) ∧
      (stripped.execute #[3.0, 0.0] #[7.0, 7.0] ⟨[Page.blank]⟩ none).answer =
        (.error (.signal .loopBudgetExceeded), #[7.0, 7.0]) := by
  have bare : ∀ code ∈ descents.basicBlocks, code.specialized = none := by decide
  have accepted : ∃ program, descents.compile ⟨2, 2, 2, 1⟩ true = .ok program ∧
      ((program.observe descentsSamples .empty (some .empty)).map fun final =>
        ((descents.stripDeadLoops final).2, descentsSamples.map fun sample =>
          program.root.barred final.isReached (program.start sample.inputs .empty none))) =
        some (1, [false, false, true]) ∧
      (program.execute #[1.0, 0.0] #[7.0, 7.0] .empty none).answer = (.ok (), #[0.0, 0.0]) ∧
      (program.execute #[3.0, 0.0] #[7.0, 7.0] .empty none).answer =
        (.error (.signal .loopBudgetExceeded), #[7.0, 7.0]) := ⟨_, by rfl, by decide +kernel⟩
  obtain ⟨program, accepted, judged, ended, stopped⟩ := accepted
  obtain ⟨final, stripped, observed, acceptedStripped, kept⟩ :=
    stripping_keeps_unbarred_results descents ⟨2, 2, 2, 1⟩ program accepted bare descentsSamples
      false
  rw [observed _ PagePool.blank_empty, Option.map_some, Option.some.injEq, Prod.mk.injEq] at judged
  obtain ⟨removed, judged⟩ := judged
  simp only [descentsSamples, List.map_cons, List.map_nil, List.cons.injEq] at judged
  have first := kept ⟨#[1.0, 0.0], #[7.0, 7.0]⟩ (by simp [descentsSamples]) _ _ none none
    PagePool.blank_empty PagePool.blank_single
  have second := kept ⟨#[3.0, 0.0], #[7.0, 7.0]⟩ (by simp [descentsSamples]) _ _ none none
    PagePool.blank_empty PagePool.blank_single
  rw [judged.1, if_neg Bool.false_ne_true] at first
  rw [judged.2.1, if_neg Bool.false_ne_true] at second
  exact ⟨program, final, stripped, accepted, bare, observed _ PagePool.blank_single, removed,
    acceptedStripped, first.trans ended, second.trans stopped⟩

/-- A sample that uses the budget up in the first loop is refused at the entry of the second one.
Its body is not reached, so the loop is removed, and then the same sample comes to an end. -/
theorem refused_entry_is_forgotten :
    descents.answer? ⟨2, 2, 2, 1⟩ true #[2.0, 1.0] #[7.0, 7.0] =
        some (.error (.signal .loopBudgetExceeded), #[7.0, 7.0]) ∧
      (descents.observed? ⟨2, 2, 2, 1⟩ [⟨#[2.0, 1.0], #[7.0, 7.0]⟩]).bind (fun final =>
          (descents.stripDeadLoops final).1.answer? ⟨2, 2, 2, 1⟩ false #[2.0, 1.0] #[7.0, 7.0]) =
        some (.ok (), #[0.0, 1.0]) := by
  decide +kernel

end Tree

end ProgramSearch
