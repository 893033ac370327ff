import ProgramSearch.Proofs.Tree.Execution

/-!
# Budgets

Every execution of an accepted tree is finite: no more iterations are started than the loop budget
allows. It has outputs, or it is stopped because a budget is used up or an address is out of range. A
specialized form can be anything that compiles. If one of its guards fails, the baseline takes over,
and a baseline without guards always comes to an end.

A larger budget changes nothing for an execution that was not stopped for want of it. The same
derivation is an execution under the larger budget, step for step.
-/

namespace ProgramSearch

variable {α : Type} [Number α]

namespace Executes

variable {config : MachineConfig} {effect : BasicBlock α → Array α → Array α} {tree : Tree α}
  {store : Store α} {ending : Ending α}

/-- An execution is only stopped because a budget is used up or an address is out of range. -/
theorem cause (executes : Executes config effect tree store ending) {cause : Signal} {started : Nat}
    (stopped : ending = .stopped cause started) :
    cause = .loopBudgetExceeded ∨ cause = .memoryExhausted ∨ cause = .addressOutOfRange := by
  induction executes with
  | skip | done | leave | read | write | basic => cases stopped
  | next _ _ _ rest => exact rest stopped
  | broken _ inner => exact inner stopped
  | exhausted =>
    cases stopped
    exact .inl rfl
  | iterate _ _ _ _ _ again => exact again stopped
  | interrupted _ _ _ body => exact body stopped
  | refused failed =>
    cases stopped
    exact .inr ((Cells.write_refused failed).imp_right And.left)

/-- An execution that is not stopped for want of iterations is one under any larger budget. -/
theorem more_iterations (executes : Executes config effect tree store ending) {larger : Nat}
    (more : config.loopBudget ≤ larger)
    (enough : ∀ started, ending ≠ .stopped .loopBudgetExceeded started) :
    Executes { config with loopBudget := larger } effect tree store ending := by
  induction executes with
  | skip => exact .skip _
  | done => exact .done _
  | next _ _ first rest => exact .next (first nofun) (rest enough)
  | broken _ inner => exact .broken (inner enough)
  | leave ends => exact .leave ends
  | exhausted => exact absurd rfl (enough _)
  | iterate goes left _ _ body again =>
    exact .iterate goes (Nat.lt_of_lt_of_le left more) (body nofun) (again enough)
  | interrupted goes left _ body =>
    exact .interrupted goes (Nat.lt_of_lt_of_le left more) (body enough)
  | read => exact .read
  | write saved => exact .write saved
  | refused failed => exact .refused failed
  | basic => exact .basic

/-- An execution that is not stopped for want of pages is one under any larger number of pages. -/
theorem more_pages (executes : Executes config effect tree store ending) {larger : Nat}
    (more : config.maxPages ≤ larger)
    (enough : ∀ started, ending ≠ .stopped .memoryExhausted started) :
    Executes { config with maxPages := larger } effect tree store ending := by
  induction executes with
  | skip => exact .skip _
  | done => exact .done _
  | next _ _ first rest => exact .next (first nofun) (rest enough)
  | broken _ inner => exact .broken (inner enough)
  | leave ends => exact .leave ends
  | exhausted goes spent => exact .exhausted goes spent
  | iterate goes left _ _ body again => exact .iterate goes left (body nofun) (again enough)
  | interrupted goes left _ body => exact .interrupted goes left (body enough)
  | read => exact .read
  | write saved => exact .write (Cells.write_larger more saved)
  | refused failed =>
    rcases Cells.write_refused failed with rfl | ⟨rfl, everywhere⟩
    · exact absurd rfl (enough _)
    · exact .refused (everywhere larger)
  | basic => exact .basic

end Executes

/-- The variables after a basic block with a specialized form of any kind: the outputs of that form if
it comes to an end, and those of the baseline otherwise. -/
def BasicBlock.tiered (count : Nat) (code : BasicBlock α) (values : Array α) : Array α :=
  let baseline := code.eagerly count values
  match code.specialized with
  | none => baseline
  | some nodes =>
    match nodes.compile count {} with
    | .ok program => (program.run values baseline).result.toOption.getD baseline
    | .error _ => baseline

namespace Tree

/-- A specialized form that was accepted comes to an end with an output for each variable, whatever
the scratch space of the machine holds, or it bails out. -/
theorem specialized_ends {setting : Setting} {nodes : Program α} {program : Compiled α}
    (accepted : setting.scalar nodes none = .ok program) {values : Array α}
    (sized : values.size = setting.config.variableCount) :
    (∃ outputs, outputs.size = setting.config.variableCount ∧
      ∀ buffer : Array α, buffer.size = setting.config.variableCount →
        (program.run values buffer).result = .ok outputs) ∨
    ∀ buffer : Array α, buffer.size = setting.config.variableCount →
      (program.run values buffer).result = .error (.signal .bailout) := by
  obtain ⟨compiled, within⟩ := (scalar_ok_iff setting nodes none program).mp accepted
  obtain ⟨ready, slots, linked⟩ := Program.linked_of_compile compiled
  have explained := Program.eager_explains values nodes ready.valid
  have sufficient : program.arity ≤ values.size := sized ▸ within
  have covered : Program.Covered nodes values := fun slot parameter held =>
    Nat.lt_of_lt_of_le (linked.covers slot parameter held) sufficient
  have settled : Settles (nodes.Blames {} (Program.eager values nodes))
      (([] ++ slots).map (Program.eager values nodes)).toArray
      (Compiled.fill values program.steps #[]).result :=
    linked.fills.fill_settles explained covered
  cases filled : (Compiled.fill values program.steps #[]).result with
  | ok temporaries =>
    refine .inl ⟨BasicBlock.eagerly setting.config.variableCount ⟨nodes, none⟩ values,
      Array.size_ofFn, fun buffer whole => ?_⟩
    rw [filled] at settled
    have same : temporaries = _ := settled
    have ended : (program.run values buffer).result = .ok (Program.overwritten
        (Program.eager values nodes) (nodes.size - setting.config.variableCount)
        setting.config.variableCount buffer) := by
      simp only [Compiled.run, Traced.result_bind, filled]
      rw [same, List.nil_append]
      change (Traced.ofResult (Compiled.readAll _ _)).result >>= _ = _
      rw [linked.read_outputs explained covered buffer]
      exact congrArg Except.ok (Program.leading_outputs_append _ _ _ buffer)
    rw [ended, ← whole]
    exact congrArg Except.ok (Program.overwritten_whole _ _ buffer)
  | error halt =>
    refine .inr fun buffer _ => ?_
    rw [filled] at settled
    simp only [Compiled.run, Traced.result_bind, filled]
    cases settled with
    | guarded => rfl
    | operator _ checked => cases checked

/-- A basic block whose baseline holds no guards replaces the variables by the outputs of its
specialized form or of its baseline. -/
theorem tiered_effective (setting : Setting) :
    Effective setting (BasicBlock.tiered setting.config.variableCount)
      (fun code : BasicBlock α => code.nodes.Unguarded) := by
  intro code ordinal compiled unguarded accepted machine holds
  obtain ⟨baseline, specialized, rfl, first, second⟩ :=
    (basic_ok_iff setting code ordinal _).mp accepted
  obtain ⟨compiled, within⟩ := (scalar_ok_iff setting code.nodes _ baseline).mp first
  have fallback := Action.replace_all_noted compiled unguarded rfl machine (holds.values ▸ within)
  rw [holds.successors_eq] at fallback
  have sized : (code.eagerly setting.config.variableCount machine.values).size =
      setting.config.variableCount := Array.size_ofFn
  unfold BasicBlock.tiered
  cases given : code.specialized with
  | none =>
    rw [given, Refusal.mapM_ok_iff] at second
    subst second
    exact ⟨sized, _, fallback⟩
  | some nodes =>
    rw [given, Refusal.mapM_ok_iff] at second
    obtain ⟨program, found, rfl⟩ := second
    have copied := ((scalar_ok_iff setting nodes none program).mp found).1
    simp only [copied]
    rcases specialized_ends found holds.values with ⟨outputs, whole, ended⟩ | bailed
    · refine ⟨?_, machine.profile, ?_⟩
      · rw [ended _ sized]
        exact whole
      · rw [ended _ sized]
        exact Action.basic_done (ended _ holds.scratch)
    · refine ⟨?_, machine.noting baseline, ?_⟩
      · rw [bailed _ sized]
        exact sized
      · rw [bailed _ sized]
        exact (Action.basic_bailed (bailed _ holds.scratch)).trans fallback

/-- Budgets bound executions, and only want of a budget can be cured by a larger one.

Let the baselines of an accepted tree hold no guards; its specialized forms may be anything. The tree
then has an ending from the store that its inputs start it with, and the compiled tree ends like
that, from any blank pool. No more iterations were started, over all loops together, than the loop
budget allows, and the rest of the budget is left. If it was stopped, a budget was used up or an
address was out of range. With more iterations or more pages the tree is accepted as well, and its
executions answer the same, from any blank pool again, unless they were stopped for want of these. -/
theorem execution_bounded_and_monotone (tree : Tree α) (config : MachineConfig)
    (instrumented : Bool) (program : Executable α)
    (accepted : tree.compile config instrumented = .ok program)
    (unguarded : ∀ code ∈ tree.basicBlocks, code.nodes.Unguarded)
    (inputs buffer : Array α) {pool : PagePool α} (blank : pool.Blank)
    (profile : Option TreeProfile) :
    let outcome := program.execute inputs buffer pool profile
    (∃ ending, Executes config (BasicBlock.tiered config.variableCount) tree
        (Store.initial config inputs) ending ∧
      outcome.answer = ending.answer buffer ∧
      ending.started ≤ config.loopBudget ∧
      ending.started + (Action.left (program.root.run
        (program.start inputs pool profile))).remaining = config.loopBudget) ∧
    (∀ halt, outcome.ending = .error halt →
      halt = .signal .loopBudgetExceeded ∨ halt = .signal .memoryExhausted ∨
        halt = .signal .addressOutOfRange) ∧
    (∀ larger, config.loopBudget ≤ larger → ∃ other,
      tree.compile { config with loopBudget := larger } instrumented = .ok other ∧
      (outcome.ending ≠ .error (.signal .loopBudgetExceeded) →
        ∀ otherPool : PagePool α, otherPool.Blank →
          (other.execute inputs buffer otherPool profile).answer = outcome.answer)) ∧
    ∀ larger, config.maxPages ≤ larger → ∃ other,
      tree.compile { config with maxPages := larger } instrumented = .ok other ∧
      (outcome.ending ≠ .error (.signal .memoryExhausted) →
        ∀ otherPool : PagePool α, otherPool.Blank →
          (other.execute inputs buffer otherPool profile).answer = outcome.answer) := by
  intro outcome
  obtain ⟨valid, fits⟩ := (compile_accepted_iff tree config instrumented).mp ⟨program, accepted⟩
  have respects : tree.Respects config.variableCount (fun code => code.nodes.Unguarded) :=
    respects_mono (fun _ both => both.2) tree (respects_and tree fits unguarded)
  obtain ⟨ending, executes, result, left⟩ :=
    Executable.execute_adequate accepted (tiered_effective ⟨config, instrumented⟩) respects
      blank inputs buffer profile
  have stops : ∀ cause started, ending = .stopped cause started →
      outcome.ending = .error (.signal cause) := by
    rintro cause started rfl
    exact congrArg Prod.fst result
  -- Whatever the budgets are, the ending decides the answer where it is still an ending.
  have answers : ∀ budget pages,
      let wider : MachineConfig := ⟨config.variableCount, config.arguments, budget, pages⟩
      ∃ other, tree.compile wider instrumented = .ok other ∧
        (Executes wider (BasicBlock.tiered config.variableCount) tree
            (Store.initial config inputs) ending →
          ∀ otherPool : PagePool α, otherPool.Blank →
            (other.execute inputs buffer otherPool profile).answer = outcome.answer) := by
    intro budget pages wider
    obtain ⟨other, acceptedOther⟩ :=
      (compile_accepted_iff tree wider instrumented).mpr ⟨valid, fits⟩
    refine ⟨other, acceptedOther, fun same otherPool otherBlank => ?_⟩
    obtain ⟨another, executesOther, resultOther, _⟩ :=
      Executable.execute_adequate acceptedOther (tiered_effective ⟨wider, instrumented⟩) respects
        otherBlank inputs buffer profile
    obtain rfl := same.deterministic executesOther
    exact resultOther.trans result.symm
  refine ⟨⟨ending, executes, result, executes.within_budget (Nat.zero_le _), left⟩, ?_, ?_, ?_⟩
  · intro halt stopped
    cases ending with
    | finished store => cases (congrArg Prod.fst result).symm.trans stopped
    | stopped cause started =>
      obtain rfl := Except.error.inj ((stops cause started rfl).symm.trans stopped)
      simpa using executes.cause rfl
  · intro larger more
    obtain ⟨other, acceptedOther, same⟩ := answers larger config.maxPages
    refine ⟨other, acceptedOther, fun enough => same (executes.more_iterations more ?_)⟩
    exact fun started stopped => enough (stops _ started stopped)
  · intro larger more
    obtain ⟨other, acceptedOther, same⟩ := answers config.loopBudget larger
    refine ⟨other, acceptedOther, fun enough => same (executes.more_pages more ?_)⟩
    exact fun started stopped => enough (stops _ started stopped)

/-- Counts down by one. A specialized form counts down by two as long as that leaves something. -/
def descent : Tree Small :=
  .loop 0 (.basic ⟨#[some (.argument 0), some (.constant Number.one), some (.binary .sub 0 1)],
    some #[some (.argument 0), some (.constant (Small.ofInt 2)), some (.binary .sub 0 1),
      some (.guarded 2 2 true)]⟩)

/-- From three, the specialized form is used once and bails out once. Two iterations are enough, and
a larger budget does not change that, nor does a page in the pool. -/
theorem descent_bounded :
    ∃ program other, descent.compile ⟨1, 1, 2, 0⟩ false = .ok program ∧
      (∀ code ∈ descent.basicBlocks, code.nodes.Unguarded) ∧
      descent.compile ⟨1, 1, 5, 0⟩ false = .ok other ∧
      (other.execute #[Small.ofInt 3] #[.undefined] ⟨[Page.blank]⟩ none).answer =
        (.ok (), #[Small.ofInt 0]) ∧
      ∃ ending, Executes ⟨1, 1, 2, 0⟩ (BasicBlock.tiered 1) descent
        (Store.initial ⟨1, 1, 2, 0⟩ #[Small.ofInt 3]) ending ∧ ending.started ≤ 2 := by
  have unguarded : ∀ code ∈ descent.basicBlocks, code.nodes.Unguarded := by decide
  have ends : descent.answer? ⟨1, 1, 2, 0⟩ false #[Small.ofInt 3] #[.undefined] =
      some (.ok (), #[Small.ofInt 0]) := by decide +kernel
  obtain ⟨program, accepted, result⟩ := accepted_of_answer ends
  obtain ⟨⟨ending, executes, _, bounded, _⟩, _, wider, _⟩ := execution_bounded_and_monotone descent
    ⟨1, 1, 2, 0⟩ false program accepted unguarded #[Small.ofInt 3] #[.undefined]
    PagePool.blank_empty none
  obtain ⟨other, acceptedOther, same⟩ := wider 5 (by decide)
  have enough : (program.execute #[Small.ofInt 3] #[.undefined] PagePool.empty none).ending ≠
      .error (.signal .loopBudgetExceeded) := by
    intro stopped
    cases (congrArg Prod.fst result).symm.trans stopped
  exact ⟨program, other, accepted, unguarded, acceptedOther,
    (same enough _ PagePool.blank_single).trans result, ending, executes, bounded⟩

end Tree

end ProgramSearch
