import ProgramSearch.Proofs.Tree.Reference

/-!
# Compiled trees do what they mean

A machine represents a store when it holds the same variables, its memory mirrors the cells, and the
budget that remains is what the iterations that were started have left. From a machine that
represents a store, a compiled tree ends as its meaning says: either on a machine that represents the
final store, or stopped by the same signal. This is shown for every effect that the compiled basic
blocks have.

A loop is compiled with the remaining budget as its fuel. Its body never gives budget back, so the
fuel always reaches as far as the budget.
-/

namespace ProgramSearch

variable {α : Type} [Number α]

/-- A machine that holds what the store holds. -/
structure Machine.Represents (config : MachineConfig) (machine : Machine α) (store : Store α) :
    Prop where
  values : machine.values = store.values
  holds : machine.Holds config.variableCount
  memory : machine.memory.Mirrors store.cells
  limit : machine.memory.limit = config.maxPages
  pool : machine.pool.Blank
  budget : store.started + machine.remaining = config.loopBudget

/-- The outcome of an action that ends as the meaning says. -/
inductive Realizes (config : MachineConfig) :
    EStateM.Result Halt (Machine α) Unit → Ending α → Prop where
  | finished {machine : Machine α} {store : Store α} :
      machine.Represents config store → Realizes config (.ok () machine) (.finished store)
  | stopped (cause : Signal) {machine : Machine α} {started : Nat} :
      started + machine.remaining = config.loopBudget →
        Realizes config (.error (.signal cause) machine) (.stopped cause started)

/-- On every machine that represents a store, the action ends as an execution of the tree does. -/
def Action.Performs (config : MachineConfig) (effect : BasicBlock α → Array α → Array α)
    (tree : Tree α) (action : Action α Unit) : Prop :=
  ∀ machine store, machine.Represents config store →
    ∃ ending, Executes config effect tree store ending ∧ Realizes config (action machine) ending

namespace Machine.Represents

variable {config : MachineConfig} {machine : Machine α} {store : Store α}

/-- Only what the store knows of a machine matters, and that its scratch space is large enough. -/
theorem noted (represents : machine.Represents config store) (profile : Option TreeProfile) :
    ({ machine with profile } : Machine α).Represents config store :=
  ⟨represents.values, ⟨represents.holds.values, represents.holds.scratch⟩, represents.memory,
    represents.limit, represents.pool, represents.budget⟩

/-- A machine represents its start. -/
theorem start (program : Executable α) (inputs : Array α) {pool : PagePool α}
    (blank : pool.Blank) (profile : Option TreeProfile) :
    (program.start inputs pool profile).Represents program.config
      (Store.initial program.config inputs) := by
  refine ⟨?_, Tree.start_holds program inputs pool profile, .empty _, rfl, blank, Nat.zero_add _⟩
  apply Array.ext
  · exact (Tree.start_holds program inputs pool profile).values.trans Array.size_ofFn.symm
  · intro index inside _
    have bounded : index < program.config.variableCount :=
      (Tree.start_holds program inputs pool profile).values ▸ inside
    simp only [Executable.start, Store.initial, Array.getElem_append, Array.size_extract,
      Array.getElem_extract, Array.getElem_replicate, Array.getElem_ofFn]
    by_cases given : index < inputs.size
    · by_cases argument : index < program.config.arguments
      · rw [dif_pos (by omega), if_pos argument]
        simp [Array.getD_eq_getD_getElem?, given]
      · rw [dif_neg (by omega), if_neg argument]
    · rw [dif_neg (by omega)]
      simp [Array.getD_eq_getD_getElem?, Nat.le_of_not_lt given]

end Machine.Represents

namespace Action

variable {config : MachineConfig} {effect : BasicBlock α → Array α → Array α}

/-- Noting a block changes nothing that the store knows of. -/
theorem note_realizes {machine : Machine α} {store : Store α}
    (represents : machine.Represents config store) (block : Option Nat) :
    ∃ after, note block machine = .ok () after ∧ after.Represents config store := by
  cases block with
  | none => exact ⟨machine, rfl, represents⟩
  | some ordinal => exact ⟨_, rfl, represents.noted _⟩

/-- Reading memory does what it means. -/
theorem read_performs (target : UInt16) :
    Performs config effect (.read target) (read (α := α) target.toNat) := by
  intro machine store represents
  refine ⟨_, .read, .finished ⟨?_, ?_, represents.memory, represents.limit, represents.pool,
    represents.budget⟩⟩
  · simp only [Store.load, Store.value, ← represents.values, ← represents.memory.read]
  · exact ⟨(Array.size_setIfInBounds ..).trans represents.holds.values, represents.holds.scratch⟩

/-- Writing memory does what it means. -/
theorem write_performs (address value : UInt16) :
    Performs config effect (.write address value)
      (write (α := α) address.toNat value.toNat) := by
  intro machine store represents
  have writes := represents.memory.write represents.pool
    (machine.values.getD address.toNat Number.zero) (machine.values.getD value.toNat Number.zero)
  have saved : store.save config.maxPages address value = store.cells.write machine.memory.limit
      (machine.values.getD address.toNat Number.zero)
      (machine.values.getD value.toNat Number.zero) := by
    rw [represents.limit, represents.values]
    rfl
  rw [← saved] at writes
  generalize same : store.save config.maxPages address value = result at writes
  obtain ⟨memory, pool, written, ran⟩ | ⟨cause, _, refused, ran⟩ :=
    write_cases address.toNat value.toNat machine
  · rw [written] at writes
    rw [ran]
    cases writes with
    | stored mirrors limit blank =>
      exact ⟨_, .write same, .finished ⟨represents.values,
        ⟨represents.holds.values, represents.holds.scratch⟩, mirrors, limit.trans represents.limit,
        blank, represents.budget⟩⟩
  · rw [refused] at writes
    rw [ran]
    cases writes with
    | refused => exact ⟨_, .refused same, .stopped cause represents.budget⟩

omit [Number α] in
theorem spend_none {β : Type} {machine : Machine α} (spent : machine.remaining = 0)
    (next : Unit → Action α β) :
    (spend >>= next) machine = .error (.signal .loopBudgetExceeded) machine := by
  obtain ⟨values, scratch, memory, pool, remaining, profile⟩ := machine
  subst spent
  rfl

omit [Number α] in
theorem spend_some {β : Type} {machine : Machine α} {rest : Nat}
    (left : machine.remaining = rest + 1) (next : Unit → Action α β) :
    (spend >>= next) machine = next () { machine with remaining := rest } := by
  obtain ⟨values, scratch, memory, pool, remaining, profile⟩ := machine
  subst left
  rfl

/-- A loop does what it means if its body does. The induction is on the fuel, which reaches as far
as the budget that remains. -/
theorem repeat_while_performs {body : Tree α} {action : Action α Unit}
    (performs : Performs config effect body action) (condition : UInt16) (fuel : Nat)
    (machine : Machine α) (store : Store α) (represents : machine.Represents config store)
    (enough : machine.remaining ≤ fuel) :
    ∃ ending, Executes config effect (.loop condition body) store ending ∧
      Realizes config (repeatWhile condition.toNat action fuel machine) ending := by
  have tests : ∀ (machine : Machine α) (store : Store α), machine.Represents config store →
      Number.positive (machine.values.getD condition.toNat Number.zero) =
        store.continues condition := by
    intro machine store represents
    rw [represents.values]
    rfl
  induction fuel generalizing machine store with
  | zero =>
    have budget := represents.budget
    rw [repeat_while_zero, tests machine store represents]
    cases goes : store.continues condition with
    | false => exact ⟨_, .leave goes, .finished represents⟩
    | true => exact ⟨_, .exhausted goes (by omega), .stopped _ budget⟩
  | succ fuel inductionHypothesis =>
    have budget := represents.budget
    rw [repeat_while_succ, tests machine store represents]
    cases goes : store.continues condition with
    | false => exact ⟨_, .leave goes, .finished represents⟩
    | true =>
      rw [if_pos rfl]
      cases left : machine.remaining with
      | zero =>
        rw [spend_none left]
        exact ⟨_, .exhausted goes (by omega), .stopped _ budget⟩
      | succ rest =>
        rw [spend_some left]
        -- The unit that was taken from the budget is the iteration that the store counts as
        -- started.
        have started : ({ machine with remaining := rest } : Machine α).Represents config
            store.iterate :=
          ⟨represents.values, ⟨represents.holds.values, represents.holds.scratch⟩,
            represents.memory, represents.limit, represents.pool, by
              change store.started + 1 + rest = _
              omega⟩
        have more : store.started < config.loopBudget := by omega
        obtain ⟨ending, once, realized⟩ := performs _ _ started
        have counted := once.started_le
        change ∃ ending, _ ∧ Realizes config (EStateM.bind action
          (fun _ => repeatWhile condition.toNat action fuel) _) ending
        simp only [EStateM.bind]
        generalize action { machine with remaining := rest } = outcome at realized ⊢
        cases realized with
        | @finished after middle reached =>
          have remains := reached.budget
          change store.started + 1 ≤ middle.started at counted
          obtain ⟨final, again, ended⟩ := inductionHypothesis after middle reached (by omega)
          exact ⟨final, .iterate goes more once again, ended⟩
        | stopped cause spent => exact ⟨_, .interrupted goes more once, .stopped cause spent⟩

end Action

namespace Tree

variable {setting : Setting} {effect : BasicBlock α → Array α → Array α}
  {law : BasicBlock α → Prop}

/-- The effect of the basic blocks that obey a law: however they are numbered, their compiled forms
always come to an end and replace the variables by it. -/
def Effective (setting : Setting) (effect : BasicBlock α → Array α → Array α)
    (law : BasicBlock α → Prop) : Prop :=
  ∀ code ordinal compiled, law code → setting.basic code ordinal = .ok compiled →
    ∀ machine : Machine α, machine.Holds setting.config.variableCount →
      (effect code machine.values).size = setting.config.variableCount ∧
      ∃ profile, compiled.run machine = .ok ()
        { machine with
          values := effect code machine.values, scratch := effect code machine.values, profile }

mutual

/-- A statement of an accepted tree does what it means. -/
theorem statement_performs (effective : Effective setting effect law) (tree : Tree α)
    (respects : tree.Respects setting.config.variableCount law) (next : Ordinals)
    {compiled : Statement α × Ordinals} (accepted : statement setting next tree = .ok compiled) :
    Action.Performs setting.config effect tree compiled.1.run := by
  cases tree with
  | skip =>
    obtain rfl := Except.ok.inj accepted
    intro machine store represents
    exact ⟨_, .skip store, .finished represents⟩
  | block children =>
    obtain ⟨parts, inside, rfl⟩ := (statement_block_iff _ _ _ _).mp accepted
    intro machine store represents
    obtain ⟨after, noted, reached⟩ := Action.note_realizes represents
      (if setting.instrumented then some parts.2.blocks else none)
    obtain ⟨ending, executes, realized⟩ :=
      statements_perform effective children respects next inside after store reached
    refine ⟨ending, executes, ?_⟩
    change Realizes _ (EStateM.bind _ (fun _ => Statement.runAll parts.1) machine) ending
    simp only [EStateM.bind, noted]
    exact realized
  | loop condition body =>
    obtain ⟨_, inner, inside, rfl⟩ := (statement_loop_iff _ _ _ _ _).mp accepted
    intro machine store represents
    exact Action.repeat_while_performs
      (statement_performs effective body respects.2 next inside) condition machine.remaining
      machine store represents (Nat.le_refl _)
  | read target =>
    obtain ⟨_, rfl⟩ := (statement_read_iff _ _ _ _).mp accepted
    exact Action.read_performs target
  | write address value =>
    obtain ⟨_, _, rfl⟩ := (statement_write_iff _ _ _ _ _).mp accepted
    exact Action.write_performs address value
  | basic code =>
    obtain ⟨block, inside, rfl⟩ := (statement_basic_iff _ _ _ _).mp accepted
    intro machine store represents
    obtain ⟨sized, profile, ran⟩ :=
      effective code next.basicBlocks block respects inside machine represents.holds
    refine ⟨_, .basic, ?_⟩
    rw [ran]
    exact .finished ⟨congrArg (effect code) represents.values, ⟨sized, sized⟩, represents.memory,
      represents.limit, represents.pool, represents.budget⟩

/-- The statements of a block of an accepted tree do what the block means. -/
theorem statements_perform (effective : Effective setting effect law) (trees : List (Tree α))
    (respects : RespectsAll setting.config.variableCount law trees) (next : Ordinals)
    {compiled : List (Statement α) × Ordinals}
    (accepted : statements setting next trees = .ok compiled) :
    Action.Performs setting.config effect (.block trees) (Statement.runAll compiled.1) := by
  cases trees with
  | nil =>
    obtain rfl := Except.ok.inj accepted
    intro machine store represents
    exact ⟨_, .done store, .finished represents⟩
  | cons tree rest =>
    cases empty : tree.isSkip with
    | true =>
      simp only [statements, empty, if_true] at accepted
      intro machine store represents
      obtain ⟨ending, executes, realized⟩ := statements_perform effective rest respects.2 next
        accepted machine store represents
      have idle : tree = .skip := by
        cases tree with
        | skip => rfl
        | block | loop | read | write | basic => cases empty
      exact ⟨ending, idle ▸ .next (.skip store) executes, realized⟩
    | false =>
      obtain ⟨first, others, start, remaining, rfl⟩ :=
        (statements_cons_iff setting empty rest next compiled).mp accepted
      intro machine store represents
      obtain ⟨ending, once, realized⟩ :=
        statement_performs effective tree respects.1 next start machine store represents
      change ∃ ending, _ ∧ Realizes _ (EStateM.bind first.1.run
        (fun _ => Statement.runAll others.1) machine) ending
      simp only [EStateM.bind]
      generalize first.1.run machine = outcome at realized ⊢
      cases realized with
      | @finished after middle reached =>
        obtain ⟨final, following, ended⟩ :=
          statements_perform effective rest respects.2 first.2 remaining after middle reached
        exact ⟨final, .next once following, ended⟩
      | stopped cause spent => exact ⟨_, .broken once, .stopped cause spent⟩

end

end Tree

/-- What a caller gets at the end: success and the buffer with the variables in its leading cells,
or the signal and the buffer as it was. -/
def Ending.answer (buffer : Array α) : Ending α → Except Halt Unit × Array α
  | finished store =>
    (.ok (), store.values.extract 0 buffer.size ++ buffer.extract store.values.size buffer.size)
  | stopped cause _ => (.error (.signal cause), buffer)

/-- The machine that an action leaves, whether it comes to an end or is stopped. -/
def Action.left {β : Type} : EStateM.Result Halt (Machine α) β → Machine α
  | .ok _ machine | .error _ machine => machine

/-- Executing a compiled tree from blank pages ends as its meaning says, and the loop budget that is
left is what the iterations that were started left. -/
theorem Executable.execute_adequate {effect : BasicBlock α → Array α → Array α}
    {law : BasicBlock α → Prop} {tree : Tree α} {config : MachineConfig} {instrumented : Bool}
    {program : Executable α} (accepted : tree.compile config instrumented = .ok program)
    (effective : Tree.Effective ⟨config, instrumented⟩ effect law)
    (respects : tree.Respects config.variableCount law) {pool : PagePool α} (blank : pool.Blank)
    (inputs buffer : Array α) (profile : Option TreeProfile) :
    ∃ ending, Executes config effect tree (Store.initial config inputs) ending ∧
      (program.execute inputs buffer pool profile).answer = ending.answer buffer ∧
      ending.started + (Action.left (program.root.run
        (program.start inputs pool profile))).remaining = config.loopBudget := by
  simp only [Tree.compile, Refusal.bind_ok_iff] at accepted
  obtain ⟨_, _, root, inside, same⟩ := accepted
  obtain rfl := Except.ok.inj same
  obtain ⟨ending, executes, realized⟩ :=
    Tree.statement_performs effective tree respects _ inside _ _
      (.start ⟨root.1, config, instrumented⟩ inputs blank profile)
  refine ⟨ending, executes, ?_⟩
  simp only [Executable.execute]
  generalize root.1.run _ = outcome at realized ⊢
  cases realized with
  | finished represents =>
    refine ⟨?_, represents.budget⟩
    simp only [Executable.Outcome.answer, Ending.answer, represents.values]
  | stopped cause spent => exact ⟨rfl, spent⟩

end ProgramSearch
