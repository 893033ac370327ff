import Mathlib.Data.List.Nodup
import ProgramSearch.Proofs.Number.Small
import ProgramSearch.Proofs.Program.Narration

/-!
# Instrumented runs

Instrumentation adds reports to a program and changes nothing else. The reports are exact. None is
made twice, because no evaluation begins twice; each names the block that was asked for and the slot
of a conditional, and its side is the one that the eager value of the condition selects. A run that
comes to an end has reported every conditional that the outputs need.

This is what allows a profile to be read as a count of runs: in every run a conditional adds at most
one to one of its sides.
-/

namespace ProgramSearch

variable {α : Type}

namespace Program

variable {nodes : Program α} {outputs : Nat} {mode : Mode} {program : Compiled α}

/-- In one invocation no evaluation begins twice. -/
theorem events_distinct (compiled : compile nodes outputs mode = .ok program) {events : List Event}
    (begun : ∀ slot, (Event.slots events).count slot ≤
      (program.steps.flatMap Expression.slots).count slot) : (Event.slots events).Nodup := by
  rw [List.nodup_iff_count_le_one]
  intro slot
  have placed := compiled_once compiled slot
  have began := begun slot
  split at placed <;> omega

/-- The slots of the conditionals in compiled code are distinct, also as numbers of sixteen bits. -/
theorem choices_distinct (compiled : compile nodes outputs mode = .ok program)
    (addressable : nodes.size ≤ 2 ^ 16) :
    ((program.steps.flatMap Expression.choices).map UInt16.ofNat).Nodup := by
  have placed : ∀ slot, (program.steps.flatMap Expression.choices).count slot ≤
      if slot < nodes.size then 1 else 0 := fun slot =>
    Nat.le_trans (Expression.all_choices_le program.steps slot) (compiled_once compiled slot)
  have bounded : ∀ slot ∈ program.steps.flatMap Expression.choices, slot < 2 ^ 16 := by
    intro slot member
    have present := List.count_pos_iff.mpr member
    have limited := placed slot
    split at limited <;> omega
  apply List.Nodup.map_on
  · intro first left second right same
    have numbers := congrArg UInt16.toNat same
    rwa [UInt16.toNat_ofNat_of_lt' (bounded first left),
      UInt16.toNat_ofNat_of_lt' (bounded second right)] at numbers
  · rw [List.nodup_iff_count_le_one]
    intro slot
    have limited := placed slot
    split at limited <;> omega

end Program

variable [Number α]

/-- A first part that settles on a value is followed by what comes after that value. -/
theorem Traced.Tells.bind_settled {β γ : Type} {allowed : Report → Prop} {first : Traced β}
    {next : β → Traced γ} {excused : Halt → Prop} {expected : β} (told : Tells allowed first)
    (settled : Settles excused expected first.result)
    (continued : Tells allowed (next expected)) : Tells allowed (first >>= next) :=
  told.bind fun value ended => by
    rw [ended] at settled
    obtain rfl : value = expected := settled
    exact continued

/-- A report is due when it names the block that the conditionals report for, the slot of a
conditional, and the side that the value of its condition selects. -/
def Program.Due (nodes : Program α) (mode : Program.Mode) (values : Nat → α) (report : Report) :
    Prop :=
  mode.profile = some report.branch.block ∧ ∃ slot x y cond,
    nodes.node? slot = some (.conditional x y cond) ∧
      report.branch.node = UInt16.ofNat slot ∧
      report.taken = Number.positive (values cond.toNat)

section Evaluation

variable {nodes : Program α} {mode : Program.Mode} {slots : List Nat} {values : Nat → α}
  {inputs temporaries : Array α}

/-- Evaluating an expression makes reports that are due.

The induction follows the expression. A conditional only reports after its condition came to an end,
and then with the value that the valuation gives to it. -/
theorem Expression.Unfolds.evaluate_tells {expression : Expression α} {slot : Nat}
    (unfolds : expression.Unfolds nodes mode slots slot) (explained : nodes.Explains inputs values)
    (covered : nodes.Covered inputs)
    (filled : ∀ index slot : Nat, slots[index]? = some slot →
      temporaries[index]? = some (values slot)) :
    (expression.evaluate ⟨inputs, temporaries⟩).Tells (nodes.Due mode values) := by
  induction unfolds with
  | value leads => exact .of_result _
  | binary held computesLeft computesRight left right =>
    refine left.bind_settled (computesLeft.evaluate_settles explained covered filled)
      (right.bind_settled (computesRight.evaluate_settles explained covered filled) ?_)
    unfold Expression.operate
    split <;> exact .of_result _
  | @conditional slot x y cond first second condition held _ _ decides onPositive onOther decided =>
    rw [Expression.evaluate_conditional]
    refine decided.bind_settled (decides.evaluate_settles explained covered filled) ?_
    have silent : Settles (fun _ => False) () (Expression.reportIf slot mode.profile
        (Number.positive (values cond.toNat))).result := by
      cases mode.profile <;> exact rfl
    refine Traced.Tells.bind_settled ?_ silent ?_
    · intro report told
      cases instrumented : mode.profile with
      | none =>
        rw [instrumented] at told
        cases told
      | some block =>
        rw [instrumented] at told
        obtain rfl := List.mem_singleton.mp told
        exact ⟨instrumented, slot, x, y, cond, held, rfl, rfl⟩
    · split
      · exact onPositive
      · exact onOther
  | guarded held _ decides continued decided =>
    refine decided.bind_settled (decides.evaluate_settles explained covered filled) ?_
    split
    · exact continued
    · exact .of_result _

/-- Filling temporaries makes reports that are due. -/
theorem Expression.Fills.fill_tells {filled : List Nat} {steps : List (Expression α)}
    (fills : Expression.Fills nodes mode filled steps slots)
    (explained : nodes.Explains inputs values) (covered : nodes.Covered inputs) :
    (Compiled.fill inputs steps (filled.map values).toArray).Tells (nodes.Due mode values) := by
  induction fills with
  | done => exact .of_result _
  | @next filled slots slot step steps unfolds _ inductionHypothesis =>
    have read : ∀ index slot : Nat, filled[index]? = some slot →
        (filled.map values).toArray[index]? = some (values slot) := by
      intro index slot listed
      simp [listed]
    refine (unfolds.evaluate_tells explained covered read).bind_settled
      (unfolds.evaluate_settles explained covered read) ?_
    simpa using inductionHypothesis

end Evaluation

namespace Program

variable {nodes : Program α} {outputs : Nat} {mode other : Mode} {program : Compiled α}

/-- All reports of a run are due under the eager values. -/
theorem reports_due (compiled : compile nodes outputs mode = .ok program) {inputs : Array α}
    (sufficient : program.arity ≤ inputs.size) (buffer : Array α) :
    (program.run inputs buffer).Tells (nodes.Due mode (eager inputs nodes)) := by
  obtain ⟨ready, slots, linked⟩ := linked_of_compile compiled
  have covered : Covered nodes inputs := fun slot parameter held =>
    Nat.lt_of_lt_of_le (linked.covers slot parameter held) sufficient
  rw [Traced.Tells, Compiled.run_reports]
  exact linked.fills.fill_tells (eager_explains inputs nodes ready.valid) covered

/-- A run that comes to an end has made every report that the outputs need. -/
theorem reports_made (compiled : compile nodes outputs mode = .ok program) {block : Nat}
    (instrumented : mode.profile = some block) {inputs buffer results : Array α}
    (sufficient : program.arity ≤ inputs.size)
    (ended : (program.run inputs buffer).result = .ok results) {slot : Nat} {x y cond : UInt16}
    (reached : Reached nodes outputs (eager inputs nodes) slot)
    (held : node? nodes slot = some (.conditional x y cond)) :
    ⟨⟨block, UInt16.ofNat slot⟩, Number.positive (eager inputs nodes cond.toNat)⟩ ∈
      (program.run inputs buffer).reports := by
  obtain ⟨ready, slots, linked⟩ := linked_of_compile compiled
  have covered : Covered nodes inputs := fun slot parameter held =>
    Nat.lt_of_lt_of_le (linked.covers slot parameter held) sufficient
  have passed := reached.passed (linked.run_passes ready.enough
    (eager_explains inputs nodes ready.valid) covered ended fun _ told => told)
  exact (passed_inversion passed held).1 block instrumented

/-- Instrumentation does not matter for what a call does to the buffer of its caller. -/
theorem call_alike {instrumented : Compiled α}
    (compiled : compile nodes outputs mode = .ok program)
    (instruments : compile nodes outputs other = .ok instrumented)
    (alike : mode.checked = other.checked) (inputs buffer : Array α) :
    instrumented.call inputs buffer = program.call inputs buffer := by
  obtain rfl := Except.ok.inj (instruments.symm.trans (compile_in_mode compiled other))
  have same := Except.ok.inj (compiled.symm.trans (compile_in_mode compiled mode))
  have filled : (Compiled.fill inputs program.steps #[]).result =
      (Compiled.fill inputs (program.inMode other).steps #[]).result := by
    rw [congrArg Compiled.steps same]
    exact Compiled.fill_alike alike inputs program.steps #[]
  simp only [Compiled.call, ← filled]
  rfl

/-- Instrumentation is exact and invisible. Compiled with a profile, a program does what it does
without one, whoever listens or whether anyone does: it comes to the same result and leaves the same
values in the buffer of its caller, and a listener only makes something of the events. No evaluation
begins twice in an invocation, and so no conditional is reported twice. Every report names the block
asked for and the slot of a conditional, with the side that its condition selects in eager
evaluation. When the run comes to an end, every conditional that the outputs need has been
reported. -/
theorem instrumentation_exact_and_invisible (nodes : Program α) (outputs block : Nat)
    (checked : Bool) (program : Compiled α) (addressable : nodes.size ≤ 2 ^ 16)
    (compiled : compile nodes outputs { checked, profile := none } = .ok program) :
    ∃ instrumented, compile nodes outputs { checked, profile := some block } = .ok instrumented ∧
      instrumented.arity = program.arity ∧
      ∀ inputs buffer, program.arity ≤ inputs.size →
        (instrumented.run inputs buffer).result = (program.run inputs buffer).result ∧
        (∃ events : List Event,
          (∀ (σ : Type) (hear : σ → Event → σ) (start : σ),
            instrumented.invoke inputs buffer hear start =
              (program.call inputs buffer, events.foldl hear start)) ∧
          Event.reports events = (instrumented.run inputs buffer).reports ∧
          (Event.slots events).Nodup) ∧
        ((instrumented.run inputs buffer).reports.map Report.branch).Nodup ∧
        (∀ report ∈ (instrumented.run inputs buffer).reports,
          report.branch.block = block ∧ ∃ x y cond,
            node? nodes report.branch.node.toNat = some (.conditional x y cond) ∧
            report.taken = Number.positive (eager inputs nodes cond.toNat)) ∧
        ∀ results, (instrumented.run inputs buffer).result = .ok results →
          ∀ slot x y cond, Reached nodes outputs (eager inputs nodes) slot →
            node? nodes slot = some (.conditional x y cond) →
            ⟨⟨block, UInt16.ofNat slot⟩, Number.positive (eager inputs nodes cond.toNat)⟩ ∈
              (instrumented.run inputs buffer).reports := by
  have instruments := compile_in_mode compiled { checked, profile := some block }
  refine ⟨_, instruments, rfl, fun inputs buffer sufficient => ?_⟩
  obtain ⟨events, heard, made, begun, chosen⟩ :=
    (program.inMode { checked, profile := some block }).invocation_narrated inputs buffer
  have same := call_alike compiled instruments rfl inputs buffer
  refine ⟨(run_alike compiled instruments rfl inputs buffer).symm,
    ⟨events, fun σ hear start => same ▸ heard σ hear start, made,
      events_distinct instruments begun⟩, ?_, ?_, ?_⟩
  · rw [List.nodup_iff_count_le_one]
    intro branch
    calc _ ≤ _ := List.count_le_count_map (f := Branch.node)
      _ ≤ _ := by
        rw [List.map_map]
        exact chosen branch.node
      _ ≤ 1 := List.nodup_iff_count_le_one.mp (choices_distinct instruments addressable) _
  · intro report told
    obtain ⟨named, slot, x, y, cond, held, own, side⟩ :=
      reports_due instruments sufficient buffer report told
    have exact : report.branch.node.toNat = slot := by
      rw [own]
      exact UInt16.toNat_ofNat_of_lt'
        (Nat.lt_of_lt_of_le (node_bound nodes slot _ held) addressable)
    exact ⟨(Option.some.inj named).symm, x, y, cond, exact ▸ held, side⟩
  · intro results ended slot x y cond reached held
    exact reports_made instruments rfl sufficient ended reached held

/-- The first conditional is read twice, and only one side of the second one needs it. -/
def nested : Program Small :=
  #[some (.argument 0), some (.argument 1), some (.conditional 0 1 1), some (.binary .add 2 2),
    some (.conditional 3 0 0)]

/-- The outputs need both conditionals. Each of them reports its positive side once, for the block
asked for, and the result is the one without reports. -/
theorem nested_reported :
    ∃ program instrumented,
      nested.size ≤ 2 ^ 16 ∧
      compile nested 1 { checked := true, profile := none } = .ok program ∧
      compile nested 1 { checked := true, profile := some 7 } = .ok instrumented ∧
      program.arity ≤ #[Small.ofInt 2, Small.ofInt 1].size ∧
      (program.run #[Small.ofInt 2, Small.ofInt 1] #[.undefined]).result =
        .ok #[Small.ofInt 4] ∧
      (instrumented.run #[Small.ofInt 2, Small.ofInt 1] #[.undefined]).result =
        .ok #[Small.ofInt 4] ∧
      ⟨⟨7, 4⟩, true⟩ ∈
        (instrumented.run #[Small.ofInt 2, Small.ofInt 1] #[.undefined]).reports ∧
      ⟨⟨7, 2⟩, true⟩ ∈
        (instrumented.run #[Small.ofInt 2, Small.ofInt 1] #[.undefined]).reports ∧
      ((instrumented.run #[Small.ofInt 2, Small.ofInt 1] #[.undefined]).reports.map
        Report.branch).Nodup := by
  obtain ⟨program, compiled, arity, ended⟩ : ∃ program,
      compile nested 1 { checked := true, profile := none } = .ok program ∧
        program.arity = 2 ∧
        (program.run #[Small.ofInt 2, Small.ofInt 1] #[.undefined]).result =
          .ok #[Small.ofInt 4] := ⟨_, rfl, rfl, rfl⟩
  have addressable : nested.size ≤ 2 ^ 16 := by decide
  have sufficient : program.arity ≤ #[Small.ofInt 2, Small.ofInt 1].size := Nat.le_of_eq arity
  obtain ⟨instrumented, instruments, _, exact⟩ :=
    instrumentation_exact_and_invisible nested 1 7 true program addressable compiled
  obtain ⟨same, _, once, _, made⟩ := exact _ #[.undefined] sufficient
  have last : Reached nested 1 (eager #[Small.ofInt 2, Small.ofInt 1] nested) 4 :=
    .output (by decide) (by decide)
  have sum : Reached nested 1 (eager #[Small.ofInt 2, Small.ofInt 1] nested)
      (3 : UInt16).toNat := last.operand rfl (by decide +kernel)
  have first : Reached nested 1 (eager #[Small.ofInt 2, Small.ofInt 1] nested)
      (2 : UInt16).toNat := sum.operand rfl (by decide +kernel)
  exact ⟨program, instrumented, addressable, compiled, instruments, sufficient, ended,
    same.trans ended, made _ (same.trans ended) 4 3 0 0 last rfl,
    made _ (same.trans ended) 2 0 1 1 first rfl, once⟩

end Program

end ProgramSearch
