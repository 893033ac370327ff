import ProgramSearch.Proofs.Training.Invocation

/-!
# The passes of an evaluation

An evaluation profiles a program in passes. A pass that is stopped by an invalid operation is thrown
away, with its scores and its observations, and the next pass starts over on the repaired program.
The relations below keep all passes in order, with every trial that was graded and every report that
was made, so that it can be said which of them a score and a commit are made from: those of the last
pass.

There are never more repairs than are permitted. The last pass either had all its trials, or was
stopped when nothing was left to be tried, and then the program is not committed.

An evaluation has a score if the program has no more slots than there are addresses, reads only
inputs that the data source provides, and is compiled; it is refused for the fault of a program that
is not compiled. Nothing compares what a program reads with the data source, and where an input is
missing, the evaluation breaks off.
-/

namespace ProgramSearch

variable {α : Type}

/-- A trial with its inputs and its score. -/
structure Graded (α : Type) where
  inputs : Array α
  score : α

/-- A profiling pass over a program: the trials that were graded, the branches that these reported,
and the signal that stopped the pass, if one did. -/
structure Pass (α : Type) where
  nodes : Program α
  trials : List (Graded α)
  reports : List Report
  stopped : Option Signal

/-- What a pass has observed. -/
def Pass.observations (pass : Pass α) (threshold : Nat) : Observations :=
  pass.reports.foldl Observations.record (Observations.new threshold)

/-- Twice a machine word does not wrap around below `2 ^ 63`. -/
theorem twice_below {remove : UInt64} (below : remove.toNat < 2 ^ 63) :
    (2 * remove).toNat = 2 * remove.toNat := by
  rw [UInt64.toNat_mul]
  exact Nat.mod_eq_of_lt (by simp; omega)

/-- A valid schedule has more trials than a score needs to have some left when outliers are
removed. -/
theorem TrainingSchedule.keeps_trials {schedule : TrainingSchedule}
    (validated : schedule.validate = .ok ()) :
    (2 * schedule.removeOutliers).toNat < schedule.profilingRuns + schedule.heavyRuns := by
  rw [validate] at validated
  split at validated
  · cases validated
  split at validated
  · cases validated
  split at validated
  · cases validated
  · rename_i kept
    have counted : schedule.totalRuns.toNat ≤ schedule.profilingRuns + schedule.heavyRuns := by
      simp only [totalRuns, UInt64.toNat_add, UInt64.toNat_ofNat']
      omega
    exact Nat.lt_of_lt_of_le (UInt64.not_le.mp kept) counted

namespace ScalarTrainer

variable [Number α]

section Runs

variable (trainer : ScalarTrainer α)

/-- Trials of a compiled program that are all graded, one after another. Every trial fills the
buffer that the one before it leaves. -/
inductive ProfilingRuns (program : Compiled α) :
    Array α → Stream → List (Graded α) → List Report → Array α → Stream → Prop where
  | done {inputs : Array α} {stream : Stream} :
      ProfilingRuns program inputs stream [] [] inputs stream
  | graded {inputs filled last outputs : Array α} {score : α} {trials : List (Graded α)}
      {reports : List Report} {stream later rest : Stream} :
      trainer.data.fill inputs stream = .ok filled later →
      (program.run filled outputBuffer).result = .ok outputs →
      trainer.reward filled (outputs.getD 0 Number.zero) = some score →
      ProfilingRuns program filled later trials reports last rest →
      ProfilingRuns program inputs stream (⟨filled, score⟩ :: trials)
        ((program.run filled outputBuffer).reports ++ reports) last rest

/-- A pass runs trials of the checked program, all that are wanted or as many as there are before a
signal stops one. -/
inductive RunsPass : Pass α → Stream → Stream → Prop where
  | complete {nodes : Program α} {program : Compiled α} {trials : List (Graded α)}
      {reports : List Report} {last : Array α} {stream rest : Stream} :
      nodes.compile 1 { checked := true, profile := some 0 } = .ok program →
      trainer.ProfilingRuns program trainer.blankInputs stream trials reports last rest →
      trials.length = trainer.config.schedule.profilingRuns →
      RunsPass ⟨nodes, trials, reports, none⟩ stream rest
  | stopped {nodes : Program α} {program : Compiled α} {trials : List (Graded α)}
      {reports : List Report} {last filled : Array α} {cause : Signal}
      {stream later rest : Stream} :
      nodes.compile 1 { checked := true, profile := some 0 } = .ok program →
      trainer.ProfilingRuns program trainer.blankInputs stream trials reports last later →
      trials.length < trainer.config.schedule.profilingRuns →
      trainer.data.fill last later = .ok filled rest →
      (program.run filled outputBuffer).result = .error (.signal cause) →
      RunsPass ⟨nodes, trials, reports, some cause⟩ stream rest

/-- Passes with repairs between them. Every pass but the last one is stopped by an invalid
operation; the blamed node is replaced, and the next pass is over the program that is cleaned after
that. -/
inductive Passes : Program α → Stream → List (Pass α) → Pass α → Stream → Prop where
  | last {pass : Pass α} {stream rest : Stream} :
      trainer.RunsPass pass stream rest → Passes pass.nodes stream [] pass rest
  | repaired {pass last : Pass α} {blamed : UInt16} {regrown cleaned : Program α}
      {earlier : List (Pass α)} {stream stopped later begins rest : Stream} :
      trainer.RunsPass pass stream stopped → pass.stopped = some (.invalidOperation blamed) →
      pass.nodes.regenerate [blamed.toNat] stopped = .ok regrown later →
      trainer.clean regrown later = .ok cleaned begins →
      Passes cleaned begins earlier last rest →
      Passes pass.nodes stream (pass :: earlier) last rest

/-- Heavy runs of a speculative program. A run that is stopped has the worst score. -/
inductive HeavyRuns (program : Tiered α) :
    Array α → Stream → List (Graded α) → Stream → Prop where
  | done {inputs : Array α} {stream : Stream} : HeavyRuns program inputs stream [] stream
  | graded {inputs filled outputs : Array α} {score : α} {trials : List (Graded α)}
      {stream later rest : Stream} :
      trainer.data.fill inputs stream = .ok filled later →
      program.run filled outputBuffer = .ok outputs →
      trainer.reward filled (outputs.getD 0 Number.zero) = some score →
      HeavyRuns program filled later trials rest →
      HeavyRuns program inputs stream (⟨filled, score⟩ :: trials) rest
  | stopped {inputs filled : Array α} {cause : Signal} {trials : List (Graded α)}
      {stream later rest : Stream} :
      trainer.data.fill inputs stream = .ok filled later →
      program.run filled outputBuffer = .error (.signal cause) →
      HeavyRuns program filled later trials rest →
      HeavyRuns program inputs stream (⟨filled, Number.negativeInfinity⟩ :: trials) rest

/-- What a scored candidate comes from: a pass, whose observations alone decide what is committed,
and heavy runs of what is committed. The trials of both are added up. -/
structure Specializes (pass : Pass α) (stream : Stream) (heavy : List (Graded α))
    (candidate : Candidate (Program α) α) (rest : Stream) : Prop where
  committed : candidate.program =
    ((pass.nodes.prune trainer.config.arguments
      (pass.observations trainer.config.schedule.speculationThreshold).seen false).1.optimize
        trainer.config.outputsStart).nodes
  ran : ∃ program, Tiered.compile
      (trainer.speculative? (pass.observations trainer.config.schedule.speculationThreshold)
        candidate.program) candidate.program 1 = .ok program ∧
    trainer.HeavyRuns program trainer.blankInputs stream heavy rest
  score : candidate.score =
    trimmedSum ((pass.trials ++ heavy).map Graded.score) trainer.config.schedule.removeOutliers

end Runs

/-- The last pass was stopped and there is nothing left to be tried: a guard bailed out, or an
invalid operation was met and all repairs are used up. -/
def GivenUp (repairs : Nat) (earlier : List (Pass α)) (last : Pass α) : Prop :=
  last.stopped = some .bailout ∨
    (∃ blamed, last.stopped = some (.invalidOperation blamed)) ∧ earlier.length = repairs

section Reading

variable {trainer : ScalarTrainer α} {nodes : Program α} {inputs : Array α} {stream rest : Stream}

/-- An output is judged where the reward has a score for it. -/
theorem judge_drawn {outputs : Array α} {score : α}
    (judged : trainer.judge inputs outputs stream = .ok score rest) :
    trainer.reward inputs (outputs.getD 0 Number.zero) = some score ∧ stream = rest := by
  rw [judge] at judged
  cases rewarded : trainer.reward inputs (outputs.getD 0 Number.zero) with
  | some given =>
    rw [rewarded] at judged
    cases judged
    exact ⟨rfl, rfl⟩
  | none =>
    rw [rewarded] at judged
    cases judged

/-- A profiling pass goes through graded trials. It has had all of them, or the next one was
stopped.

The induction is on the runs that are left. -/
theorem profile_runs {program : Compiled α} (runs : Nat) {before observations : Observations}
    {scores : List α} {outcome : Except Signal (List α)}
    (drawn : trainer.profile program runs inputs before scores stream =
      .ok (observations, outcome) rest) :
    ∃ trials reports last later,
      trainer.ProfilingRuns program inputs stream trials reports last later ∧
      (trials.length = runs ∧ later = rest ∧
          observations = reports.foldl Observations.record before ∧
          outcome = .ok (scores.reverse ++ trials.map Graded.score) ∨
        trials.length < runs ∧ ∃ filled cause, trainer.data.fill last later = .ok filled rest ∧
          (program.run filled outputBuffer).result = .error (.signal cause) ∧
          outcome = .error cause) := by
  induction runs generalizing inputs before scores stream with
  | zero =>
    cases drawn
    exact ⟨[], [], inputs, rest, .done, .inl ⟨rfl, rfl, rfl, by simp⟩⟩
  | succ runs inductionHypothesis =>
    rw [profile, Draw.bind_drawn_iff] at drawn
    obtain ⟨filled, later, fills, drawn⟩ := drawn
    cases ran : (program.run filled outputBuffer).result with
    | ok outputs =>
      simp only [ran] at drawn
      obtain ⟨score, current, judged, drawn⟩ := (Draw.bind_drawn_iff _).mp drawn
      obtain ⟨scored, rfl⟩ := judge_drawn judged
      obtain ⟨trials, reports, last, final, graded, ending⟩ := inductionHypothesis drawn
      refine ⟨_, _, last, final, .graded fills ran scored graded, ?_⟩
      rcases ending with ⟨all, same, observed, result⟩ | ⟨fewer, ending⟩
      · refine .inl ⟨congrArg (· + 1) all, same, ?_, ?_⟩
        · rw [observed, List.foldl_append]
        · rw [result]
          simp
      · exact .inr ⟨Nat.succ_lt_succ fewer, ending⟩
    | error halt =>
      simp only [ran] at drawn
      cases halt with
      | signal cause =>
        cases drawn
        exact ⟨[], [], inputs, stream, .done,
          .inr ⟨Nat.succ_pos runs, filled, cause, fills, ran, rfl⟩⟩
      | missingInput => cases drawn

/-- A profiling pass over a checked program starts from nothing. What it finds is what its trials
report and score. A signal that stops it is a bailout or an invalid operation. -/
theorem profile_pass {program : Compiled α}
    (compiled : nodes.compile 1 { checked := true, profile := some 0 } = .ok program)
    {observations : Observations} {outcome : Except Signal (List α)}
    (drawn : trainer.profile program trainer.config.schedule.profilingRuns trainer.blankInputs
      (Observations.new trainer.config.schedule.speculationThreshold) [] stream =
        .ok (observations, outcome) rest) :
    ∃ pass, pass.nodes = nodes ∧ trainer.RunsPass pass stream rest ∧
      (pass.stopped = none ∧
          observations = pass.observations trainer.config.schedule.speculationThreshold ∧
          outcome = .ok (pass.trials.map Graded.score) ∨
        ∃ cause, pass.stopped = some cause ∧ outcome = .error cause ∧
          (cause = .bailout ∨ ∃ blamed, cause = .invalidOperation blamed)) := by
  obtain ⟨trials, reports, last, later, runs, ending⟩ := profile_runs _ drawn
  rcases ending with ⟨all, rfl, observed, result⟩ | ⟨fewer, filled, cause, fills, ran, result⟩
  · exact ⟨⟨nodes, trials, reports, none⟩, rfl, .complete compiled runs all,
      .inl ⟨rfl, observed, result⟩⟩
  · refine ⟨⟨nodes, trials, reports, some cause⟩, rfl, .stopped compiled runs fewer fills ran,
      .inr ⟨cause, rfl, result, ?_⟩⟩
    obtain ⟨_, _, linked⟩ := Program.linked_of_compile compiled
    cases linked.run_stops filled outputBuffer _ ran with
    | bailout => exact .inl rfl
    | operator => exact .inr ⟨_, rfl⟩

/-- Profiling begins with one pass. It is over when that pass had all its trials, and when the pass
is given up; otherwise one repair is used up and profiling goes on with the repaired program. -/
theorem profile_repairing_step {repairs : Nat} {profiled : Profiled α}
    (drawn : trainer.profileRepairing repairs nodes stream = .ok profiled rest) :
    ∃ pass later, pass.nodes = nodes ∧ trainer.RunsPass pass stream later ∧
      (later = rest ∧ pass.stopped = none ∧ profiled = .complete pass.nodes
          (pass.observations trainer.config.schedule.speculationThreshold)
          (pass.trials.map Graded.score) ∨
        later = rest ∧ GivenUp repairs [] pass ∧ profiled = .rejected pass.nodes ∨
        ∃ fewer blamed regrown middle cleaned begins, repairs = fewer + 1 ∧
          pass.stopped = some (.invalidOperation blamed) ∧
          pass.nodes.regenerate [blamed.toNat] later = .ok regrown middle ∧
          trainer.clean regrown middle = .ok cleaned begins ∧
          trainer.profileRepairing fewer cleaned begins = .ok profiled rest) := by
  rw [profileRepairing, Draw.bind_drawn_iff] at drawn
  obtain ⟨program, current, answered, drawn⟩ := drawn
  obtain ⟨compiled, rfl⟩ := Draw.of_except_drawn answered
  obtain ⟨⟨observations, outcome⟩, later, found, drawn⟩ := (Draw.bind_drawn_iff _).mp drawn
  obtain ⟨pass, rfl, runs, ⟨unstopped, rfl, rfl⟩ | ⟨cause, stopped, rfl, kind⟩⟩ :=
    profile_pass compiled found
  · cases drawn
    exact ⟨pass, _, rfl, runs, .inl ⟨rfl, unstopped, rfl⟩⟩
  · obtain rfl | ⟨blamed, rfl⟩ := kind
    · cases drawn
      exact ⟨pass, _, rfl, runs, .inr (.inl ⟨rfl, .inl stopped, rfl⟩)⟩
    · cases repairs with
      | zero =>
        cases drawn
        exact ⟨pass, _, rfl, runs, .inr (.inl ⟨rfl, .inr ⟨⟨blamed, stopped⟩, rfl⟩, rfl⟩)⟩
      | succ fewer =>
        obtain ⟨regrown, middle, regenerated, drawn⟩ := (Draw.bind_drawn_iff _).mp drawn
        obtain ⟨cleaned, begins, cleans, drawn⟩ := (Draw.bind_drawn_iff _).mp drawn
        exact ⟨pass, later, rfl, runs, .inr (.inr ⟨fewer, blamed, regrown, middle, cleaned, begins,
          rfl, stopped, regenerated, cleans, drawn⟩)⟩

/-- Profiling with repairs goes through passes, with no more repairs between them than are
permitted. It finds what the last pass did, if that had all its trials, and otherwise gives up.

The induction is on the repairs that are left. -/
theorem profile_repairing_passes (repairs : Nat) {profiled : Profiled α}
    (drawn : trainer.profileRepairing repairs nodes stream = .ok profiled rest) :
    ∃ earlier last, trainer.Passes nodes stream earlier last rest ∧ earlier.length ≤ repairs ∧
      (last.stopped = none ∧ profiled = .complete last.nodes
          (last.observations trainer.config.schedule.speculationThreshold)
          (last.trials.map Graded.score) ∨
        GivenUp repairs earlier last ∧ profiled = .rejected last.nodes) := by
  induction repairs generalizing nodes stream with
  | zero =>
    obtain ⟨pass, later, rfl, runs, ending⟩ := profile_repairing_step drawn
    rcases ending with ⟨rfl, complete⟩ | ⟨rfl, stopped⟩ | ⟨fewer, _, _, _, _, _, ⟨⟩, _⟩
    · exact ⟨[], pass, .last runs, Nat.le_refl 0, .inl complete⟩
    · exact ⟨[], pass, .last runs, Nat.le_refl 0, .inr stopped⟩
  | succ repairs inductionHypothesis =>
    obtain ⟨pass, later, rfl, runs, ending⟩ := profile_repairing_step drawn
    rcases ending with ⟨rfl, complete⟩ | ⟨rfl, stopped, rejected⟩ |
      ⟨_, blamed, regrown, middle, cleaned, begins, ⟨⟩, stopped, regenerated, cleans, drawn⟩
    · exact ⟨[], pass, .last runs, Nat.zero_le _, .inl complete⟩
    · exact ⟨[], pass, .last runs, Nat.zero_le _, .inr ⟨stopped, rejected⟩⟩
    · obtain ⟨earlier, last, passes, fewer, ending⟩ := inductionHypothesis drawn
      refine ⟨pass :: earlier, last, .repaired runs stopped regenerated cleans passes,
        Nat.succ_le_succ fewer, ?_⟩
      rcases ending with complete | ⟨bailed | ⟨invalid, all⟩, rejected⟩
      · exact .inl complete
      · exact .inr ⟨.inl bailed, rejected⟩
      · exact .inr ⟨.inr ⟨invalid, congrArg (· + 1) all⟩, rejected⟩

/-- Heavy runs are run one after another, and each of them is scored. -/
theorem heavy_runs {program : Tiered α} (runs : Nat) {scores final : List α}
    (drawn : trainer.heavy program runs inputs scores stream = .ok final rest) :
    ∃ trials, trainer.HeavyRuns program inputs stream trials rest ∧ trials.length = runs ∧
      final = scores.reverse ++ trials.map Graded.score := by
  induction runs generalizing inputs scores stream with
  | zero =>
    cases drawn
    exact ⟨[], .done, rfl, by simp⟩
  | succ runs inductionHypothesis =>
    rw [heavy, Draw.bind_drawn_iff] at drawn
    obtain ⟨filled, later, fills, drawn⟩ := drawn
    cases ran : program.run filled outputBuffer with
    | ok outputs =>
      simp only [ran] at drawn
      obtain ⟨score, current, judged, drawn⟩ := (Draw.bind_drawn_iff _).mp drawn
      obtain ⟨scored, rfl⟩ := judge_drawn judged
      obtain ⟨trials, graded, all, rfl⟩ := inductionHypothesis drawn
      exact ⟨_, .graded fills ran scored graded, congrArg (· + 1) all, by simp⟩
    | error halt =>
      simp only [ran] at drawn
      cases halt with
      | signal cause =>
        obtain ⟨trials, graded, all, rfl⟩ := inductionHypothesis drawn
        exact ⟨_, .stopped fills ran graded, congrArg (· + 1) all, by simp⟩
      | missingInput => cases drawn

/-- An evaluation goes through its passes. If the last one was stopped, then the program of that
pass is given up as it is. Otherwise it is specialized for what that pass observed and scored by the
trials of that pass and by heavy runs. -/
theorem evaluate_passes {candidate : Candidate (Program α) α}
    (drawn : trainer.evaluate nodes stream = .ok candidate rest) :
    ∃ cleaned begins earlier last ends, trainer.clean nodes stream = .ok cleaned begins ∧
      trainer.Passes cleaned begins earlier last ends ∧
      earlier.length ≤ trainer.config.maxRepairs ∧
      (GivenUp trainer.config.maxRepairs earlier last ∧
          candidate = ⟨last.nodes, Number.negativeInfinity⟩ ∧ rest = ends ∨
        last.stopped = none ∧ ∃ heavy, heavy.length = trainer.config.schedule.heavyRuns ∧
          trainer.Specializes last ends heavy candidate rest) := by
  rw [evaluate, Draw.bind_drawn_iff] at drawn
  obtain ⟨cleaned, begins, cleans, drawn⟩ := drawn
  obtain ⟨profiled, ends, profiles, drawn⟩ := (Draw.bind_drawn_iff _).mp drawn
  obtain ⟨earlier, last, passes, fewer, ⟨unstopped, rfl⟩ | ⟨stopped, rfl⟩⟩ :=
    profile_repairing_passes _ profiles
  · refine ⟨cleaned, begins, earlier, last, ends, cleans, passes, fewer, .inr ⟨unstopped, ?_⟩⟩
    simp only [specialize, Draw.bind_drawn_iff] at drawn
    obtain ⟨program, current, answered, heavyScores, final, graded, drawn⟩ := drawn
    obtain ⟨compiled, rfl⟩ := Draw.of_except_drawn answered
    cases drawn
    obtain ⟨heavy, runs, all, rfl⟩ := heavy_runs _ graded
    exact ⟨heavy, all, rfl, ⟨program, compiled, runs⟩, by simp⟩
  · cases drawn
    exact ⟨cleaned, begins, earlier, last, rest, cleans, passes, fewer, .inl ⟨stopped, rfl, rfl⟩⟩

end Reading

/-- All trials of a pass that is not stopped are graded. -/
theorem Passes.all_trials {trainer : ScalarTrainer α} {nodes : Program α} {stream rest : Stream}
    {earlier : List (Pass α)} {last : Pass α}
    (passes : trainer.Passes nodes stream earlier last rest) (unstopped : last.stopped = none) :
    last.trials.length = trainer.config.schedule.profilingRuns := by
  induction passes with
  | last runs =>
    cases runs with
    | complete compiled runs all => exact all
    | stopped => cases unstopped
  | repaired _ _ _ _ _ inductionHypothesis => exact inductionHypothesis unstopped

/-- A failure that is the fault for which a program is not compiled: a valid one of the configured
length that only reads inputs that are provided. -/
def Uncompiled (trainer : ScalarTrainer α) (failure : Failure) : Prop :=
  ∃ (nodes : Program α) (mode : Program.Mode) (cause : Fault),
    Program.Fed trainer.data.arguments trainer.config.complexity nodes ∧
      nodes.compile 1 mode = .error cause ∧ failure = .fault cause

/-- An evaluation never mixes programs. It makes one pass more than there are repairs permitted at
most. If the last pass is stopped, then by a bailout or, once all repairs are used up, by an invalid
operation, and the program of that pass has the worst score and is not committed. Otherwise all
wanted trials of that pass and all heavy runs are added up, where trials are left when the outliers
are removed, and what is committed is decided by the observations of that pass. Twice the number of
outliers is a machine word, and below `2 ^ 63` it does not wrap around.

An evaluation of a valid program of the configured length has a result, unless a program is not
compiled, if the arguments of the program are inputs that the data source provides, all slots have
an address, and neither the data source nor the reward breaks off. -/
theorem evaluation_scores_last_pass (trainer : ScalarTrainer α)
    (validated : trainer.config.validate = .ok ()) (nodes : Program α) (stream : Stream) :
    (∀ candidate rest, trainer.evaluate nodes stream = .ok candidate rest →
      ∃ cleaned begins earlier last ends, trainer.clean nodes stream = .ok cleaned begins ∧
        trainer.Passes cleaned begins earlier last ends ∧
        (earlier ++ [last]).length ≤ trainer.config.maxRepairs + 1 ∧
        (last.stopped ≠ none → GivenUp trainer.config.maxRepairs earlier last ∧
          candidate = ⟨last.nodes, Number.negativeInfinity⟩ ∧ rest = ends) ∧
        (last.stopped = none →
          last.trials.length = trainer.config.schedule.profilingRuns ∧
          ∃ heavy, heavy.length = trainer.config.schedule.heavyRuns ∧
            trainer.Specializes last ends heavy candidate rest ∧
            (2 * trainer.config.schedule.removeOutliers).toNat < (last.trials ++ heavy).length ∧
            (trainer.config.schedule.removeOutliers.toNat < 2 ^ 63 →
              2 * trainer.config.schedule.removeOutliers.toNat <
                (last.trials ++ heavy).length))) ∧
    (Program.Fed trainer.data.arguments trainer.config.complexity nodes →
      trainer.config.complexity ≤ Node.slotLimit → trainer.Fills →
      (∀ inputs, Draw.Ensures (fun _ => False) (fun _ => True) (trainer.data.fill inputs)) →
      (∀ inputs output, trainer.reward inputs output ≠ none) →
        ∃ rest, (∃ candidate, trainer.evaluate nodes stream = .ok candidate rest) ∨
          ∃ failure, trainer.evaluate nodes stream = .error failure rest ∧
            trainer.Uncompiled failure) := by
  constructor
  · intro candidate rest drawn
    obtain ⟨cleaned, begins, earlier, last, ends, cleans, passes, fewer, ending⟩ :=
      evaluate_passes drawn
    refine ⟨cleaned, begins, earlier, last, ends, cleans, passes, ?_, ?_, ?_⟩
    · rw [List.length_append]
      exact Nat.succ_le_succ fewer
    · intro stopped
      rcases ending with ending | ⟨unstopped, _⟩
      · exact ending
      · exact absurd unstopped stopped
    · intro unstopped
      rcases ending with ⟨bailed | ⟨⟨blamed, invalid⟩, _⟩, _⟩ | ⟨_, heavy, all, specializes⟩
      · exact absurd (unstopped.symm.trans bailed) nofun
      · exact absurd (unstopped.symm.trans invalid) nofun
      · have every := passes.all_trials unstopped
        rw [ScalarConfig.validate, Refusal.check_ok_iff] at validated
        have kept := TrainingSchedule.keeps_trials validated.1
        rw [← all, ← every, ← List.length_append] at kept
        refine ⟨every, heavy, all, specializes, kept, fun below => ?_⟩
        rwa [twice_below below] at kept
  · intro fed addressable fills total grades
    have keeps : ∀ inputs, Draw.Ensures trainer.Uncompiled (fun filled => filled.size = inputs.size)
        (trainer.data.fill inputs) := by
      intro inputs stream
      obtain ⟨filled, rest, drawn, _⟩ := (total inputs).total stream
      rw [drawn]
      exact (fills inputs).drawn drawn
    have watchable := fed_watchable keeps
      (fun inputs output broken => absurd broken (grades inputs output))
      (fun refused mode cause fed answer => ⟨refused, mode, cause, fed, answer, rfl⟩)
      (.inl addressable)
    have answers := (watchable.evaluate fed).ensures stream
    cases drawn : trainer.evaluate nodes stream with
    | ok candidate rest => exact ⟨rest, .inl ⟨candidate, rfl⟩⟩
    | error failure rest =>
      rw [drawn] at answers
      exact ⟨rest, .inr ⟨failure, rfl, answers⟩⟩

/-- Ones and zeros by turns. -/
def blinking : DataSource Small where
  arguments := 1
  fill buffer := pure (buffer.map fun last =>
    if Number.equal last Number.zero then Number.one else Number.zero)

/-- The remainder of the input by itself. The second trial is the first one that is invalid. -/
def selfRemainder : Program Small := #[some (.argument 0), some (.binary .mod 0 0)]

/-- Two trials to profile a program and one to score it, of which the middle one counts, and one
repair. -/
def oneRepair : ScalarConfig where
  schedule := ⟨0, 2, 1, 1, 1, 0, some 0⟩
  arguments := 1
  complexity := 2
  maxRepairs := 1

/-- A remainder by zero is repaired, although the first trial of the pass had a score. A sum takes
its place, and is what is scored. -/
theorem remainder_repaired :
    ∃ trainer, make oneRepair greed blinking = .ok trainer ∧ trainer.config.validate = .ok () ∧
      trainer.Fills ∧ Program.Fed 1 2 selfRemainder ∧
      ∃ candidate rest, trainer.evaluate selfRemainder (Random.seeded 7) = .ok candidate rest ∧
        candidate.program = #[some (.argument 0), some (.binary .add 0 0)] ∧
        ∃ cleaned begins earlier last ends,
          trainer.clean selfRemainder (Random.seeded 7) = .ok cleaned begins ∧
          trainer.Passes cleaned begins earlier last ends ∧ (earlier ++ [last]).length ≤ 2 ∧
          (last.stopped = none → last.trials.length = 2 ∧ ∃ heavy, heavy.length = 1 ∧
            trainer.Specializes last ends heavy candidate rest ∧
            2 < (last.trials ++ heavy).length) := by
  have fills : Fills ⟨oneRepair, greed, blinking⟩ := fun buffer => Draw.ensures_pure (by simp)
  have fed : Program.Fed 1 2 selfRemainder :=
    ⟨(Program.validate_ok_iff _).mp rfl, rfl, by decide⟩
  have sums : Draw.isDrawn (evaluate ⟨oneRepair, greed, blinking⟩ selfRemainder) (Random.seeded 7)
      (fun candidate => candidate.program = #[some (.argument 0), some (.binary .add 0 0)]) =
        true := by
    decide +kernel
  obtain ⟨scored, ends⟩ :=
    evaluation_scores_last_pass ⟨oneRepair, greed, blinking⟩ rfl selfRemainder (Random.seeded 7)
  obtain ⟨rest, ⟨candidate, drawn⟩ | ⟨failure, failed, _⟩⟩ := ends fed (by decide) fills
    (fun inputs => Draw.ensures_pure trivial) (fun _ _ => nofun)
  · obtain ⟨cleaned, begins, earlier, last, stopped, cleans, passes, few, _, complete⟩ :=
      scored candidate rest drawn
    have sum := Draw.test_of_drawn sums drawn
    refine ⟨_, rfl, rfl, fills, fed, candidate, rest, drawn, of_decide_eq_true sum, cleaned, begins,
      earlier, last, stopped, cleans, passes, few, fun unstopped => ?_⟩
    obtain ⟨every, heavy, all, specializes, _, kept⟩ := complete unstopped
    exact ⟨every, heavy, all, specializes, kept (by decide)⟩
  · rw [Draw.isDrawn, failed] at sums
    cases sums

/-- One trial to profile a program and two to score it. Nothing is repaired. -/
def threeTrials : ScalarConfig where
  schedule := ⟨0, 1, 2, 0, 1, 0, some 0⟩
  arguments := 3
  complexity := 4
  maxRepairs := 0

/-- The square of the first input if that is positive, and of an input that is missing otherwise. -/
def pickedSquare : Program Small :=
  #[some (.argument 0), some (.argument 7), some (.conditional 0 1 0), some (.binary .mul 2 2)]

/-- The first input is positive at first, and then negative. -/
def sinking : DataSource Small := listed ([1, -1].map Small.ofInt)

/-- A missing input ends an evaluation without a score. The only pass had its trial, which was exact,
and all programs were compiled, but the second of the heavy runs breaks off. -/
theorem missing_input_ends_evaluation :
    ∃ trainer, make threeTrials content sinking = .ok trainer ∧ trainer.Fills ∧
      (∀ inputs, Draw.Ensures (fun _ => False) (fun _ => True) (trainer.data.fill inputs)) ∧
      (∀ inputs output, trainer.reward inputs output ≠ none) ∧
      trainer.accept pickedSquare = .ok pickedSquare ∧
      ∃ stream cleaned begins earlier last ends,
        trainer.clean pickedSquare stream = .ok cleaned begins ∧
        trainer.Passes cleaned begins earlier last ends ∧ last.stopped = none ∧
        last.trials.map Graded.score = [Number.infinity] ∧
        (trainer.evaluate pickedSquare).failure? stream = some .crash := by
  refine ⟨⟨threeTrials, content, sinking⟩, rfl, fun _ => Draw.ensures_pure (by simp),
    fun _ => Draw.ensures_pure trivial, fun _ _ => nofun, rfl, Stream.cyclic #[0], ?_⟩
  have exact : Draw.isDrawn (do
      let cleaned ← clean ⟨threeTrials, content, sinking⟩ pickedSquare
      profileRepairing ⟨threeTrials, content, sinking⟩ 0 cleaned) (Stream.cyclic #[0])
      (fun
        | .complete _ _ scores => scores = [Number.infinity]
        | .rejected _ => false) = true := by
    decide +kernel
  obtain ⟨profiled, rest, drawn, complete⟩ := Draw.drawn_of_test exact
  obtain ⟨cleaned, begins, cleans, drawn⟩ := (Draw.bind_drawn_iff _).mp drawn
  obtain ⟨earlier, last, passes, _, ⟨unstopped, rfl⟩ | ⟨_, rfl⟩⟩ :=
    profile_repairing_passes _ drawn
  · exact ⟨cleaned, begins, earlier, last, rest, cleans, passes, unstopped,
      of_decide_eq_true complete, by decide +kernel⟩
  · cases complete

end ScalarTrainer

end ProgramSearch
