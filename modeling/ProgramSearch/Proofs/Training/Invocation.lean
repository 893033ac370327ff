import ProgramSearch.Proofs.Training.Threshold

/-!
# Which inputs a training hands to its programs

A compiled program must be given all the inputs that it can read. A watched training does what a
training does, and also lists every program that is invoked, with the number of inputs that it can
read and the number of those that it is given.

Repairs, mutations, commits and guarded copies make no arguments, so the arguments of every program
that a training compiles are arguments of the program that was supplied. If these are inputs that the
data source provides, then every invocation gets enough inputs. Nothing checks this, however: a
supplied program is compared with the configuration in its length only, and one that reads more breaks
the training off.
-/

namespace ProgramSearch

variable {α : Type}

/-- An invocation of a compiled program: how many inputs it can read, and how many it is given. -/
structure Invocation where
  arity : Nat
  given : Nat
deriving DecidableEq, Repr

/-- The program is given all the inputs that it can read. -/
def Invocation.IsFed (invocation : Invocation) : Prop := invocation.arity ≤ invocation.given

/-- A computation that takes random words and lists the programs that it invokes. The list is there
also when it breaks off. -/
abbrev Watched := EStateM Failure (Stream × List Invocation)

namespace Watched

variable {β γ : Type}

/-- Take random words. Nothing is invoked. -/
def draw (request : Draw β) : Watched β := fun (stream, told) =>
  match request stream with
  | .ok value rest => .ok value (rest, told)
  | .error failure rest => .error failure (rest, told)

/-- Run a program, and list that. -/
def invoke [Number α] (program : Compiled α) (inputs buffer : Array α) :
    Watched (Traced (Array α)) := fun (stream, told) =>
  .ok (program.run inputs buffer) (stream, told ++ [⟨program.arity, inputs.size⟩])

/-- What is invoked in all. -/
def invocations (watched : Watched β) (stream : Stream) : List Invocation :=
  match watched (stream, []) with
  | .ok _ (_, told) => told
  | .error _ (_, told) => told

/-- What is drawn in the end, without the list. -/
def forget (watched : Watched β) : Draw β := fun stream =>
  match watched (stream, []) with
  | .ok value (rest, _) => .ok value rest
  | .error failure (rest, _) => .error failure rest

/-- A watched computation has the outcome of a request, which is as promised or a failure that is
allowed, and lists good invocations behind those that were listed before. -/
inductive Outcomes (good : Invocation → Prop) (allowed : Failure → Prop) (promised : β → Prop)
    (told : List Invocation) : EStateM.Result Failure Stream β →
      EStateM.Result Failure (Stream × List Invocation) β → Prop where
  | drawn {value : β} (rest : Stream) {more : List Invocation} :
      promised value → (∀ invocation ∈ more, good invocation) →
        Outcomes good allowed promised told (.ok value rest) (.ok value (rest, told ++ more))
  | failed {failure : Failure} (rest : Stream) {more : List Invocation} :
      allowed failure → (∀ invocation ∈ more, good invocation) →
        Outcomes good allowed promised told (.error failure rest)
          (.error failure (rest, told ++ more))

/-- A computation watches a request: on every stream it does the same, and it lists good
invocations. -/
def Watches (good : Invocation → Prop) (allowed : Failure → Prop) (promised : β → Prop)
    (watched : Watched β) (request : Draw β) : Prop :=
  ∀ stream told, Outcomes good allowed promised told (request stream) (watched (stream, told))

namespace Watches

variable {good : Invocation → Prop} {allowed : Failure → Prop} {promised : β → Prop}
  {watched : Watched β} {request : Draw β}

/-- A result that is given right away needs no watching. -/
theorem pure {value : β} (holds : promised value) :
    Watches good allowed promised (Pure.pure value) (Pure.pure value) := by
  intro stream told
  have listed : Outcomes good allowed promised told (.ok value stream)
      (.ok value (stream, told ++ [])) := .drawn stream holds (by simp)
  rwa [List.append_nil] at listed

/-- Breaking off needs no watching. -/
theorem throw {failure : Failure} (permitted : allowed failure) :
    Watches good allowed promised (MonadExcept.throw failure) (MonadExcept.throw failure) := by
  intro stream told
  have listed : Outcomes good allowed promised told (.error failure stream)
      (.error failure (stream, told ++ [])) := .failed stream permitted (by simp)
  rwa [List.append_nil] at listed

/-- Taking random words needs no watching. -/
theorem draw (ensures : Draw.Ensures allowed promised request) :
    Watches good allowed promised (Watched.draw request) request := by
  intro stream told
  have holds := ensures stream
  simp only [Watched.draw]
  generalize request stream = outcome at holds ⊢
  cases outcome with
  | ok value rest =>
    have listed : Outcomes good allowed promised told (.ok value rest)
        (.ok value (rest, told ++ [])) := .drawn rest holds (by simp)
    rwa [List.append_nil] at listed
  | error failure rest =>
    have listed : Outcomes good allowed promised told (.error failure rest)
        (.error failure (rest, told ++ [])) := .failed rest holds (by simp)
    rwa [List.append_nil] at listed

/-- A sequence is watched part by part. -/
theorem bind {reached : γ → Prop} {following : β → Watched γ} {next : β → Draw γ}
    (first : Watches good allowed promised watched request)
    (rest : ∀ value, promised value →
      Watches good allowed reached (following value) (next value)) :
    Watches good allowed reached (watched >>= following) (request >>= next) := by
  intro stream told
  have started := first stream told
  change Outcomes good allowed reached told (EStateM.bind request next stream)
    (EStateM.bind watched following (stream, told))
  simp only [EStateM.bind]
  generalize request stream = outcome at started ⊢
  generalize watched (stream, told) = listed at started ⊢
  cases started with
  | @drawn value stream more holds early =>
    have continued := rest value holds stream (told ++ more)
    simp only
    generalize next value stream = outcome at continued ⊢
    generalize following value (stream, told ++ more) = listed at continued ⊢
    cases continued with
    | drawn stream holds late =>
      rw [List.append_assoc]
      exact .drawn stream holds (List.forall_mem_append.mpr ⟨early, late⟩)
    | failed stream permitted late =>
      rw [List.append_assoc]
      exact .failed stream permitted (List.forall_mem_append.mpr ⟨early, late⟩)
  | failed stream permitted early => exact .failed stream permitted early

/-- An invocation is listed before its result is used. -/
theorem invoke [Number α] {program : Compiled α} {inputs buffer : Array α}
    (fed : good ⟨program.arity, inputs.size⟩) {following : Traced (Array α) → Watched β}
    (rest : Watches good allowed promised (following (program.run inputs buffer)) request) :
    Watches good allowed promised (Watched.invoke program inputs buffer >>= following)
      request := by
  intro stream told
  have continued := rest stream (told ++ [⟨program.arity, inputs.size⟩])
  change Outcomes good allowed promised told (request stream)
    (following (program.run inputs buffer) (stream, told ++ [⟨program.arity, inputs.size⟩]))
  generalize request stream = outcome at continued ⊢
  generalize following _ _ = listed at continued ⊢
  cases continued with
  | drawn stream holds late =>
    rw [List.append_assoc]
    exact .drawn stream holds (List.forall_mem_cons.mpr ⟨fed, late⟩)
  | failed stream permitted late =>
    rw [List.append_assoc]
    exact .failed stream permitted (List.forall_mem_cons.mpr ⟨fed, late⟩)

/-- A request that is watched ensures what is promised. -/
theorem ensures (watches : Watches good allowed promised watched request) :
    Draw.Ensures allowed promised request := by
  intro stream
  have outcome := watches stream []
  generalize request stream = drawn at outcome ⊢
  generalize watched (stream, []) = listed at outcome
  cases outcome with
  | drawn rest holds _ => exact holds
  | failed rest permitted _ => exact permitted

/-- Watching changes nothing. -/
theorem forget (watches : Watches good allowed promised watched request) :
    watched.forget = request := by
  funext stream
  have outcome := watches stream []
  rw [Watched.forget]
  generalize request stream = drawn at outcome ⊢
  generalize watched (stream, []) = listed at outcome ⊢
  cases outcome <;> rfl

/-- All invocations of a request that is watched are good. -/
theorem invocations (watches : Watches good allowed promised watched request) (stream : Stream) :
    ∀ invocation ∈ watched.invocations stream, good invocation := by
  have outcome := watches stream []
  rw [Watched.invocations]
  generalize request stream = drawn at outcome
  generalize watched (stream, []) = listed at outcome ⊢
  cases outcome with
  | drawn rest _ fine => exact fine
  | failed rest _ fine => exact fine

end Watches

end Watched

open Watched (Watches)

variable [Number α]

/-- Run a speculative program, and list which of its forms are invoked. -/
def Tiered.watchedRun (program : Tiered α) (inputs buffer : Array α) :
    Watched (Except Halt (Array α)) :=
  match program.speculative with
  | none => do
    let traced ← Watched.invoke program.baseline inputs buffer
    pure traced.result
  | some speculative => do
    let traced ← Watched.invoke speculative inputs buffer
    match traced.result with
    | .error (.signal .bailout) => do
      let traced ← Watched.invoke program.baseline inputs buffer
      pure traced.result
    | result => pure result

namespace ScalarTrainer

section Watching

variable (trainer : ScalarTrainer α)

/-- A watched profiling pass. -/
def watchedProfile (program : Compiled α) :
    Nat → Array α → Observations → List α → Watched (Observations × Except Signal (List α))
  | 0, _, observations, scores => pure (observations, .ok scores.reverse)
  | runs + 1, inputs, observations, scores => do
    let inputs ← Watched.draw (trainer.data.fill inputs)
    let traced ← Watched.invoke program inputs outputBuffer
    let observations := traced.reports.foldl Observations.record observations
    match traced.result with
    | .ok outputs => do
      let score ← Watched.draw (trainer.judge inputs outputs)
      watchedProfile program runs inputs observations (score :: scores)
    | .error (.signal cause) => pure (observations, .error cause)
    | .error .missingInput => throw .crash

/-- Watched profiling with repairs. -/
def watchedProfileRepairing : Nat → Program α → Watched (Profiled α)
  | repairs, nodes => do
    let program ←
      Watched.draw (Draw.ofExcept (nodes.compile 1 { checked := true, profile := some 0 }))
    let schedule := trainer.config.schedule
    let pass ← trainer.watchedProfile program schedule.profilingRuns trainer.blankInputs
      (Observations.new schedule.speculationThreshold) []
    match pass with
    | (observations, .ok scores) => pure (.complete nodes observations scores)
    | (_, .error (.invalidOperation blamed)) =>
      match repairs with
      | 0 => pure (.rejected nodes)
      | repairs + 1 => do
        let nodes ← Watched.draw (nodes.regenerate [blamed.toNat])
        let nodes ← Watched.draw (trainer.clean nodes)
        watchedProfileRepairing repairs nodes
    | (_, .error _) => pure (.rejected nodes)

/-- Watched heavy runs. -/
def watchedHeavy (program : Tiered α) : Nat → Array α → List α → Watched (List α)
  | 0, _, scores => pure scores.reverse
  | runs + 1, inputs, scores => do
    let inputs ← Watched.draw (trainer.data.fill inputs)
    let result ← program.watchedRun inputs outputBuffer
    let score ←
      match result with
      | .ok outputs => Watched.draw (trainer.judge inputs outputs)
      | .error (.signal _) => pure Number.negativeInfinity
      | .error .missingInput => throw .crash
    watchedHeavy program runs inputs (score :: scores)

/-- Specialize a profiled program and score it, watched. -/
def watchedSpecialize (nodes : Program α) (observations : Observations) (scores : List α) :
    Watched (Candidate (Program α) α) := do
  let config := trainer.config
  let (committed, _) := nodes.prune config.arguments observations.seen false
  let nodes := (committed.optimize config.outputsStart).nodes
  let program ←
    Watched.draw (Draw.ofExcept (Tiered.compile (trainer.speculative? observations nodes) nodes 1))
  let heavyScores ← trainer.watchedHeavy program config.schedule.heavyRuns trainer.blankInputs []
  pure ⟨nodes, trimmedSum (scores ++ heavyScores) config.schedule.removeOutliers⟩

/-- Evaluate a program, watched. -/
def watchedEvaluate (nodes : Program α) : Watched (Candidate (Program α) α) := do
  let nodes ← Watched.draw (trainer.clean nodes)
  match ← trainer.watchedProfileRepairing trainer.config.maxRepairs nodes with
  | .rejected nodes => pure ⟨nodes, Number.negativeInfinity⟩
  | .complete nodes observations scores => trainer.watchedSpecialize nodes observations scores

/-- Propose a candidate, watched. -/
def watchedPropose (nodes : Program α) : Watched (Candidate (Program α) α) := do
  let (nodes, _) ← Watched.draw (nodes.mutate trainer.config.arguments)
  let (nodes, _) ← Watched.draw (nodes.mutate trainer.config.arguments)
  trainer.watchedEvaluate nodes

/-- Score the supplied program, watched. -/
def watchedStart (nodes : Program α) : Watched (Candidate (Program α) α) := do
  let nodes ← Watched.draw (Draw.ofExcept (trainer.accept nodes))
  trainer.watchedEvaluate nodes

variable (entropy : Entropy)

/-- What all workers invoke in a round. -/
def roundInvocations (round : Nat) (elite : Program α) : List Invocation :=
  (List.range trainer.config.schedule.threads).flatMap fun worker =>
    (trainer.watchedPropose elite).invocations
      (trainer.config.schedule.streamFor entropy round worker)

/-- What is invoked in the remaining rounds. -/
def laterInvocations : Nat → Nat → Climb (Program α) α → List Invocation
  | 0, _, _ => []
  | remaining + 1, number, climb =>
    trainer.roundInvocations entropy number climb.elite.program ++
      match (Climb.round (trainer.rounds entropy) number climb).state with
      | .ok (.inl climb) => laterInvocations remaining (number + 1) climb
      | _ => []

/-- Every invocation of a training from a supplied program. -/
def trainInvocations (nodes : Program α) : List Invocation :=
  let schedule := trainer.config.schedule
  let stream := schedule.streamFor entropy 0 TrainingSchedule.startUser
  (trainer.watchedStart nodes).invocations stream ++
    match (Draw.ofExcept (trainer.accept nodes) >>= trainer.evaluate) stream with
    | .ok candidate _ =>
      if Number.equal candidate.score Number.infinity then []
      else trainer.laterInvocations entropy schedule.iterations 0 ⟨candidate, 0⟩
    | .error _ _ => []

end Watching

/-- What a watched training needs: a law of programs that everything the training does to a program
keeps, and that makes the invocations of a program good as long as the inputs obey a law of their
own. Failures of the data source and the reward are allowed, and so are the faults for which
programs under the law are not compiled. -/
structure Watchable (good : Invocation → Prop) (allowed : Failure → Prop) (supplied : Array α → Prop)
    (law : Program α → Prop) (trainer : ScalarTrainer α) : Prop where
  invoked : ∀ {nodes mode program}, law nodes → nodes.compile 1 mode = .ok program →
    ∀ inputs, supplied inputs → good ⟨program.arity, inputs.size⟩ ∧
      ((program.run inputs outputBuffer).result = .error .missingInput → allowed .crash)
  copied : ∀ {nodes copy}, law nodes → Program.GuardedCopy nodes copy → law copy
  blank : supplied trainer.blankInputs
  fills : ∀ inputs, supplied inputs → Draw.Ensures allowed supplied (trainer.data.fill inputs)
  grades : ∀ inputs output, trainer.reward inputs output = none → allowed .crash
  refused : ∀ {nodes mode cause}, law nodes → nodes.compile 1 mode = .error cause →
    allowed (.fault cause)
  cleaned : ∀ {nodes}, law nodes → Draw.Ensures allowed law (trainer.clean nodes)
  regenerated : ∀ {nodes blamed}, law nodes → blamed < nodes.size →
    Draw.Ensures allowed law (nodes.regenerate [blamed])
  specialized : ∀ {nodes} (observations : Observations), law nodes →
    law ((nodes.prune trainer.config.arguments observations.seen false).1.optimize
      trainer.config.outputsStart).nodes
  mutated : ∀ {nodes}, law nodes →
    Draw.Ensures allowed (fun result => law result.1) (nodes.mutate trainer.config.arguments)

namespace Watchable

variable {good : Invocation → Prop} {allowed : Failure → Prop} {supplied : Array α → Prop}
  {law : Program α → Prop} {trainer : ScalarTrainer α}
  (watchable : trainer.Watchable good allowed supplied law)

include watchable

/-- Judging a run is watched. -/
theorem judge (inputs outputs : Array α) :
    Draw.Ensures allowed (fun _ => True) (trainer.judge inputs outputs) := by
  rw [ScalarTrainer.judge]
  split
  · exact Draw.ensures_pure trivial
  · rename_i broken
    exact Draw.ensures_throw (watchable.grades _ _ broken)

/-- A profiling pass is watched. If it is stopped, then by a signal of one of its runs. -/
theorem profile {nodes : Program α} {mode : Program.Mode} {program : Compiled α}
    (holds : law nodes) (compiled : nodes.compile 1 mode = .ok program) (runs : Nat)
    (inputs : Array α) (given : supplied inputs) (observations : Observations) (scores : List α) :
    Watches good allowed
      (fun pass => ∀ cause, pass.2 = .error cause → ∃ inputs,
        (program.run inputs outputBuffer).result = .error (.signal cause))
      (trainer.watchedProfile program runs inputs observations scores)
      (trainer.profile program runs inputs observations scores) := by
  induction runs generalizing inputs observations scores with
  | zero => exact .pure fun cause failed => nomatch failed
  | succ runs inductionHypothesis =>
    rw [watchedProfile, ScalarTrainer.profile]
    apply (Watches.draw (watchable.fills inputs given)).bind
    intro filled given
    obtain ⟨fed, misses⟩ := watchable.invoked holds compiled filled given
    apply Watches.invoke fed
    dsimp only
    cases ended : (program.run filled outputBuffer).result with
    | ok outputs =>
      apply (Watches.draw (watchable.judge _ _)).bind
      intro score _
      exact inductionHypothesis filled given _ _
    | error halt =>
      cases halt with
      | signal cause =>
        refine .pure fun other failed => ?_
        obtain rfl := Except.error.inj failed
        exact ⟨filled, ended⟩
      | missingInput => exact .throw (misses ended)

/-- Profiling with repairs is watched. The induction is on the repairs that are left. -/
theorem profile_repairing (repairs : Nat) {nodes : Program α} (holds : law nodes) :
    Watches good allowed
      (fun profiled => match profiled with
        | .complete result _ _ => law result
        | .rejected result => law result)
      (trainer.watchedProfileRepairing repairs nodes) (trainer.profileRepairing repairs nodes) := by
  induction repairs generalizing nodes with
  | zero =>
    rw [watchedProfileRepairing, profileRepairing]
    apply (Watches.draw (Draw.answer_ensures fun _ => watchable.refused holds)).bind
    intro program compiled
    apply (watchable.profile holds compiled _ _ watchable.blank _ _).bind
    rintro ⟨observations, outcome⟩ _
    cases outcome with
    | ok scores => exact .pure holds
    | error cause => cases cause <;> exact .pure holds
  | succ repairs inductionHypothesis =>
    rw [watchedProfileRepairing, profileRepairing]
    apply (Watches.draw (Draw.answer_ensures fun _ => watchable.refused holds)).bind
    intro program compiled
    apply (watchable.profile holds compiled _ _ watchable.blank _ _).bind
    rintro ⟨observations, outcome⟩ stopped
    cases outcome with
    | ok scores => exact .pure holds
    | error cause =>
      cases cause with
      | invalidOperation blamed =>
        obtain ⟨inputs, ran⟩ := stopped _ rfl
        have inside := Program.blamed_inside compiled ran
        apply (Watches.draw (watchable.regenerated holds inside)).bind
        intro regrown kept
        apply (Watches.draw (watchable.cleaned kept)).bind
        intro cleaned keptToo
        exact inductionHypothesis keptToo
      | bailout | loopBudgetExceeded | memoryExhausted | addressOutOfRange => exact .pure holds

/-- A run of a speculative program is watched: the speculative form, and the baseline if that is
invoked too. -/
theorem tiered {β : Type} {promised : β → Prop} {nodes : Program α}
    {speculative : Option (Program α)} {program : Tiered α} (holds : law nodes)
    (holdsToo : ∀ copy, speculative = some copy → law copy)
    (compiled : Tiered.compile speculative nodes 1 = .ok program) {inputs : Array α}
    (given : supplied inputs) {following : Except Halt (Array α) → Watched β} {request : Draw β}
    (rest : (program.run inputs outputBuffer = .error .missingInput → allowed .crash) →
      Watches good allowed promised (following (program.run inputs outputBuffer)) request) :
    Watches good allowed promised (program.watchedRun inputs outputBuffer >>= following)
      request := by
  simp only [Tiered.compile, Refusal.bind_ok_iff, Refusal.mapM_ok_iff] at compiled
  obtain ⟨baseline, compiledBaseline, quick, compiledQuick, same⟩ := compiled
  obtain rfl := Except.ok.inj same
  obtain ⟨fed, misses⟩ := watchable.invoked holds compiledBaseline inputs given
  cases speculative with
  | none =>
    obtain rfl : quick = none := compiledQuick
    simp only [Tiered.watchedRun, bind_assoc, pure_bind]
    exact Watches.invoke fed (rest misses)
  | some copy =>
    obtain ⟨quick, compiledCopy, rfl⟩ := compiledQuick
    obtain ⟨fedToo, missesToo⟩ := watchable.invoked (holdsToo copy rfl) compiledCopy inputs given
    simp only [Tiered.run] at rest
    simp only [Tiered.watchedRun, bind_assoc]
    apply Watches.invoke fedToo
    generalize (quick.run inputs outputBuffer).result = result at missesToo rest ⊢
    split
    · simp only [bind_assoc, pure_bind]
      exact Watches.invoke fed (rest misses)
    · rw [pure_bind]
      simp only at rest
      exact rest missesToo

/-- Heavy runs are watched. -/
theorem heavy {nodes : Program α} {speculative : Option (Program α)} {program : Tiered α}
    (holds : law nodes) (holdsToo : ∀ copy, speculative = some copy → law copy)
    (compiled : Tiered.compile speculative nodes 1 = .ok program) (runs : Nat) (inputs : Array α)
    (given : supplied inputs) (scores : List α) :
    Watches good allowed (fun _ => True) (trainer.watchedHeavy program runs inputs scores)
      (trainer.heavy program runs inputs scores) := by
  induction runs generalizing inputs scores with
  | zero => exact .pure trivial
  | succ runs inductionHypothesis =>
    rw [watchedHeavy, ScalarTrainer.heavy]
    apply (Watches.draw (watchable.fills inputs given)).bind
    intro filled given
    apply watchable.tiered holds holdsToo compiled given
    intro misses
    cases ended : program.run filled outputBuffer with
    | ok outputs =>
      apply (Watches.draw (watchable.judge _ _)).bind
      intro score _
      exact inductionHypothesis filled given _
    | error halt =>
      cases halt with
      | signal cause =>
        simp only [pure_bind]
        exact inductionHypothesis filled given _
      | missingInput =>
        have broken : Watches good allowed (fun _ => True) (throw .crash : Watched α) Draw.crash :=
          .throw (misses ended)
        exact broken.bind fun score _ => inductionHypothesis filled given _

/-- A speculative program is refused for a fault of one of its forms. -/
theorem tiered_refused {nodes : Program α} {speculative : Option (Program α)} (holds : law nodes)
    (holdsToo : ∀ copy, speculative = some copy → law copy) {cause : Fault}
    (refused : Tiered.compile speculative nodes 1 = .error cause) : allowed (.fault cause) := by
  rw [Tiered.compile, Refusal.bind_refused_iff] at refused
  obtain refused | ⟨baseline, -, refused⟩ := refused
  · exact watchable.refused holds refused
  · rw [Refusal.bind_refused_iff] at refused
    obtain refused | ⟨quick, -, ⟨⟩⟩ := refused
    cases speculative with
    | none => cases refused
    | some copy =>
      have same : Program.compile copy 1 {} >>= (fun quick => pure (some quick)) = .error cause :=
        refused
      rw [Refusal.bind_refused_iff] at same
      obtain same | ⟨quick, -, ⟨⟩⟩ := same
      exact watchable.refused (holdsToo copy rfl) same

/-- Specializing is watched. -/
theorem specialize {nodes : Program α} (holds : law nodes) (observations : Observations)
    (scores : List α) :
    Watches good allowed (fun candidate => law candidate.program)
      (trainer.watchedSpecialize nodes observations scores)
      (trainer.specialize nodes observations scores) := by
  have kept := watchable.specialized observations holds
  have copies := trainer.speculative_copies observations
    ((nodes.prune trainer.config.arguments observations.seen false).1.optimize
      trainer.config.outputsStart).nodes
  have keptToo := fun copy given => watchable.copied kept (copies copy given)
  rw [watchedSpecialize, ScalarTrainer.specialize]
  apply (Watches.draw (Draw.answer_ensures fun _ => watchable.tiered_refused kept keptToo)).bind
  intro program compiled
  apply (watchable.heavy kept keptToo compiled _ _ watchable.blank []).bind
  intro heavyScores _
  exact .pure kept

/-- Evaluating is watched. -/
theorem evaluate {nodes : Program α} (holds : law nodes) :
    Watches good allowed (fun candidate => law candidate.program)
      (trainer.watchedEvaluate nodes) (trainer.evaluate nodes) := by
  apply (Watches.draw (watchable.cleaned holds)).bind
  intro cleaned kept
  apply (watchable.profile_repairing _ kept).bind
  intro profiled outcome
  cases profiled with
  | rejected result => exact .pure outcome
  | complete result observations scores => exact watchable.specialize outcome observations scores

/-- Proposing is watched. -/
theorem propose {nodes : Program α} (holds : law nodes) :
    Watches good allowed (fun candidate => law candidate.program)
      (trainer.watchedPropose nodes) (trainer.propose nodes) := by
  apply (Watches.draw (watchable.mutated holds)).bind
  rintro ⟨once, _⟩ first
  apply (Watches.draw (watchable.mutated first)).bind
  rintro ⟨twice, _⟩ second
  exact watchable.evaluate second

/-- Scoring a supplied program is watched, if it obeys the law once it is accepted. -/
theorem start {nodes : Program α}
    (misfits : ∀ cause, trainer.accept nodes = .error cause → allowed (.fault cause))
    (holds : ∀ accepted, trainer.accept nodes = .ok accepted → law accepted) :
    Watches good allowed (fun candidate => law candidate.program)
      (trainer.watchedStart nodes)
      (Draw.ofExcept (trainer.accept nodes) >>= trainer.evaluate) := by
  apply (Watches.draw (Draw.answer_ensures misfits)).bind
  intro accepted same
  exact watchable.evaluate (holds accepted same)

/-- Every round of a training keeps the law. -/
theorem rounds_keep (entropy : Entropy) : (trainer.rounds entropy).Keeps allowed law := by
  constructor
  · intro round elite holds answer member
    obtain ⟨worker, _, rfl⟩ := List.mem_map.mp member
    exact (watchable.propose holds).ensures.overlook.answer _
  · intro round elite _ candidate found
    cases found

/-- What the workers invoke in a round is good. -/
theorem round_invocations (entropy : Entropy) (round : Nat) {elite : Program α}
    (holds : law elite) :
    ∀ invocation ∈ trainer.roundInvocations entropy round elite, good invocation := by
  intro invocation listed
  obtain ⟨worker, _, invoked⟩ := List.mem_flatMap.mp listed
  exact (watchable.propose holds).invocations _ invocation invoked

/-- What is invoked in any number of rounds is good. The elite of every round obeys the law. -/
theorem later_invocations (entropy : Entropy) (remaining number : Nat)
    (climb : Climb (Program α) α) (holds : law climb.elite.program) :
    ∀ invocation ∈ trainer.laterInvocations entropy remaining number climb, good invocation := by
  induction remaining generalizing number climb with
  | zero => simp [laterInvocations]
  | succ remaining inductionHypothesis =>
    have once : (Climb.round (trainer.rounds entropy) number climb).Keeps allowed law :=
      Climb.round_keeps (watchable.rounds_keep entropy) holds
    rw [laterInvocations, List.forall_mem_append]
    refine ⟨watchable.round_invocations entropy number holds, ?_⟩
    split
    · rename_i next done
      rw [Climb.Phase.Keeps, done] at once
      exact inductionHypothesis _ next once
    · simp

/-- Everything that a training invokes is good, if the supplied program obeys the law once it is
accepted. -/
theorem train_invocations (entropy : Entropy) {nodes : Program α}
    (misfits : ∀ cause, trainer.accept nodes = .error cause → allowed (.fault cause))
    (holds : ∀ accepted, trainer.accept nodes = .ok accepted → law accepted) :
    ∀ invocation ∈ trainer.trainInvocations entropy nodes, good invocation := by
  have watches := watchable.start misfits holds
  have begun :=
    watches.ensures (trainer.config.schedule.streamFor entropy 0 TrainingSchedule.startUser)
  simp only [trainInvocations, List.forall_mem_append]
  refine ⟨watches.invocations _, ?_⟩
  split
  · rename_i candidate rest scored
    rw [scored] at begun
    split
    · simp
    · exact watchable.later_invocations entropy _ 0 ⟨candidate, 0⟩ begun
  · simp

/-- A training fails for an allowed reason, if the supplied program obeys the law once it is
accepted. -/
theorem train_answers (entropy : Entropy) {nodes : Program α}
    (misfits : ∀ cause, trainer.accept nodes = .error cause → allowed (.fault cause))
    (holds : ∀ accepted, trainer.accept nodes = .ok accepted → law accepted) :
    Answers allowed (fun outcome => law outcome.program)
      (trainer.train entropy (some nodes)).result :=
  Training.of_start_keeps (watchable.rounds_keep entropy) _ _
    (watchable.start misfits holds).ensures

end Watchable

/-- Every training can be watched, if nothing is asked of it. -/
theorem watchable_anyway (trainer : ScalarTrainer α) :
    trainer.Watchable (fun _ => True) (fun _ => True) (fun _ => True) (fun _ => True) where
  invoked _ _ _ _ := ⟨trivial, fun _ => trivial⟩
  copied _ _ := trivial
  blank := trivial
  fills _ _ := Draw.ensures_any _
  grades _ _ _ := trivial
  refused _ _ := trivial
  cleaned _ := Draw.ensures_any _
  regenerated _ _ := Draw.ensures_any _
  specialized _ _ := trivial
  mutated _ := Draw.ensures_any _

/-- A watched training does what the training does: it scores the supplied program and proposes
candidates alike, whatever the program, the data source and the reward are. -/
theorem watching_changes_nothing (trainer : ScalarTrainer α) (nodes : Program α) :
    (trainer.watchedStart nodes).forget =
        (Draw.ofExcept (trainer.accept nodes) >>= trainer.evaluate) ∧
      (trainer.watchedPropose nodes).forget = trainer.propose nodes :=
  ⟨(trainer.watchable_anyway.start (fun _ _ => trivial) fun _ _ => trivial).forget,
    (trainer.watchable_anyway.propose trivial).forget⟩

end ScalarTrainer

namespace Program

/-- A valid program of a number of slots that reads no arguments beyond another number. It may hold
guards. -/
structure Fed (arguments size : Nat) (nodes : Program α) : Prop where
  valid : Valid nodes
  sized : nodes.size = size
  bounded : Confined arguments nodes

namespace Fed

variable {arguments size : Nat} {nodes result : Program α}

omit [Number α] in
/-- Regrown slots hold no arguments. -/
theorem regrown (fed : Fed arguments size nodes) {slots : List Nat}
    (regrown : Regrown nodes slots result) : Fed arguments size result where
  valid := regrown.valid
  sized := regrown.sized.trans fed.sized
  bounded slot parameter held := by
    rcases regrown.origin slot _ held with old | new
    · exact fed.bounded slot parameter old
    · exact absurd rfl (new.foreign parameter)

omit [Number α] in
/-- Trimming finds no new arguments. -/
theorem trimmed (fed : Fed arguments size nodes) {protectedStart : Nat}
    (trimmed : Trimmed nodes protectedStart result) : Fed arguments size result where
  valid := trimmed.valid
  sized := trimmed.sized.trans fed.sized
  bounded slot parameter held := by
    obtain ⟨other, found⟩ := trimmed.borrowed slot parameter held
    exact fed.bounded other parameter found

omit [Number α] in
/-- Guards take the place of conditionals. -/
theorem copied (fed : Fed arguments size nodes) (copied : GuardedCopy nodes result) :
    Fed arguments size result where
  valid := copied.valid fed.valid
  sized := copied.sized.trans fed.sized
  bounded slot parameter held := fed.bounded slot parameter (copied.argument held)

/-- Repairs find no new arguments. -/
theorem repairable (protectedStart : Nat) :
    Repairable protectedStart (Fed (α := α) arguments size) where
  valid fed := fed.valid
  simplified fed := fed.trimmed (optimize_trims fed.valid protectedStart).1
  regrown fed _ regrown := fed.regrown regrown

/-- A compiled program that is given an input for each argument is given all that it can read. -/
theorem invoked (fed : Fed arguments size nodes) {outputs : Nat} {mode : Mode}
    {program : Compiled α} (compiled : nodes.compile outputs mode = .ok program)
    {inputs : Array α} (enough : arguments ≤ inputs.size) (buffer : Array α) :
    program.arity ≤ inputs.size ∧ (program.run inputs buffer).result ≠ .error .missingInput := by
  obtain ⟨_, _, linked⟩ := linked_of_compile compiled
  have sufficient := Nat.le_trans (linked.least arguments fed.bounded) enough
  exact ⟨sufficient, run_provided compiled sufficient buffer⟩

end Fed

end Program

namespace ScalarTrainer

/-- If all arguments are inputs that the data source provides, then a training can be watched to give
every program all the inputs that it can read. It breaks off only if the data source or the reward
does, if there are slots without an address, or if such a program is not compiled. -/
theorem fed_watchable {trainer : ScalarTrainer α} {allowed : Failure → Prop}
    (fills : ∀ inputs, Draw.Ensures allowed (fun filled => filled.size = inputs.size)
      (trainer.data.fill inputs))
    (grades : ∀ inputs output, trainer.reward inputs output = none → allowed .crash)
    (refused : ∀ (nodes : Program α) mode cause,
      Program.Fed trainer.data.arguments trainer.config.complexity nodes →
        nodes.compile 1 mode = .error cause → allowed (.fault cause))
    (addressable : trainer.config.complexity ≤ Node.slotLimit ∨ allowed .crash) :
    trainer.Watchable Invocation.IsFed allowed
      (fun inputs => trainer.data.arguments ≤ inputs.size)
      (Program.Fed trainer.data.arguments trainer.config.complexity) where
  invoked fed compiled inputs enough :=
    have given := fed.invoked compiled enough outputBuffer
    ⟨given.1, fun missing => absurd missing given.2⟩
  copied fed copied := fed.copied copied
  blank := by simp [blankInputs]
  fills inputs enough := (fills inputs).weaken fun _ same => same ▸ enough
  grades := grades
  refused := refused _ _ _
  cleaned fed := by
    apply ((Program.Fed.repairable _).repair_ensures fed (fed.sized ▸ addressable)).bind
    intro result repaired
    exact Draw.ensures_pure repaired
  regenerated fed inside :=
    (Program.regenerate_ensures fed.valid (fed.sized ▸ addressable) (by simpa using inside)).weaken
      fun _ regrown => fed.regrown regrown
  specialized observations fed := by
    have committed := fed.trimmed (Program.prune_trims trainer.config.arguments observations.seen
      fed.valid 0)
    exact committed.trimmed (Program.optimize_trims committed.valid _).1
  mutated fed := by
    apply (Program.mutate_ensures fed.valid (fed.sized ▸ addressable) _).weaken
    rintro result ⟨_, _, regrown⟩
    exact fed.regrown regrown

omit [Number α] in
/-- What is accepted is valid and has the configured length. -/
theorem accept_ok_iff (trainer : ScalarTrainer α) (nodes accepted : Program α) :
    trainer.accept nodes = .ok accepted ↔
      nodes.size = trainer.config.complexity ∧ nodes.validate = .ok () ∧ nodes = accepted := by
  simp only [accept, Refusal.refuse_ok_iff, Refusal.check_ok_iff, ne_eq, Decidable.not_not]
  simp only [pure, Except.pure, Except.ok.injEq]

/-- Supplied programs find their inputs, if these are there at all. Let the arguments of a supplied
program be inputs that the data source provides, and let the data source leave the size of a buffer
as it is. Then every program that is invoked in the training, for the supplied program and for all
proposals of all rounds, is given all the inputs that it can read, with a seed and without one. What
is listed as invoked comes from the training itself: to watch it changes neither the start nor a
proposal, for any program. So if the data source and the reward never fail and all slots have an
address, then the training has a result or is refused by a fault, and never breaks off. -/
theorem provided_programs_find_inputs (trainer : ScalarTrainer α) (fills : trainer.Fills)
    (nodes : Program α) (confined : nodes.Confined trainer.data.arguments) (entropy : Entropy) :
    (∀ invocation ∈ trainer.trainInvocations entropy nodes,
      invocation.arity ≤ invocation.given) ∧
      (∀ other : Program α,
        (trainer.watchedStart other).forget =
            (Draw.ofExcept (trainer.accept other) >>= trainer.evaluate) ∧
          (trainer.watchedPropose other).forget = trainer.propose other) ∧
      (trainer.config.complexity ≤ Node.slotLimit →
        (∀ inputs, Draw.Ensures (fun _ => False) (fun _ => True) (trainer.data.fill inputs)) →
        (∀ inputs output, trainer.reward inputs output ≠ none) →
          (trainer.train entropy (some nodes)).result ≠ .error .crash) := by
  have fed : ∀ accepted, trainer.accept nodes = .ok accepted →
      Program.Fed trainer.data.arguments trainer.config.complexity accepted := by
    intro accepted same
    obtain ⟨sized, valid, rfl⟩ := (accept_ok_iff trainer nodes accepted).mp same
    exact ⟨(Program.validate_ok_iff nodes).mp valid, sized, confined⟩
  refine ⟨?_, fun other => watching_changes_nothing trainer other, ?_⟩
  · have watchable := fed_watchable fills (fun _ _ _ => trivial) (fun _ _ _ _ _ => trivial)
      (.inr trivial)
    exact watchable.train_invocations entropy (fun _ _ => trivial) fed
  · intro addressable total grades crashed
    have keeps : ∀ inputs, Draw.Ensures (· ≠ .crash) (fun filled => filled.size = inputs.size)
        (trainer.data.fill inputs) := by
      intro inputs stream
      obtain ⟨filled, rest, drawn, _⟩ := (total inputs).total stream
      rw [drawn]
      exact (fills inputs).drawn drawn
    have watchable := fed_watchable keeps (fun inputs output broken => absurd broken
      (grades inputs output)) (fun _ _ _ _ _ => nofun) (.inl addressable)
    have answers := watchable.train_answers entropy (fun _ _ => nofun) fed
    rw [crashed] at answers
    exact answers rfl

/-- Adds the first two inputs if the first one is positive, and takes the third one otherwise. -/
def pickedSum : Program Small :=
  #[some (.argument 0), some (.argument 1), some (.argument 2), some (.binary .add 0 1),
    some (.conditional 3 2 0)]

/-- Two rounds of two workers, with two trials to profile a program and one to score it. -/
def pairwise : ScalarConfig where
  schedule := ⟨2, 2, 1, 0, 2, 1, some 0⟩
  arguments := 2
  complexity := 5

/-- Every input of a trial is one. -/
def ones (arguments : Nat) : DataSource Small where
  arguments := arguments
  fill buffer := pure (buffer.map fun _ => Number.one)

/-- The third input is more than the configuration counts, but the data source provides it. The
training from this program goes through two rounds and does not break off. -/
theorem third_input_found :
    ∃ trainer, make pairwise greed (ones 3) = .ok trainer ∧ trainer.Fills ∧
      pickedSum.Confined 3 ∧ trainer.accept pickedSum = .ok pickedSum ∧
      ∀ entropy,
        (trainer.trainInvocations entropy pickedSum).head? = some ⟨3, 3⟩ ∧
        (∀ invocation ∈ trainer.trainInvocations entropy pickedSum,
          invocation.arity ≤ invocation.given) ∧
        (trainer.train entropy (some pickedSum)).result ≠ .error .crash := by
  have fills : Fills ⟨pairwise, greed, ones 3⟩ := fun buffer => Draw.ensures_pure (by simp)
  have confined : pickedSum.Confined 3 := by decide
  -- The schedule has a seed, so what is evaluated for some streams holds for all of them.
  have invoked : (trainInvocations ⟨pairwise, greed, ones 3⟩ Entropy.unused
      pickedSum).head? = some ⟨3, 3⟩ := by decide +kernel
  refine ⟨_, rfl, fills, confined, rfl, fun entropy => ?_⟩
  obtain ⟨fed, _, ends⟩ :=
    provided_programs_find_inputs ⟨pairwise, greed, ones 3⟩ fills pickedSum confined entropy
  have total : ∀ inputs, Draw.Ensures (fun _ => False) (fun _ => True) ((ones 3).fill inputs) :=
    fun inputs => Draw.ensures_pure trivial
  exact ⟨invoked, fed, ends (by decide) total (fun _ _ => nofun)⟩

/-- The second argument of a program whose training provides one. -/
def missingSecond : Program Small := #[some (.argument 0), some (.argument 1)]

/-- A single trial and no rounds, with one input. -/
def oneInput : ScalarConfig where
  schedule := ⟨0, 1, 0, 0, 1, 0, some 0⟩
  arguments := 1
  complexity := 2

/-- Nothing compares the arguments of a supplied program with the inputs. A program that reads a
second input is accepted where there is one, is invoked with too few inputs, and breaks off the
training, although the data source and the reward do not fail. -/
theorem unchecked_argument_breaks_off :
    ∃ trainer, make oneInput greed (ones 1) = .ok trainer ∧ trainer.Fills ∧
      (∀ inputs, Draw.Ensures (fun _ => False) (fun _ => True) (trainer.data.fill inputs)) ∧
      (∀ inputs output, trainer.reward inputs output ≠ none) ∧
      trainer.accept missingSecond = .ok missingSecond ∧
      ∀ entropy, trainer.trainInvocations entropy missingSecond = [⟨2, 1⟩] ∧
        (trainer.train entropy (some missingSecond)).failure? = some .crash := by
  have invoked : trainInvocations ⟨oneInput, greed, ones 1⟩ Entropy.unused
      missingSecond = [⟨2, 1⟩] := by decide +kernel
  have broken : (train ⟨oneInput, greed, ones 1⟩ Entropy.unused
      (some missingSecond)).failure? = some .crash := by decide +kernel
  exact ⟨⟨oneInput, greed, ones 1⟩, rfl, fun _ => Draw.ensures_pure (by simp),
    fun _ => Draw.ensures_pure trivial, fun _ _ => nofun, rfl, fun _ => ⟨invoked, broken⟩⟩

end ScalarTrainer

end ProgramSearch
