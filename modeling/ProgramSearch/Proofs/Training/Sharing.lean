import ProgramSearch.Proofs.Training.Crew
import ProgramSearch.Proofs.Tree.Alone
import ProgramSearch.Training.Task

/-!
# Trainings over a shared pool

Every worker has random streams of its own, and every execution uses pages of the pool that all
threads share. Whatever order the threads take their steps in, in whatever order pages are taken and
given back and tasks come to an end, a training comes to what it comes to when the workers run one
after the other with pages of their own. That includes workers that break off, and trainings that
fail.
-/

namespace ProgramSearch

variable {α β T : Type}

namespace Shared

/-- The answer of a shared draw, without the stream that is left. -/
def answer (request : Shared α Failure Stream β) (stream : Stream) :
    Process α (Except Failure β) :=
  (request stream).bind fun
    | .ok value _ => .done (.ok value)
    | .error failure _ => .done (.error failure)

/-- The answer of a shared draw, as a task reports it. -/
def report (convert : β → T) (request : Shared α Failure Stream β) (stream : Stream) :
    Process α (Except Failure T) :=
  (request.answer stream).bind fun answer => .done (answer.map convert)

variable [Number α]

/-- A shared draw comes to the same as a draw, with every stream. -/
abbrev FollowsDraw (shared : Shared α Failure Stream β) (plain : Draw β) : Prop :=
  Follows (fun _ => True) shared plain

namespace Follows

variable {shared : Shared α Failure Stream β} {plain : Draw β}

/-- A draw that uses no pages. -/
theorem draw (request : Draw β) :
    FollowsDraw (Shared.lift request : Shared α Failure Stream β) request :=
  .lift fun _ _ => trivial

theorem answer (follows : FollowsDraw shared plain) (stream : Stream) :
    (shared.answer stream).Yields (plain.answer stream) := by
  obtain ⟨yields, _⟩ := follows stream trivial
  apply yields.bind
  rw [Draw.answer]
  cases plain stream with
  | ok value rest => exact .done _
  | error failure rest => exact .done _

/-- A task reports what the draw with its stream answers. -/
theorem report (follows : FollowsDraw shared plain) (convert : β → T) (stream : Stream) :
    (shared.report convert stream).Yields ((plain.answer stream).map convert) :=
  (follows.answer stream).bind (.done _)

/-- Tasks with streams of their own report what draws with these streams answer. -/
theorem reports {ι γ : Type} {request : ι → Shared α Failure Stream β} {draw : ι → Draw β}
    (follows : ∀ worker, FollowsDraw (request worker) (draw worker)) (read : T → List γ)
    (convert : β → T) (stream : ι → Stream) (workers : List ι) :
    ∃ answers,
      Process.AllYield (workers.map fun worker => (request worker).report convert (stream worker))
        answers ∧
      joined read answers = joined (fun value => read (convert value))
        (workers.map fun worker => (draw worker).answer (stream worker)) := by
  refine ⟨_, .map (fun worker => (follows worker).report convert (stream worker)) workers, ?_⟩
  rw [joined_map read convert, List.map_map]
  rfl

end Follows

end Shared

namespace Trial

/-- Play a trial against a program that uses pages of the pool. -/
def share (program : Array α → Array α → Option TreeProfile →
      Process α (Option (Array α) × Option TreeProfile))
    (profile : Option TreeProfile) : Trial α → Shared α Failure Stream (α × Option TreeProfile)
  | .score value => pure (value, profile)
  | .giveUp => Shared.lift Draw.crash
  | .draw request next => do
    let result ← Shared.lift request
    (next result).share program profile
  | .act inputs buffer next => do
    match ← Shared.ofProcess (program inputs buffer profile) with
    | (some outputs, profile) => (next outputs).share program profile
    | (none, _) => Shared.lift Draw.crash

variable [Number α]

/-- A trial comes to the same with a program that uses pages of the pool. The induction is on the
strategy. -/
theorem share_follows (program : Executable α) (trial : Trial α) (profile : Option TreeProfile) :
    Shared.FollowsDraw (trial.share program.share profile) (trial.play program.run profile) := by
  induction trial generalizing profile with
  | score value => exact .pure _
  | giveUp => exact .draw _
  | draw request next inductionHypothesis =>
    exact .bind (.draw request) fun result => inductionHypothesis result profile
  | act inputs buffer next inductionHypothesis =>
    have goesOn : ∀ answer : Option (Array α) × Option TreeProfile, Shared.FollowsDraw
        (match answer with
          | (some outputs, profile) => (next outputs).share program.share profile
          | (none, _) => Shared.lift Draw.crash)
        (match answer with
          | (some outputs, profile) => (next outputs).play program.run profile
          | (none, _) => Draw.crash) := by
      rintro ⟨outputs, profile⟩
      cases outputs with
      | some outputs => exact inductionHypothesis outputs profile
      | none => exact .draw _
    rw [share, play]
    exact .bind (.ofProcess (program.share_yields inputs buffer profile)) goesOn

end Trial

namespace ControlTrainer

variable [Number α]

/-- Score a program that uses pages of the pool by a number of trials. -/
def shareTrials (trainer : ControlTrainer α) (program : Executable α) :
    Nat → Option TreeProfile → List α → Shared α Failure Stream (List α × Option TreeProfile)
  | 0, profile, scores => pure (scores.reverse, profile)
  | runs + 1, profile, scores => do
    let (score, profile) ← trainer.environment.share program.share profile
    shareTrials trainer program runs profile (score :: scores)

/-- Profile, specialize and score a tree with pages of the pool. -/
def shareTest (trainer : ControlTrainer α) (tree : Tree α) (clearing : Bool) :
    Shared α Failure Stream (Candidate (Tree α) α) := do
  let schedule := trainer.config.schedule
  let machine := trainer.config.machine
  let instrumented ← Shared.lift (Draw.ofExcept (tree.compile machine true))
  let (profiled, profile) ←
    trainer.shareTrials instrumented schedule.profilingRuns (some TreeProfile.empty) []
  let tree := trainer.specialize tree (profile.getD TreeProfile.empty)
  let program ← Shared.lift (Draw.ofExcept (tree.compile machine false))
  let result := if clearing then tree.clearSpecialized else tree
  let (heavy, _) ← trainer.shareTrials program schedule.heavyRuns none []
  pure ⟨result, trimmedSum (profiled ++ heavy) schedule.removeOutliers⟩

/-- Mutate a tree twice and test it with pages of the pool. -/
def sharePropose (trainer : ControlTrainer α) (tree : Tree α) :
    Shared α Failure Stream (Candidate (Tree α) α) := do
  let tree ← Shared.lift (trainer.mutator.mutate tree)
  let tree ← Shared.lift (trainer.mutator.mutate tree)
  trainer.shareTest tree true

/-- Mutate each listed basic block of the elite on its own, testing with pages of the pool. -/
def shareImprovements (trainer : ControlTrainer α) (elite : Candidate (Tree α) α) :
    List Nat → Shared α Failure Stream (List (Nat × BasicBlock α))
  | [] => pure []
  | ordinal :: rest =>
    match elite.program.basicBlocks[ordinal]? with
    | none => shareImprovements trainer elite rest
    | some block => do
      let mutated ← Shared.lift (trainer.mutator.mutateBasicBlock block)
      let tree := elite.program.modifyBasic ordinal fun _ => mutated
      let candidate ← trainer.shareTest tree false
      let others ← shareImprovements trainer elite rest
      if Number.below elite.score candidate.score then pure ((ordinal, mutated) :: others)
      else pure others

/-- What a task of a worker reports. -/
inductive Report (α : Type) where
  | candidate (proposed : Candidate (Tree α) α)
  | blocks (improved : List (Nat × BasicBlock α))

namespace Report

omit [Number α]

def candidates : Report α → List (Candidate (Tree α) α)
  | candidate proposed => [proposed]
  | blocks _ => []

def improvements : Report α → List (Nat × BasicBlock α)
  | candidate _ => []
  | blocks improved => improved

end Report

/-- Have workers refine the basic blocks of the elite, merge the improvements and test the merged
tree. -/
def shareRefine (trainer : ControlTrainer α) (entropy : Entropy) (round : Nat)
    (elite : Candidate (Tree α) α) :
    Plan α (Except Failure (Report α)) (Except Failure (Option (Candidate (Tree α) α))) :=
  let schedule := trainer.config.schedule
  let workers := schedule.threads
  let blocks := elite.program.basicBlocks.length
  if !trainer.config.refineBlocks || blocks = 0 then pure (.ok none)
  else do
    let tasks := (List.range (min workers blocks)).map fun worker =>
      (trainer.shareImprovements elite (share workers blocks worker)).report Report.blocks
        (schedule.streamFor entropy round (workers + worker))
    match ← Plan.batch Report.improvements tasks with
    | .error cause => pure (.error (.fault cause))
    | .ok reports =>
      let (merged, changed) := merge elite.program reports
      if changed = 0 then pure (.ok none)
      else
        Plan.perform
          ((trainer.shareTest merged true).answer
            (schedule.streamFor entropy round (2 * workers)))
          fun answer => pure (answer.map some)

/-- Every worker has a stream of its own for its proposal, and another one for its share of the
basic blocks. -/
def crew (trainer : ControlTrainer α) (entropy : Entropy) : Crew (Tree α) α (Report α) where
  propose round elite :=
    (List.range trainer.config.schedule.threads).map fun worker =>
      (trainer.sharePropose elite).report Report.candidate
        (trainer.config.schedule.streamFor entropy round worker)
  candidates := Report.candidates
  refine := trainer.shareRefine entropy
  size tree := some tree.size

/-- What the main thread does to train from a supplied tree or from an empty block. -/
def plan (trainer : ControlTrainer α) (entropy : Entropy) (start : Option (Tree α)) :
    Plan α (Except Failure (Report α)) (Training (Tree α) α) :=
  let schedule := trainer.config.schedule
  (trainer.crew entropy).train schedule.iterations
    ((trainer.shareTest (start.getD Tree.empty) true).answer
      (schedule.streamFor entropy 0 TrainingSchedule.startUser))

section Follows

/-- Trials come to the same, each with the profile that the one before leaves. -/
theorem trials_follow (trainer : ControlTrainer α) (program : Executable α) (runs : Nat)
    (profile : Option TreeProfile) (scores : List α) :
    Shared.FollowsDraw (trainer.shareTrials program runs profile scores)
      (trainer.trials program runs profile scores) := by
  induction runs generalizing profile scores with
  | zero => exact .pure _
  | succ runs inductionHypothesis =>
    exact .bind (trainer.environment.share_follows program profile) fun played =>
      inductionHypothesis played.2 (played.1 :: scores)

/-- A test takes pages in its trials only. -/
theorem test_follows (trainer : ControlTrainer α) (tree : Tree α) (clearing : Bool) :
    Shared.FollowsDraw (trainer.shareTest tree clearing) (trainer.test tree clearing) :=
  .bind (.draw _) fun instrumented =>
    .bind (trainer.trials_follow instrumented _ _ _) fun _ =>
      .bind (.draw _) fun program =>
        .bind (trainer.trials_follow program _ _ _) fun _ => .pure _

theorem propose_follows (trainer : ControlTrainer α) (tree : Tree α) :
    Shared.FollowsDraw (trainer.sharePropose tree) (trainer.propose tree) :=
  .bind (.draw _) fun _ => .bind (.draw _) fun tree => trainer.test_follows tree true

/-- The improvements of a share of the basic blocks come to the same. The induction is on the blocks
that are left. -/
theorem improvements_follow (trainer : ControlTrainer α) (elite : Candidate (Tree α) α)
    (ordinals : List Nat) :
    Shared.FollowsDraw (trainer.shareImprovements elite ordinals)
      (trainer.improvements elite ordinals) := by
  induction ordinals with
  | nil => exact .pure _
  | cons ordinal rest inductionHypothesis =>
    rw [shareImprovements, improvements]
    cases elite.program.basicBlocks[ordinal]? with
    | none => exact inductionHypothesis
    | some block =>
      refine .bind (.draw _) fun mutated => .bind (trainer.test_follows _ false) fun candidate =>
        .bind inductionHypothesis fun others => ?_
      split
      · exact .pure _
      · exact .pure _

omit [Number α] in
/-- The reports of a batch of refinements are those of its workers. -/
theorem joined_reports (answers : List (Except Failure (List (Nat × BasicBlock α)))) :
    joined id answers = joinReports answers :=
  joined_unique joinReports rfl (fun _ _ => rfl) (fun _ => rfl) (fun _ _ => rfl) answers

/-- A refinement comes to the same: its workers report the same blocks, and the main thread tests
the same merged tree. -/
theorem refine_follows (trainer : ControlTrainer α) (entropy : Entropy) (round : Nat)
    (elite : Candidate (Tree α) α) :
    (trainer.shareRefine entropy round elite).Comes (trainer.refine entropy round elite) := by
  simp only [shareRefine, refine]
  split
  · exact .pure _
  · obtain ⟨answers, yield, same⟩ := Shared.Follows.reports
      (fun worker => trainer.improvements_follow elite
        (share trainer.config.schedule.threads elite.program.basicBlocks.length worker))
      Report.improvements Report.blocks
      (fun worker => trainer.config.schedule.streamFor entropy round
        (trainer.config.schedule.threads + worker))
      (List.range (min trainer.config.schedule.threads elite.program.basicBlocks.length))
    apply (Plan.batch_comes Report.improvements yield).bind
    rw [same.trans (joined_reports _)]
    generalize joinReports _ = reports
    cases reports with
    | error cause => exact .pure _
    | ok reports =>
      by_cases unchanged : (merge elite.program reports).2 = 0
      · simp only [if_pos unchanged]
        exact .pure _
      · simp only [if_neg unchanged]
        exact .perform ((trainer.test_follows _ true).answer _) (.pure _)

/-- The workers of a training of control trees come to the same over a shared pool. -/
theorem crew_follows (trainer : ControlTrainer α) (entropy : Entropy) :
    (trainer.crew entropy).Follows (trainer.rounds entropy) where
  propose round elite := by
    obtain ⟨answers, yield, same⟩ := Shared.Follows.reports
      (fun _ => trainer.propose_follows elite) Report.candidates Report.candidate
      (trainer.config.schedule.streamFor entropy round)
      (List.range trainer.config.schedule.threads)
    exact ⟨answers, yield, same.trans (joined_candidates _)⟩
  refine := trainer.refine_follows entropy
  size := rfl

end Follows

end ControlTrainer

namespace ScalarTrainer

variable [Number α]

/-- The workers of a training of straight-line programs use no pages. -/
def crew (trainer : ScalarTrainer α) (entropy : Entropy) :
    Crew (Program α) α (Candidate (Program α) α) where
  propose round elite :=
    (List.range trainer.config.schedule.threads).map fun worker =>
      (Shared.lift (trainer.propose elite)).report id
        (trainer.config.schedule.streamFor entropy round worker)
  candidates proposed := [proposed]
  refine _ _ := pure (.ok none)
  size _ := none

/-- What the main thread does to train from a supplied program or from a fresh one. -/
def plan (trainer : ScalarTrainer α) (entropy : Entropy) (start : Option (Program α)) :
    Plan α (Except Failure (Candidate (Program α) α)) (Training (Program α) α) :=
  let schedule := trainer.config.schedule
  let opening : Draw (Candidate (Program α) α) := do
    let nodes ←
      match start with
      | some nodes => Draw.ofExcept (trainer.accept nodes)
      | none => trainer.initial
    trainer.evaluate nodes
  (trainer.crew entropy).train schedule.iterations
    ((Shared.lift opening).answer (schedule.streamFor entropy 0 TrainingSchedule.startUser))

/-- The workers of a training of straight-line programs come to the same on threads of their own. -/
theorem crew_follows (trainer : ScalarTrainer α) (entropy : Entropy) :
    (trainer.crew entropy).Follows (trainer.rounds entropy) where
  propose round elite := by
    have draws : ∀ _ : Nat, Shared.FollowsDraw
        (Shared.lift (trainer.propose elite) : Shared α Failure Stream (Candidate (Program α) α))
        (trainer.propose elite) :=
      fun _ => .draw _
    obtain ⟨answers, yield, same⟩ := Shared.Follows.reports draws (fun proposed => [proposed]) id
      (trainer.config.schedule.streamFor entropy round)
      (List.range trainer.config.schedule.threads)
    exact ⟨answers, yield, same.trans (joined_candidates _)⟩
  refine _ _ := .pure _
  size := rfl

end ScalarTrainer

variable [Number α]

/-- From a blank pool, a training of either kind does not depend on the order in which the workers
and the main thread take their steps, take and give pages, and end tasks. Every order comes to an
end, and the notices and the result are those of workers that run one after the other with pages of
their own. A reward, an environment or a source of data may break off anywhere. Each worker and round
has its streams, from a seed or from the system. What the threads do with the pool is what executions
do: one that is alone with the pool, whatever its pages hold, answers like an execution with this
pool and leaves the same pages. -/
theorem training_ignores_interleaving {pool : PagePool α} (blank : pool.Blank) :
    (∀ (trainer : ScalarTrainer α) (entropy : Entropy) (start : Option (Program α)),
      Scene.Determined ⟨pool, [], trainer.plan entropy start⟩ (trainer.train entropy start)) ∧
    (∀ (trainer : ControlTrainer α) (entropy : Entropy) (start : Option (Tree α)),
      Scene.Determined ⟨pool, [], trainer.plan entropy start⟩ (trainer.train entropy start)) ∧
    ∀ (program : Executable α) (inputs buffer : Array α) (profile : Option TreeProfile)
      (pages : PagePool α),
      let outcome := program.execute inputs buffer pages profile
      (program.share inputs buffer profile).Runs pages
        (Executable.answer (outcome.ending, outcome.outputs, outcome.profile)) outcome.pool := by
  refine ⟨?_, ?_, Executable.share_alone⟩
  · intro trainer entropy start
    exact ((trainer.crew_follows entropy).train _ _
      ((Shared.Follows.draw _).answer _)).determined blank
  · intro trainer entropy start
    exact ((trainer.crew_follows entropy).train _ _
      ((trainer.test_follows _ true).answer _)).determined blank

/-- A training of two workers that has to add up its inputs. -/
def ScalarTrainer.adding : ScalarTrainer Float where
  config := { schedule := ⟨5, 2, 2, 1, 2, 1, some 7⟩, arguments := 2, complexity := 4 }
  reward := Reward.addition
  data := .ofRange 2 0.0 10.0

/-- A training of two workers that scores the first variable, and breaks off every other time. -/
def ControlTrainer.risky : ControlTrainer Float where
  config := { schedule := ⟨5, 1, 1, 0, 2, 1, some 11⟩, variableCount := 2, blockComplexity := 3 }
  environment := .draw (Draw.belowShifted 2) fun coin =>
    if coin = 0 then .giveUp
    else .act #[5000.0, 3.0] #[0.0, 0.0] fun outputs => .score (outputs.getD 0 0.0)
  mutator := ⟨2, 3, {}⟩

/-- Writes a number to memory and reads it again. -/
def Tree.stored : Tree Float := .block [.write 0 1, .read 0]

/-- Whether the first proposal of a worker breaks off, with a seed. -/
def ControlTrainer.breaksOff (trainer : ControlTrainer α) (tree : Tree α) (seed : UInt64)
    (worker : Nat) : Bool :=
  match (trainer.propose tree).answer (TrainingSchedule.seededStream seed 0 worker) with
  | .error .crash => true
  | _ => false

/-- One worker of the risky training breaks off in the first round, and the other one does not.
Nevertheless the training is determined, with a page in the pool, and so is one that uses no
pages. -/
theorem risky_training_determined :
    ControlTrainer.risky.config.schedule.seed = some 11 ∧
    ControlTrainer.risky.breaksOff .stored 11 0 = true ∧
    ControlTrainer.risky.breaksOff .stored 11 1 = false ∧
    ∀ entropy,
      Scene.Determined ⟨⟨[Page.blank]⟩, [], ControlTrainer.risky.plan entropy (some .stored)⟩
        (ControlTrainer.risky.train entropy (some .stored)) ∧
      Scene.Determined ⟨⟨[Page.blank]⟩, [], ScalarTrainer.adding.plan entropy none⟩
        (ScalarTrainer.adding.train entropy none) := by
  obtain ⟨scalar, control, _⟩ := @training_ignores_interleaving Float _ _ PagePool.blank_single
  exact ⟨rfl, by decide +kernel, by decide +kernel, fun entropy =>
    ⟨control .risky entropy _, scalar .adding entropy _⟩⟩

end ProgramSearch
