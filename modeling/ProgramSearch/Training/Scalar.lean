import ProgramSearch.Program.Generation
import ProgramSearch.Program.Pruning
import ProgramSearch.Program.Tiered
import ProgramSearch.Training.Climb
import ProgramSearch.Training.Schedule

/-!
# Training straight-line programs

A candidate is cleaned, profiled, specialized and scored. Profiling runs the checked
program; when it meets an invalid operation, the blamed node is replaced and profiling
starts over, up to a limit. Branches that went one way in the last profiling pass are
committed, and the resulting program is scored again by heavy runs. A candidate that
cannot be profiled scores a negative infinity.
-/

namespace ProgramSearch

variable {α : Type}

/-- What produces the inputs of a trial. -/
structure DataSource (α : Type) where
  arguments : Nat
  /-- Fill a buffer that still holds the inputs of the trial before. -/
  fill : Array α → Draw (Array α)

/-- The score of an output on given inputs. Nothing stands for a reward that breaks off. -/
abbrev Reward (α : Type) := Array α → α → Option α

structure ScalarConfig where
  schedule : TrainingSchedule := {}
  arguments : Nat := 2
  complexity : Nat := 16
  /-- How many nodes may be replaced while a candidate is profiled. -/
  maxRepairs : Nat := 64
deriving DecidableEq, Repr

namespace ScalarConfig

def validate (config : ScalarConfig) : Except Fault Unit := do
  config.schedule.validate
  if config.arguments = 0 then throw .noArguments
  if config.complexity ≤ config.arguments then
    throw (.complexityTooLow config.complexity config.arguments)

/-- The only output is the last slot. -/
def outputsStart (config : ScalarConfig) : Nat := config.complexity - 1

end ScalarConfig

/-- The branches that a candidate was seen to take. Counts are only kept for speculation. -/
inductive Observations where
  | sides (profile : Liveness)
  | counts (profile : BranchCounter)

namespace Observations

def new (threshold : Nat) : Observations :=
  if threshold = 0 then .sides Liveness.empty else .counts BranchCounter.empty

def record : Observations → Report → Observations
  | sides profile, report => sides (profile.record report)
  | counts profile, report => counts (profile.record report)

/-- The sides that were ever selected. -/
def seen : Observations → Sides
  | sides profile => profile.sides 0
  | counts profile => profile.sides 0 0

/-- The sides that were selected more often than the threshold, if counts were kept. -/
def frequent? (threshold : Nat) : Observations → Option Sides
  | sides _ => none
  | counts profile => some (profile.sides 0 threshold)

end Observations

/-- Trains programs of one shape on one task. -/
structure ScalarTrainer (α : Type) where
  config : ScalarConfig
  reward : Reward α
  data : DataSource α

namespace ScalarTrainer

variable [Number α]

/-- A trainer whose data source provides enough inputs. -/
def make (config : ScalarConfig) (reward : Reward α) (data : DataSource α) :
    Except Fault (ScalarTrainer α) := do
  config.validate
  if data.arguments < config.arguments then
    throw (.misfit (.dataTooNarrow data.arguments config.arguments))
  pure ⟨config, reward, data⟩

/-- The score of one output, or a crash if the reward breaks off. -/
def judge (trainer : ScalarTrainer α) (inputs outputs : Array α) : Draw α :=
  match trainer.reward inputs (outputs.getD 0 Number.zero) with
  | some score => pure score
  | none => Draw.crash

def blankInputs (trainer : ScalarTrainer α) : Array α :=
  Array.replicate trainer.data.arguments Number.zero

/-- Where an output is written. -/
def outputBuffer : Array α := #[Number.zero]

/-- A profiling pass: the observations, and either the trial scores or the signal that
stopped the pass. -/
def profile (trainer : ScalarTrainer α) (program : Compiled α) :
    Nat → Array α → Observations → List α → Draw (Observations × Except Signal (List α))
  | 0, _, observations, scores => pure (observations, .ok scores.reverse)
  | runs + 1, inputs, observations, scores => do
    let inputs ← trainer.data.fill inputs
    let traced := program.run inputs outputBuffer
    let observations := traced.reports.foldl Observations.record observations
    match traced.result with
    | .ok outputs => do
      let score ← trainer.judge inputs outputs
      profile trainer program runs inputs observations (score :: scores)
    | .error (.signal cause) => pure (observations, .error cause)
    | .error .missingInput => Draw.crash

/-- What profiling comes to: a program with the observations and scores of its last pass,
or a program that cannot be profiled. -/
inductive Profiled (α : Type) where
  | complete (nodes : Program α) (observations : Observations) (scores : List α)
  | rejected (nodes : Program α)

/-- Clean a program after a change. -/
def clean (trainer : ScalarTrainer α) (nodes : Program α) : Draw (Program α) := do
  let (nodes, _) ← nodes.repair trainer.config.outputsStart
  pure nodes

/-- Profile a program, replacing blamed nodes while repairs are left. Every pass starts with
fresh observations and scores. -/
def profileRepairing (trainer : ScalarTrainer α) : Nat → Program α → Draw (Profiled α)
  | repairs, nodes => do
    let program ← Draw.ofExcept (nodes.compile 1 { checked := true, profile := some 0 })
    let schedule := trainer.config.schedule
    let pass ← trainer.profile program schedule.profilingRuns trainer.blankInputs
      (Observations.new schedule.speculationThreshold) []
    match pass with
    | (observations, .ok scores) => pure (.complete nodes observations scores)
    | (_, .error (.invalidOperation blamed)) =>
      match repairs with
      | 0 => pure (.rejected nodes)
      | repairs + 1 => do
        let nodes ← nodes.regenerate [blamed.toNat]
        let nodes ← trainer.clean nodes
        profileRepairing trainer repairs nodes
    | (_, .error _) => pure (.rejected nodes)

/-- The speculative form of a committed program, if speculation is on and guards anything. -/
def speculative? (trainer : ScalarTrainer α) (observations : Observations) (nodes : Program α) :
    Option (Program α) :=
  match observations.frequent? trainer.config.schedule.speculationThreshold with
  | none => none
  | some sides =>
    let (guarded, count) := nodes.prune trainer.config.arguments sides true
    if count = 0 then none else some guarded

/-- Heavy runs. A run that is stopped scores a negative infinity. -/
def heavy (trainer : ScalarTrainer α) (program : Tiered α) :
    Nat → Array α → List α → Draw (List α)
  | 0, _, scores => pure scores.reverse
  | runs + 1, inputs, scores => do
    let inputs ← trainer.data.fill inputs
    let score ←
      match program.run inputs outputBuffer with
      | .ok outputs => trainer.judge inputs outputs
      | .error (.signal _) => pure Number.negativeInfinity
      | .error .missingInput => Draw.crash
    heavy trainer program runs inputs (score :: scores)

/-- Specialize a profiled program and score it. -/
def specialize (trainer : ScalarTrainer α) (nodes : Program α) (observations : Observations)
    (scores : List α) : Draw (Candidate (Program α) α) := do
  let config := trainer.config
  let (committed, _) := nodes.prune config.arguments observations.seen false
  let nodes := (committed.optimize config.outputsStart).nodes
  let program ← Draw.ofExcept (Tiered.compile (trainer.speculative? observations nodes) nodes 1)
  let heavyScores ← trainer.heavy program config.schedule.heavyRuns trainer.blankInputs []
  pure ⟨nodes, trimmedSum (scores ++ heavyScores) config.schedule.removeOutliers⟩

/-- Clean, profile, specialize and score a program. -/
def evaluate (trainer : ScalarTrainer α) (nodes : Program α) : Draw (Candidate (Program α) α) := do
  let nodes ← trainer.clean nodes
  match ← trainer.profileRepairing trainer.config.maxRepairs nodes with
  | .rejected nodes => pure ⟨nodes, Number.negativeInfinity⟩
  | .complete nodes observations scores => trainer.specialize nodes observations scores

/-- Mutate a program twice and evaluate it. -/
def propose (trainer : ScalarTrainer α) (nodes : Program α) : Draw (Candidate (Program α) α) := do
  let (nodes, _) ← nodes.mutate trainer.config.arguments
  let (nodes, _) ← nodes.mutate trainer.config.arguments
  trainer.evaluate nodes

/-- A fresh program of the configured shape. -/
def initial (trainer : ScalarTrainer α) : Draw (Program α) := do
  let config := trainer.config
  let nodes ← Program.generate config.arguments config.complexity
  trainer.clean nodes

/-- Accept a supplied program of the configured length that is valid. -/
def accept (trainer : ScalarTrainer α) (nodes : Program α) : Except Fault (Program α) := do
  if nodes.size ≠ trainer.config.complexity then
    throw (.misfit (.startLength nodes.size trainer.config.complexity))
  nodes.validate
  pure nodes

def rounds (trainer : ScalarTrainer α) (entropy : Entropy) : Rounds (Program α) α where
  propose round elite :=
    (List.range trainer.config.schedule.threads).map fun worker =>
      (trainer.propose elite).answer (trainer.config.schedule.streamFor entropy round worker)
  refine _ _ := .ok none
  size _ := none

/-- Train from a supplied program or from a fresh one. -/
def train (trainer : ScalarTrainer α) (entropy : Entropy) (start : Option (Program α)) :
    Training (Program α) α :=
  let schedule := trainer.config.schedule
  Training.ofStart (trainer.rounds entropy) schedule.iterations
    (schedule.streamFor entropy 0 TrainingSchedule.startUser)
    (do
      let nodes ←
        match start with
        | some nodes => Draw.ofExcept (trainer.accept nodes)
        | none => trainer.initial
      trainer.evaluate nodes)

end ScalarTrainer

end ProgramSearch
