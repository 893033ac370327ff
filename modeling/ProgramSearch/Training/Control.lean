import ProgramSearch.Training.Climb
import ProgramSearch.Training.Schedule
import ProgramSearch.Tree.Compilation
import ProgramSearch.Tree.Mutation

/-!
# Training control trees

A candidate tree is profiled by an instrumented program, its one-sided branches are
committed, rarely taken sides are guarded, and loops that never ran are removed. The
result is compiled again and scored by heavy runs as well.

After the proposals of a round the elite is refined: every basic block is mutated on its
own, the mutations that beat the elite are merged into one tree, and that tree is scored.
-/

namespace ProgramSearch

/-- One trial of an environment, as a strategy: draw something, run the program under test
on chosen inputs, and at last give a score or break off. The program is run with a buffer
for its outputs. -/
inductive Trial (α : Type) : Type 1 where
  | score (value : α)
  | giveUp
  | draw {β : Type} (request : Draw β) (next : β → Trial α)
  | act (inputs buffer : Array α) (next : Array α → Trial α)

namespace Trial

variable {α : Type}

/-- Play a trial against a program. The program threads a profile. -/
def play (program : Array α → Array α → Option TreeProfile → Option (Array α) × Option TreeProfile)
    (profile : Option TreeProfile) : Trial α → Draw (α × Option TreeProfile)
  | .score value => pure (value, profile)
  | .giveUp => Draw.crash
  | .draw request next => do
    let result ← request
    (next result).play program profile
  | .act inputs buffer next =>
    match program inputs buffer profile with
    | (some outputs, profile) => (next outputs).play program profile
    | (none, _) => Draw.crash

end Trial

structure ControlConfig where
  schedule : TrainingSchedule := {}
  variableCount : Nat := 4
  arguments : Nat := 2
  /-- The slots of a basic block. -/
  blockComplexity : Nat := 12
  loopBudget : Nat := 10000
  maxPages : Nat := 16
  odds : MutationOdds := {}
  refineBlocks : Bool := true

namespace ControlConfig

def machine (config : ControlConfig) : MachineConfig :=
  ⟨config.variableCount, config.arguments, config.loopBudget, config.maxPages⟩

def validate (config : ControlConfig) : Except Fault Unit := do
  config.schedule.validate
  config.machine.validate
  if config.blockComplexity ≤ config.variableCount then
    throw (.complexityTooLow config.blockComplexity config.variableCount)
  config.odds.validate

/-- The mutator of a valid configuration. -/
def mutator (config : ControlConfig) : Except Fault Mutator := do
  config.validate
  Mutator.make config.variableCount config.blockComplexity config.odds

end ControlConfig

/-- Trains control trees in one environment. -/
structure ControlTrainer (α : Type) where
  config : ControlConfig
  environment : Trial α
  mutator : Mutator

namespace ControlTrainer

variable {α : Type} [Number α]

def make (config : ControlConfig) (environment : Trial α) : Except Fault (ControlTrainer α) :=
  match config.mutator with
  | .ok mutator => .ok ⟨config, environment, mutator⟩
  | .error cause => .error cause

/-- Score a program by a number of trials, adding to the scores so far. -/
def trials (trainer : ControlTrainer α) (program : Executable α) :
    Nat → Option TreeProfile → List α → Draw (List α × Option TreeProfile)
  | 0, profile, scores => pure (scores.reverse, profile)
  | runs + 1, profile, scores => do
    let (score, profile) ← trainer.environment.play program.run profile
    trials trainer program runs profile (score :: scores)

/-- Commit, guard and strip a tree by a profile. -/
def specialize (trainer : ControlTrainer α) (tree : Tree α) (profile : TreeProfile) : Tree α :=
  let threshold := trainer.config.schedule.speculationThreshold
  let offset := trainer.config.variableCount
  let (committed, _) := tree.commitBranches profile offset
  let guarded :=
    if threshold = 0 then committed else (committed.speculateBranches profile offset threshold).1
  (guarded.stripDeadLoops profile).1

/-- Profile, specialize and score a tree. Specialized forms are only dropped from the result
when asked for. -/
def test (trainer : ControlTrainer α) (tree : Tree α) (clearing : Bool) :
    Draw (Candidate (Tree α) α) := do
  let schedule := trainer.config.schedule
  let machine := trainer.config.machine
  let instrumented ← Draw.ofExcept (tree.compile machine true)
  let (profiled, profile) ←
    trainer.trials instrumented schedule.profilingRuns (some TreeProfile.empty) []
  let tree := trainer.specialize tree (profile.getD TreeProfile.empty)
  let program ← Draw.ofExcept (tree.compile machine false)
  let result := if clearing then tree.clearSpecialized else tree
  let (heavy, _) ← trainer.trials program schedule.heavyRuns none []
  pure ⟨result, trimmedSum (profiled ++ heavy) schedule.removeOutliers⟩

/-- Mutate a tree twice and test it. -/
def propose (trainer : ControlTrainer α) (tree : Tree α) : Draw (Candidate (Tree α) α) := do
  let tree ← trainer.mutator.mutate tree
  let tree ← trainer.mutator.mutate tree
  trainer.test tree true

/-- Mutate each listed basic block of the elite on its own, and report those mutations that
beat the score of the elite. -/
def improvements (trainer : ControlTrainer α) (elite : Candidate (Tree α) α) :
    List Nat → Draw (List (Nat × BasicBlock α))
  | [] => pure []
  | ordinal :: rest =>
    match elite.program.basicBlocks[ordinal]? with
    | none => improvements trainer elite rest
    | some block => do
      let mutated ← trainer.mutator.mutateBasicBlock block
      let tree := elite.program.modifyBasic ordinal fun _ => mutated
      let candidate ← trainer.test tree false
      let others ← improvements trainer elite rest
      if Number.below elite.score candidate.score then pure ((ordinal, mutated) :: others)
      else pure others

/-- The basic blocks that a worker refines: every `workers`-th one, starting with its own. -/
def share (workers blocks worker : Nat) : List Nat :=
  (List.range blocks).filter fun ordinal => ordinal % workers = worker

/-- Put reported blocks into a tree, counting them. -/
def merge (tree : Tree α) : List (Nat × BasicBlock α) → Tree α × Nat
  | [] => (tree, 0)
  | (ordinal, block) :: rest =>
    let present := (tree.basicBlocks[ordinal]?).isSome
    let (tree, count) := merge (tree.modifyBasic ordinal fun _ => block) rest
    (tree, if present then count + 1 else count)

/-- The reports of all workers in their order. A worker that breaks off reports nothing. -/
def joinReports : List (Except Failure (List (Nat × BasicBlock α))) →
    Except Fault (List (Nat × BasicBlock α))
  | [] => .ok []
  | .ok reports :: rest => (joinReports rest).map (reports ++ ·)
  | .error .crash :: rest => joinReports rest
  | .error (.fault cause) :: _ => .error cause

/-- Refine the basic blocks of the elite, merge the improvements and test the merged tree. -/
def refine (trainer : ControlTrainer α) (entropy : Entropy) (round : Nat)
    (elite : Candidate (Tree α) α) : Except Failure (Option (Candidate (Tree α) α)) :=
  let schedule := trainer.config.schedule
  let workers := schedule.threads
  let blocks := elite.program.basicBlocks.length
  if !trainer.config.refineBlocks || blocks = 0 then .ok none
  else
    let answers := (List.range (min workers blocks)).map fun worker =>
      (trainer.improvements elite (share workers blocks worker)).answer
        (schedule.streamFor entropy round (workers + worker))
    match joinReports answers with
    | .error cause => .error (.fault cause)
    | .ok reports =>
      let (merged, changed) := merge elite.program reports
      if changed = 0 then .ok none
      else
        ((trainer.test merged true).answer (schedule.streamFor entropy round (2 * workers))).map
          some

def rounds (trainer : ControlTrainer α) (entropy : Entropy) : Rounds (Tree α) α where
  propose round elite :=
    (List.range trainer.config.schedule.threads).map fun worker =>
      (trainer.propose elite).answer (trainer.config.schedule.streamFor entropy round worker)
  refine := trainer.refine entropy
  size tree := some tree.size

/-- Train from a supplied tree or from an empty block. -/
def train (trainer : ControlTrainer α) (entropy : Entropy) (start : Option (Tree α)) :
    Training (Tree α) α :=
  let schedule := trainer.config.schedule
  Training.ofStart (trainer.rounds entropy) schedule.iterations
    (schedule.streamFor entropy 0 TrainingSchedule.startUser)
    (trainer.test (start.getD Tree.empty) true)

end ControlTrainer

end ProgramSearch
