import ProgramSearch.Proofs.Number.Small
import ProgramSearch.Proofs.Training.ControlThreshold
import ProgramSearch.Proofs.Training.Scalar

/-!
# The speculation threshold never shows

Trainings of both kinds come out the same for every speculation threshold, from a fresh program and
from a supplied one without guards. A supplied straight-line program must only read inputs that the
data source provides. Nothing checks that, and where a program reads an input that is missing, a
guard may keep a heavy run away from it that would break off otherwise.
-/

namespace ProgramSearch

variable {α : Type} [Number α]

/-- The speculation threshold never changes a training. Both observers list the same sides of every
block after the same reports. Scoring a program with its guarded copy gives the scores of the
program alone. And for every other threshold the same trainer can be made, and from the same start
its training is the same: its notices, and its result with the program, the score, and the numbers
of rounds and improvements. It has the seed of the trainer, or none, and then both draw from the
same streams. A supplied straight-line program must hold no guards and read no inputs
that the data source does not provide, and the data source must leave the size of a buffer as it is;
the baselines of a supplied tree must hold no guards. -/
theorem training_ignores_threshold (threshold : Nat) :
    (∀ (reports : List Report) (block : Nat),
      (reports.foldl Liveness.record Liveness.empty).sides block =
        (reports.foldl BranchCounter.record BranchCounter.empty).sides block 0) ∧
    (∀ (config : ScalarConfig) (reward : Reward α) (data : DataSource α)
      (trainer : ScalarTrainer α),
      ScalarTrainer.make config reward data = .ok trainer → trainer.Fills →
      (∀ (nodes : Program α) (observations : Observations) (baseline : Compiled α),
        nodes.Regular data.arguments → nodes.compile 1 {} = .ok baseline →
        ∃ program, Tiered.compile (trainer.speculative? observations nodes) nodes 1 = .ok program ∧
          ∀ runs, trainer.heavy program runs trainer.blankInputs [] =
            trainer.heavy ⟨none, baseline⟩ runs trainer.blankInputs []) ∧
      ∃ other, ScalarTrainer.make (config.withThreshold threshold) reward data = .ok other ∧
        ∀ (entropy : Entropy) (start : Option (Program α)),
          (∀ nodes, start = some nodes → nodes.Unguarded ∧ nodes.Confined data.arguments) →
            other.train entropy start = trainer.train entropy start) ∧
    ∀ (config : ControlConfig) (environment : Trial α) (trainer : ControlTrainer α),
      ControlTrainer.make config environment = .ok trainer →
      ∃ other, ControlTrainer.make (config.withThreshold threshold) environment = .ok other ∧
        ∀ (entropy : Entropy) (start : Option (Tree α)),
          (∀ tree, start = some tree → ∀ code ∈ tree.basicBlocks, code.nodes.Unguarded) →
            other.train entropy start = trainer.train entropy start := by
  refine ⟨observers_agree, ?_, ?_⟩
  · intro config reward data trainer made fills
    obtain ⟨valid, enough, rfl⟩ := (ScalarTrainer.make_ok_iff config reward data).mp made
    constructor
    · intro nodes observations baseline regular compiled
      obtain ⟨program, accepted, alike⟩ := Tiered.compile_regular regular
        (ScalarTrainer.speculative_copies _ observations nodes) compiled
      refine ⟨program, accepted, fun runs => ?_⟩
      exact (ScalarTrainer.heavy_alike config.schedule.speculationThreshold fills alike runs _
        (by simp [ScalarTrainer.blankInputs]) []).same
    · refine ⟨_, (ScalarTrainer.make_ok_iff _ reward data).mpr ⟨valid, enough, rfl⟩, ?_⟩
      exact ScalarTrainer.train_agrees threshold fills enough
  · intro config environment trainer made
    refine ⟨trainer.withThreshold threshold, ?_, ?_⟩
    · rw [ControlTrainer.make_with_threshold, made]
      rfl
    · exact (ControlTrainer.steady_of_make made).train_agrees threshold

/-- Why a training has no result, if it has none. -/
def Training.failure? {P : Type} (training : Training P α) : Option Failure :=
  match training.result with
  | .ok _ => none
  | .error failure => some failure

namespace ScalarTrainer

/-- Takes the first input of each trial from a list and counts the trials in the second one. The
third input stays what it is. -/
def listed (numbers : List Small) : DataSource Small where
  arguments := 3
  fill buffer :=
    let trials := buffer.getD 1 Number.zero
    let position := (trials.value?.getD 0).toNat
    pure ((buffer.setIfInBounds 0 (numbers.getD position Number.zero)).setIfInBounds 1
      (Number.add trials Number.one))

/-- Every output is a hit. -/
def content : Reward Small := fun _ _ => some Number.infinity

/-- Five trials to profile a program and six to score it, no repairs, and a round with one worker. -/
def profiling : ScalarConfig where
  schedule := ⟨1, 5, 6, 0, 1, 1, some 5⟩
  arguments := 3
  complexity := 10
  maxRepairs := 0

/-- The third slot gives the first input if that is positive, and the input with the given number
otherwise. Two nodes read the third slot: the sum, which counts if the first input exceeds three,
and the output, which falls back to it if the first input exceeds six. -/
def guardable (parameter : UInt16) : Program Small :=
  #[some (.argument 0), some (.argument parameter), some (.conditional 0 1 0),
    some (.constant (Small.ofInt 3)), some (.binary .sub 0 3), some (.binary .add 2 0),
    some (.conditional 5 0 4), some (.constant (Small.ofInt 7)), some (.binary .sub 7 0),
    some (.conditional 6 2 8)]

/-- Profiling sees both sides of the output, but the fallback only once. The last heavy run is the
first one with a negative input. -/
def trialInputs : List Small := [1, 1, 5, 5, 8, -1].map Small.ofInt

/-- The output is a remainder by zero when the first input is one. -/
def stalled : Program Small :=
  #[some (.argument 0), some (.argument 1), some (.argument 2), some (.constant Number.one),
    some (.binary .sub 0 3), some (.conditional 0 2 4), some (.constant (Small.ofInt 7)),
    some (.binary .add 2 0), some (.conditional 7 5 6), some (.binary .mod 8 4)]

/-- How many rounds a training took and how often its elite was replaced, if it has a result. -/
def course {P : Type} (training : Training P α) : Option (Nat × Nat) :=
  training.result.toOption.map fun outcome => (outcome.rounds, outcome.improvements)

/-- A single run with a fixed input, scored by its first output. -/
def echo : Trial Small :=
  .act #[Small.ofInt 3] #[Number.zero] fun outputs => .score (outputs.getD 0 Number.zero)

/-- The output was seen on its first side twice and on the other one once. -/
def outputSeen : Observations :=
  [⟨⟨0, 9⟩, true⟩, ⟨⟨0, 9⟩, true⟩, ⟨⟨0, 9⟩, false⟩].foldl Observations.record (.new 1)

/-- With the third input in place of the missing one, guards change nothing: neither the scores of a
program whose output is guarded, nor the training from a program that cannot be profiled. A worker
finds a program that hits in its round. The same holds of the training of a tree that adds up
numbers. -/
theorem provided_input_trains_alike :
    (∃ (trainer other : ScalarTrainer Small) (baseline : Compiled Small) (program : Tiered Small),
      make profiling content (listed trialInputs) = .ok trainer ∧ trainer.Fills ∧
      (guardable 2).Regular 3 ∧ (guardable 2).compile 1 {} = .ok baseline ∧
      (trainer.speculative? outputSeen (guardable 2)).isSome = true ∧
      Tiered.compile (trainer.speculative? outputSeen (guardable 2)) (guardable 2) 1 =
        .ok program ∧
      trainer.heavy program 6 trainer.blankInputs [] =
        trainer.heavy ⟨none, baseline⟩ 6 trainer.blankInputs [] ∧
      make (profiling.withThreshold 0) content (listed trialInputs) = .ok other ∧
      stalled.Unguarded ∧ stalled.Confined 3 ∧
      ∀ entropy, course (trainer.train entropy (some stalled)) = some (1, 1) ∧
        other.train entropy (some stalled) = trainer.train entropy (some stalled)) ∧
    ∃ trainer other : ControlTrainer Small,
      ControlTrainer.make ControlTrainer.briefly echo = .ok trainer ∧
      ControlTrainer.make (ControlTrainer.briefly.withThreshold 0) echo = .ok other ∧
      (∀ code ∈ Tree.summation.basicBlocks, code.nodes.Unguarded) ∧
      ∀ entropy,
        other.train entropy (some Tree.summation) = trainer.train entropy (some Tree.summation) := by
  obtain ⟨_, scalar, control⟩ := @training_ignores_threshold Small _ 0
  constructor
  · have made : make profiling content (listed trialInputs) =
        .ok ⟨profiling, content, listed trialInputs⟩ := by rfl
    have fills : Fills ⟨profiling, content, listed trialInputs⟩ :=
      fun buffer => Draw.ensures_pure (by simp)
    have unguarded : (guardable 2).Unguarded := by decide
    have confined : (guardable 2).Confined 3 := by decide
    have valid : (guardable 2).validate = .ok () := by rfl
    have regular : (guardable 2).Regular 3 :=
      ⟨(Program.validate_ok_iff _).mp valid, unguarded, confined⟩
    obtain ⟨baseline, compiled⟩ : ∃ baseline, (guardable 2).compile 1 {} = .ok baseline :=
      ⟨_, by rfl⟩
    have guards : (speculative? ⟨profiling, content, listed trialInputs⟩ outputSeen
        (guardable 2)).isSome = true := by decide +kernel
    obtain ⟨scores, other, madeToo, trains⟩ := scalar _ _ _ _ made fills
    obtain ⟨program, accepted, same⟩ := scores (guardable 2) outputSeen baseline regular compiled
    have unguardedStart : stalled.Unguarded := by decide
    have confinedStart : stalled.Confined 3 := by decide
    -- The schedule has a seed, so what is evaluated for some streams holds for all of them.
    have solved : course (train ⟨profiling, content, listed trialInputs⟩ Entropy.unused
        (some stalled)) = some (1, 1) := by decide +kernel
    refine ⟨_, other, baseline, program, made, fills, regular, compiled, guards, accepted, same 6,
      madeToo, unguardedStart, confinedStart, fun entropy => ⟨solved, trains entropy _ ?_⟩⟩
    rintro _ ⟨⟩
    exact ⟨unguardedStart, confinedStart⟩
  · have made : ControlTrainer.make ControlTrainer.briefly echo =
        .ok ⟨ControlTrainer.briefly, echo, ⟨2, 3, {}⟩⟩ := by rfl
    have unguarded : ∀ code ∈ Tree.summation.basicBlocks, code.nodes.Unguarded := by decide
    obtain ⟨other, madeToo, trains⟩ := control _ _ _ made
    refine ⟨_, other, made, madeToo, unguarded, fun entropy => trains entropy _ ?_⟩
    rintro _ ⟨⟩
    exact unguarded

/-- With a missing input, the threshold shows. Without guards the third slot is shared by two nodes,
so every run evaluates it, and the last heavy run breaks off. With a guard in the output, only the
sum reads the third slot, and that is not needed when the input is missing. -/
theorem missing_input_shows_threshold :
    ∃ trainer other : ScalarTrainer Small,
      make profiling content (listed trialInputs) = .ok trainer ∧
      make (profiling.withThreshold 0) content (listed trialInputs) = .ok other ∧
      (guardable 7).Unguarded ∧ trainer.accept (guardable 7) = .ok (guardable 7) ∧
      ∀ entropy, (trainer.train entropy (some (guardable 7))).failure? = none ∧
        (other.train entropy (some (guardable 7))).failure? = some .crash := by
  refine ⟨⟨profiling, content, listed trialInputs⟩,
    ⟨profiling.withThreshold 0, content, listed trialInputs⟩, by rfl, by rfl, by decide, by rfl, ?_⟩
  have ends : (train ⟨profiling, content, listed trialInputs⟩ Entropy.unused
      (some (guardable 7))).failure? = none := by decide +kernel
  have breaks : (train ⟨profiling.withThreshold 0, content, listed trialInputs⟩ Entropy.unused
      (some (guardable 7))).failure? = some .crash := by decide +kernel
  exact fun _ => ⟨ends, breaks⟩

end ScalarTrainer

end ProgramSearch
