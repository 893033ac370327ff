import ProgramSearch.Proofs.Training.Agreement
import ProgramSearch.Proofs.Training.Control
import ProgramSearch.Proofs.Training.ScalarThreshold
import ProgramSearch.Proofs.Tree.Thresholds

/-!
# The speculation threshold of control-tree training

Here all trainers observe branches in the same way, and a threshold only decides which guards a
tested tree gets. Heavy runs do not notice guards, and no guard is kept: what a search goes on with
has no specialized forms, and of the mutations of single basic blocks only their scores matter.
Trainers that differ in their threshold only therefore draw the same words in all trials of all
rounds, and refine the same blocks.
-/

namespace ProgramSearch

variable {α : Type}

/-- The same configuration with another speculation threshold. -/
def ControlConfig.withThreshold (config : ControlConfig) (threshold : Nat) : ControlConfig :=
  { config with schedule := config.schedule.withThreshold threshold }

/-- A trial takes the same course with two programs that have the same outputs. The induction follows
the trial. -/
theorem Trial.play_alike
    {program other :
      Array α → Array α → Option TreeProfile → Option (Array α) × Option TreeProfile}
    (same : ∀ inputs buffer profile otherProfile,
      (program inputs buffer profile).1 = (other inputs buffer otherProfile).1)
    (trial : Trial α) (profile otherProfile : Option TreeProfile) :
    Draw.Alike (fun played counterpart => played.1 = counterpart.1)
      (trial.play program profile) (trial.play other otherProfile) := by
  induction trial generalizing profile otherProfile with
  | score value => exact Draw.alike_pure rfl
  | giveUp => exact Draw.alike_throw .crash
  | draw request next inductionHypothesis =>
    apply (Draw.ensures_any request).then_alike
    intro value _
    exact inductionHypothesis value profile otherProfile
  | act inputs buffer next inductionHypothesis =>
    have ran := same inputs buffer profile otherProfile
    rw [play, play]
    generalize program inputs buffer profile = first at ran ⊢
    generalize other inputs buffer otherProfile = second at ran ⊢
    obtain ⟨outputs, noted⟩ := first
    obtain ⟨_, notedToo⟩ := second
    obtain rfl := ran
    cases outputs with
    | none => exact Draw.alike_throw .crash
    | some outputs => exact inductionHypothesis outputs noted notedToo

namespace ControlTrainer

/-- The same trainer with another speculation threshold. -/
def withThreshold (trainer : ControlTrainer α) (threshold : Nat) : ControlTrainer α :=
  { trainer with config := trainer.config.withThreshold threshold }

section Settings

variable (trainer : ControlTrainer α) (threshold : Nat)

@[simp] theorem with_threshold_refines :
    (trainer.withThreshold threshold).config.refineBlocks = trainer.config.refineBlocks := rfl

@[simp] theorem with_threshold_threads :
    (trainer.withThreshold threshold).config.schedule.threads =
      trainer.config.schedule.threads := rfl

@[simp] theorem with_threshold_stream :
    (trainer.withThreshold threshold).config.schedule.streamFor =
      trainer.config.schedule.streamFor := rfl

end Settings

/-- The trees that a trainer goes on with: their basic blocks are regular. -/
def Provides (trainer : ControlTrainer α) : Tree α → Prop :=
  Tree.Regular trainer.config.variableCount

variable [Number α] {trainer : ControlTrainer α} (threshold : Nat)

/-- How a trainer puts up guards. -/
def guarding? (trainer : ControlTrainer α) : Option Guarding :=
  if trainer.config.schedule.speculationThreshold = 0 then none
  else some ⟨trainer.config.variableCount, trainer.config.schedule.speculationThreshold⟩

/-- A trainer specializes trees with the guards of its threshold. -/
theorem specialize_eq (trainer : ControlTrainer α) (tree : Tree α) (profile : TreeProfile) :
    trainer.specialize tree profile =
      tree.specialize profile trainer.config.variableCount trainer.guarding? := by
  unfold specialize guarding?
  dsimp only
  split <;> rfl

/-- Trials of programs that have the same outputs have the same scores. -/
theorem trials_alike {program other : Executable α} (alike : program.Alike other) (runs : Nat)
    (profile otherProfile : Option TreeProfile) (scores : List α) :
    Draw.Alike (fun result counterpart => result.1 = counterpart.1)
      (trainer.trials program runs profile scores)
      ((trainer.withThreshold threshold).trials other runs otherProfile scores) := by
  induction runs generalizing profile otherProfile scores with
  | zero => exact Draw.alike_pure rfl
  | succ runs inductionHypothesis =>
    rw [trials, trials]
    apply (Trial.play_alike alike trainer.environment profile otherProfile).bind
    rintro ⟨score, noted⟩ ⟨_, notedToo⟩ rfl
    exact inductionHypothesis noted notedToo _

/-- Profiling does not depend on the threshold. -/
theorem trials_same (program : Executable α) (runs : Nat) (profile : Option TreeProfile)
    (scores : List α) :
    (trainer.withThreshold threshold).trials program runs profile scores =
      trainer.trials program runs profile scores := by
  induction runs generalizing profile scores with
  | zero => rfl
  | succ runs inductionHypothesis =>
    rw [trials, trials]
    simp only [inductionHypothesis]
    rfl

/-- A tree without guards is refused alike or gets the same score, whatever the threshold is. If
specialized forms are dropped, the same tree is left of it. -/
theorem test_alike {tree : Tree α} (unguarded : ∀ code ∈ tree.basicBlocks, code.nodes.Unguarded)
    (clearing : Bool) :
    Draw.Alike
      (fun candidate counterpart => candidate.score = counterpart.score ∧
        (clearing = true → candidate.program = counterpart.program ∧
          trainer.Provides candidate.program))
      (trainer.test tree clearing) ((trainer.withThreshold threshold).test tree clearing) := by
  rw [test, test]
  apply (Draw.of_except_ensures _).then_alike
  intro instrumented compiled
  obtain ⟨valid, fits⟩ := (Tree.compile_accepted_iff tree _ _).mp ⟨instrumented, compiled⟩
  have respects := Tree.respects_and tree fits unguarded
  rw [trials_same]
  apply (Draw.ensures_any (trainer.trials instrumented _ _ _)).then_alike
  rintro ⟨profiled, profile⟩ _
  simp only [specialize_eq]
  have kept := Tree.clear_specialize tree (profile.getD TreeProfile.empty)
    trainer.config.variableCount trainer.guarding? (trainer.withThreshold threshold).guarding?
  have regular := Tree.cleared_regular (Tree.specialize_respects tree trainer.config.variableCount
    (profile.getD TreeProfile.empty) trainer.config.variableCount trainer.guarding? respects)
  apply (Tree.specialize_alike valid respects _ _ trainer.guarding?
    (trainer.withThreshold threshold).guarding?).bind
  intro program other alike
  apply (trials_alike threshold alike _ none none []).bind
  rintro ⟨heavy, _⟩ ⟨_, _⟩ rfl
  apply Draw.alike_pure
  refine ⟨rfl, fun clears => ?_⟩
  subst clears
  exact ⟨kept, regular⟩

/-- Testing a tree that the trainer may keep finds the same candidate. -/
theorem test_shared {tree : Tree α} (unguarded : ∀ code ∈ tree.basicBlocks, code.nodes.Unguarded) :
    Draw.Alike (Draw.Shared fun candidate => trainer.Provides candidate.program)
      (trainer.test tree true) ((trainer.withThreshold threshold).test tree true) := by
  apply (test_alike threshold unguarded true).weaken
  rintro ⟨program, score⟩ ⟨_, _⟩ ⟨rfl, kept⟩
  obtain ⟨rfl, provides⟩ := kept rfl
  exact ⟨rfl, provides⟩

/-- What a trainer needs: a mutator for the variables of its machine that keeps basic blocks
regular. -/
structure Steady (trainer : ControlTrainer α) : Prop where
  same : trainer.mutator.variableCount = trainer.config.variableCount
  keeps : trainer.mutator.Keeps (α := α) (fun _ => True) fun code =>
    code.nodes.Regular trainer.config.variableCount

namespace Steady

/-- A mutated tree is regular. -/
theorem mutate_provides (steady : trainer.Steady) {tree : Tree α}
    (provides : trainer.Provides tree) :
    Draw.Ensures (fun _ => True) trainer.Provides (trainer.mutator.mutate tree) := by
  have kept := steady.keeps.mutate_ensures tree
  rw [steady.same] at kept
  exact kept provides

/-- Proposals are the same. -/
theorem propose_alike (steady : trainer.Steady) {tree : Tree α}
    (provides : trainer.Provides tree) :
    Draw.Alike (Draw.Shared fun candidate => trainer.Provides candidate.program)
      (trainer.propose tree) ((trainer.withThreshold threshold).propose tree) := by
  apply (steady.mutate_provides provides).then_alike
  intro once first
  apply (steady.mutate_provides first).then_alike
  intro twice second
  exact test_shared threshold (Tree.Regular.unguarded second)

/-- The same mutations of single basic blocks beat the elite. -/
theorem improvements_alike (steady : trainer.Steady) {elite : Candidate (Tree α) α}
    (provides : trainer.Provides elite.program) (ordinals : List Nat) :
    Draw.Alike
      (Draw.Shared fun reports => ∀ report ∈ reports,
        report.2.nodes.Regular trainer.config.variableCount)
      (trainer.improvements elite ordinals)
      ((trainer.withThreshold threshold).improvements elite ordinals) := by
  induction ordinals with
  | nil => exact Draw.alike_pure ⟨rfl, fun _ member => nomatch member⟩
  | cons ordinal rest inductionHypothesis =>
    rw [improvements, improvements]
    split
    · exact inductionHypothesis
    · rename_i block found
      have regular := Tree.respects_blocks _ provides block (List.mem_of_getElem? found)
      apply (steady.keeps.edited block regular).then_alike
      intro mutated changed
      have respects : trainer.Provides (elite.program.modifyBasic ordinal fun _ => mutated) :=
        Tree.modify_basic_respects elite.program ordinal changed provides
      apply (test_alike threshold respects.unguarded false).bind
      rintro ⟨program, score⟩ ⟨other, _⟩ ⟨rfl, _⟩
      apply inductionHypothesis.bind
      rintro others _ ⟨rfl, each⟩
      dsimp only
      split
      · refine Draw.alike_pure ⟨rfl, fun report member => ?_⟩
        rcases List.mem_cons.mp member with rfl | later
        · exact changed
        · exact each report later
      · exact Draw.alike_pure ⟨rfl, each⟩

/-- Rounds keep trees regular. -/
theorem rounds_provide (steady : trainer.Steady) (entropy : Entropy) :
    (trainer.rounds entropy).Keeps (fun _ => True) trainer.Provides := by
  constructor
  · intro round elite provides answer member
    obtain ⟨worker, _, rfl⟩ := List.mem_map.mp member
    exact (steady.propose_alike 0 provides).ensures.overlook.answer _
  · intro round elite provides
    apply refine_keeps provides entropy
    · intro ordinals
      exact (steady.improvements_alike 0 provides ordinals).ensures.overlook
    · intro tree regular
      exact (test_shared 0 (Tree.Regular.unguarded regular)).ensures

/-- The elite is refined in the same way. -/
theorem refine_agrees (steady : trainer.Steady) (entropy : Entropy) (round : Nat)
    {elite : Candidate (Tree α) α} (provides : trainer.Provides elite.program) :
    trainer.refine entropy round elite =
      (trainer.withThreshold threshold).refine entropy round elite := by
  have improved : (trainer.withThreshold threshold).improvements elite =
      trainer.improvements elite := by
    funext ordinals
    exact (steady.improvements_alike threshold provides ordinals).same.symm
  simp only [refine, improved, with_threshold_refines, with_threshold_threads,
    with_threshold_stream]
  split
  · rfl
  · have joined := joined_answers (fun code => code.nodes.Regular trainer.config.variableCount)
      (fun ordinals => (steady.improvements_alike threshold provides ordinals).ensures.overlook)
      entropy round elite.program.basicBlocks.length trainer.config.schedule.threads
      (min trainer.config.schedule.threads elite.program.basicBlocks.length)
    split
    · rfl
    · rename_i reports found
      rw [found] at joined
      have merged : trainer.Provides (merge elite.program reports).1 :=
        merge_respects provides joined
      rw [(test_shared threshold merged.unguarded).same]

/-- On regular trees, trainers that differ in their threshold agree. -/
theorem rounds_agree (steady : trainer.Steady) (entropy : Entropy) :
    (trainer.rounds entropy).Agree ((trainer.withThreshold threshold).rounds entropy)
      trainer.Provides where
  propose round elite provides := by
    have same := (steady.propose_alike threshold provides).same
    simp only [rounds, ← same]
    rfl
  refine round _ provides := steady.refine_agrees threshold entropy round provides
  size := rfl

/-- From the empty tree, or from a supplied one whose baselines hold no guards, trainings with
different thresholds are the same. -/
theorem train_agrees (steady : trainer.Steady) (entropy : Entropy) (start : Option (Tree α))
    (starts : ∀ tree, start = some tree → ∀ code ∈ tree.basicBlocks, code.nodes.Unguarded) :
    (trainer.withThreshold threshold).train entropy start = trainer.train entropy start := by
  symm
  apply Training.of_start_agree (steady.rounds_agree threshold entropy)
    (steady.rounds_provide entropy)
  cases start with
  | none => exact test_shared threshold fun code member => nomatch member
  | some tree => exact test_shared threshold (starts tree rfl)

end Steady

/-- A trainer that was made is steady. -/
theorem steady_of_make {config : ControlConfig} {environment : Trial α}
    (made : make config environment = .ok trainer) : trainer.Steady := by
  obtain ⟨rfl, rfl, valid, chosen⟩ := parts_of_make made
  have same := Mutator.count_of_make chosen
  exact ⟨same, same ▸ Mutator.keeps_regular chosen (MachineConfig.numbered valid)⟩

omit [Number α] in
/-- A trainer can be made with one threshold exactly when it can be made with another. -/
theorem make_with_threshold (config : ControlConfig) (environment : Trial α) (threshold : Nat) :
    make (config.withThreshold threshold) environment =
      (make config environment).map (·.withThreshold threshold) := by
  have same : (config.withThreshold threshold).mutator = config.mutator := rfl
  rw [make, make, same]
  cases config.mutator <;> rfl

end ControlTrainer

end ProgramSearch
