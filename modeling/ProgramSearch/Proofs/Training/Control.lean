import ProgramSearch.Proofs.Training.Climb
import ProgramSearch.Proofs.Tree.Evolution
import ProgramSearch.Proofs.Tree.Safety
import ProgramSearch.Training.Control
import ProgramSearch.Training.Task

/-!
# Training keeps the shape of trees

Training mutates trees, profiles and specializes them, and merges mutations of single basic blocks
into the elite, and all of this keeps the shape that the empty tree has. A tree of this shape
compiles before and after it is specialized, so no request of the training is ever refused, and its
runs fill every buffer. What is left to fail is the environment. If no trial of it fails on a
program that fills its buffers, then every training has a result.
-/

namespace ProgramSearch

variable {α : Type}

namespace Trial

/-- A trial that only fails for allowed reasons when it is played against a program that fills its
buffer. -/
def Fair (allowed : Failure → Prop) : Trial α → Prop
  | .score _ => True
  | .giveUp => allowed .crash
  | .draw request next => Draw.Ensures allowed (fun value => (next value).Fair allowed) request
  | .act _ buffer next => ∀ outputs : Array α, outputs.size = buffer.size →
    (next outputs).Fair allowed

/-- A fair trial can be played against a program that always fills its buffer. The induction follows
the trial. -/
theorem Fair.play_ensures {allowed : Failure → Prop}
    {program : Array α → Array α → Option TreeProfile → Option (Array α) × Option TreeProfile}
    (fills : ∀ inputs buffer profile, ∃ outputs noted,
      program inputs buffer profile = (some outputs, noted) ∧ outputs.size = buffer.size)
    {trial : Trial α} (fair : trial.Fair allowed) (profile : Option TreeProfile) :
    Draw.Ensures allowed (fun _ => True) (trial.play program profile) := by
  induction trial generalizing profile with
  | score value => exact Draw.ensures_pure trivial
  | giveUp => exact Draw.ensures_throw fair
  | draw request next inductionHypothesis =>
    apply Draw.Ensures.bind fair
    intro value continued
    exact inductionHypothesis value continued profile
  | act inputs buffer next inductionHypothesis =>
    obtain ⟨outputs, noted, ran, sized⟩ := fills inputs buffer profile
    simp only [play, ran]
    exact inductionHypothesis outputs (fair outputs sized) noted

end Trial

namespace ControlTrainer

/-- What a trainer needs to keep a law of basic blocks. Its mutator keeps the law, or breaks off,
and so do the passes that use a profile, basic blocks that obey it fit the variables of its machine,
which is valid, and its environment only fails for allowed reasons. -/
structure Equipped [Number α] (allowed : Failure → Prop) (law : BasicBlock α → Prop)
    (trainer : ControlTrainer α) : Prop where
  keeps : trainer.mutator.Keeps (Overlooking allowed) law
  specializable : BasicBlock.Specializable law
  fits : ∀ code, law code → code.Fits trainer.mutator.variableCount
  same : trainer.config.variableCount = trainer.mutator.variableCount
  valid : trainer.config.machine.validate = .ok ()
  fair : trainer.environment.Fair allowed

section Merging

variable {count : Nat} {law : BasicBlock α → Prop}

/-- Merging basic blocks that obey the law into a tree keeps the law. -/
theorem merge_respects {tree : Tree α} {reports : List (Nat × BasicBlock α)}
    (respects : tree.Respects count law) (each : ∀ report ∈ reports, law report.2) :
    (merge tree reports).1.Respects count law := by
  induction reports generalizing tree with
  | nil => exact respects
  | cons report rest inductionHypothesis =>
    have block := each report List.mem_cons_self
    exact inductionHypothesis (Tree.modify_basic_respects tree report.1 block respects)
      fun other member => each other (List.mem_cons_of_mem report member)

variable {allowed : Failure → Prop} {promised : Nat × BasicBlock α → Prop}

/-- Joined reports are reports of the workers, and the fault of joining is one of theirs. -/
theorem join_reports_answers {answers : List (Except Failure (List (Nat × BasicBlock α)))}
    (each : ∀ answer ∈ answers,
      Answers (Overlooking allowed) (fun reports => ∀ report ∈ reports, promised report) answer) :
    Answers allowed (fun reports => ∀ report ∈ reports, promised report)
      ((joinReports answers).mapError .fault) := by
  induction answers with
  | nil =>
    intro report member
    cases member
  | cons answer rest inductionHypothesis =>
    have others := inductionHypothesis fun other member =>
      each other (List.mem_cons_of_mem answer member)
    have own := each answer List.mem_cons_self
    cases answer with
    | ok reports =>
      rw [joinReports]
      generalize joinReports rest = joined at others ⊢
      cases joined with
      | ok found =>
        intro report member
        rcases List.mem_append.mp member with early | late
        · exact own report early
        · exact others report late
      | error cause => exact others
    | error failure =>
      cases failure with
      | crash => exact others
      | fault cause => exact own.fault

variable [Number α] {trainer : ControlTrainer α} {round : Nat} {elite : Candidate (Tree α) α}

/-- The joined reports of the workers in a round obey a law that all reported mutations obey. -/
theorem joined_answers (law : BasicBlock α → Prop)
    (improved : ∀ ordinals, Draw.Ensures (Overlooking allowed)
      (fun reports => ∀ report ∈ reports, law report.2) (trainer.improvements elite ordinals))
    (entropy : Entropy) (round blocks workers busy : Nat) :
    Answers allowed (fun reports => ∀ report ∈ reports, law report.2)
      ((joinReports ((List.range busy).map fun worker =>
        (trainer.improvements elite (share workers blocks worker)).answer
          (trainer.config.schedule.streamFor entropy round (workers + worker)))).mapError
            .fault) := by
  apply join_reports_answers
  intro answer member
  obtain ⟨worker, _, rfl⟩ := List.mem_map.mp member
  exact (improved _).answer _

/-- Refining keeps a law of basic blocks if all mutations that are reported obey it and testing
keeps it. -/
theorem refine_keeps (respects : elite.program.Respects count law) (entropy : Entropy)
    (improved : ∀ ordinals, Draw.Ensures (Overlooking allowed)
      (fun reports => ∀ report ∈ reports, law report.2) (trainer.improvements elite ordinals))
    (tested : ∀ tree : Tree α, tree.Respects count law → Draw.Ensures allowed
      (fun candidate => candidate.program.Respects count law) (trainer.test tree true)) :
    Answers allowed (fun challenger => ∀ candidate, challenger = some candidate →
      candidate.program.Respects count law) (trainer.refine entropy round elite) := by
  have unrefined : ∀ candidate : Candidate (Tree α) α, none = some candidate →
      candidate.program.Respects count law := by
    intro candidate found
    cases found
  rw [refine]
  dsimp only
  split
  · exact unrefined
  · have joined := joined_answers law improved entropy round elite.program.basicBlocks.length
      trainer.config.schedule.threads
      (min trainer.config.schedule.threads elite.program.basicBlocks.length)
    split
    · rename_i cause failed
      rw [failed] at joined
      exact joined
    · rename_i reports found
      rw [found] at joined
      split
      · exact unrefined
      · have merged := merge_respects respects joined
        have answered := (tested _ merged).answer
          (trainer.config.schedule.streamFor entropy round (2 * trainer.config.schedule.threads))
        generalize Draw.answer _ _ = answer at answered ⊢
        cases answer with
        | error failure => exact answered
        | ok candidate =>
          intro other same
          exact Option.some.inj same ▸ answered

end Merging

namespace Equipped

variable [Number α] {allowed : Failure → Prop} {law : BasicBlock α → Prop}
  {trainer : ControlTrainer α}

/-- A tree that obeys the law compiles, and then its runs fill every buffer. -/
theorem compiles (equipped : trainer.Equipped allowed law) {tree : Tree α}
    (respects : tree.Respects trainer.mutator.variableCount law) (instrumented : Bool) :
    ∃ program, tree.compile trainer.config.machine instrumented = .ok program ∧
      ∀ inputs buffer profile, ∃ outputs noted,
        program.run inputs buffer profile = (some outputs, noted) ∧
          outputs.size = buffer.size := by
  have same : trainer.config.machine.variableCount = trainer.mutator.variableCount :=
    equipped.same
  obtain ⟨program, compiled⟩ :=
    (Tree.compile_accepted_iff tree trainer.config.machine instrumented).mpr
      ⟨equipped.valid, same ▸ Tree.respects_mono equipped.fits tree respects⟩
  exact ⟨program, compiled, Tree.run_outputs compiled⟩

/-- Trials of a program that fills its buffers can be played. -/
theorem trials_ensures (equipped : trainer.Equipped allowed law) {program : Executable α}
    (fills : ∀ inputs buffer profile, ∃ outputs noted,
      program.run inputs buffer profile = (some outputs, noted) ∧ outputs.size = buffer.size)
    (runs : Nat) (profile : Option TreeProfile) (scores : List α) :
    Draw.Ensures allowed (fun _ => True) (trainer.trials program runs profile scores) := by
  induction runs generalizing profile scores with
  | zero => exact Draw.ensures_pure trivial
  | succ runs inductionHypothesis =>
    apply (equipped.fair.play_ensures fills profile).bind
    rintro ⟨score, noted⟩ _
    exact inductionHypothesis noted _

/-- Specializing keeps the law. -/
theorem specialize_respects (equipped : trainer.Equipped allowed law) {tree : Tree α} {count : Nat}
    (respects : tree.Respects count law) (profile : TreeProfile) :
    (trainer.specialize tree profile).Respects count law := by
  have committed := Tree.commit_branches_respects equipped.specializable respects profile
    trainer.config.variableCount
  apply Tree.strip_dead_loops_respects
  split
  · exact committed
  · exact Tree.speculate_branches_respects equipped.specializable committed profile _ _

/-- Testing keeps the law. -/
theorem test_ensures (equipped : trainer.Equipped allowed law) {tree : Tree α}
    (respects : tree.Respects trainer.mutator.variableCount law) (clearing : Bool) :
    Draw.Ensures allowed
      (fun candidate => candidate.program.Respects trainer.mutator.variableCount law)
      (trainer.test tree clearing) := by
  obtain ⟨instrumented, compiled, fills⟩ := equipped.compiles respects true
  rw [test]
  apply (Draw.ensures_of_except compiled rfl).bind
  rintro _ rfl
  apply (equipped.trials_ensures fills _ _ _).bind
  rintro ⟨profiled, profile⟩ _
  have specialized := equipped.specialize_respects respects (profile.getD TreeProfile.empty)
  obtain ⟨program, compiledToo, fillsToo⟩ := equipped.compiles specialized false
  apply (Draw.ensures_of_except compiledToo rfl).bind
  rintro _ rfl
  apply (equipped.trials_ensures fillsToo _ _ _).bind
  rintro ⟨heavy, _⟩ _
  apply Draw.ensures_pure
  cases clearing with
  | true => exact Tree.clear_specialized_respects equipped.specializable specialized
  | false => exact specialized

/-- Proposing keeps the law. -/
theorem propose_ensures (equipped : trainer.Equipped allowed law) {tree : Tree α}
    (respects : tree.Respects trainer.mutator.variableCount law) :
    Draw.Ensures (Overlooking allowed)
      (fun candidate => candidate.program.Respects trainer.mutator.variableCount law)
      (trainer.propose tree) := by
  apply (equipped.keeps.mutate_ensures tree respects).bind
  intro once first
  apply (equipped.keeps.mutate_ensures once first).bind
  intro twice second
  exact (equipped.test_ensures second true).overlook

/-- The basic blocks that a worker reports obey the law. -/
theorem improvements_ensures (equipped : trainer.Equipped allowed law)
    {elite : Candidate (Tree α) α}
    (respects : elite.program.Respects trainer.mutator.variableCount law)
    (ordinals : List Nat) :
    Draw.Ensures (Overlooking allowed) (fun reports => ∀ report ∈ reports, law report.2)
      (trainer.improvements elite ordinals) := by
  induction ordinals with
  | nil =>
    apply Draw.ensures_pure
    intro report member
    cases member
  | cons ordinal rest inductionHypothesis =>
    rw [improvements]
    split
    · exact inductionHypothesis
    · rename_i block found
      have holds := Tree.respects_blocks _ respects block (List.mem_of_getElem? found)
      apply (equipped.keeps.edited block holds).bind
      intro mutated obeys
      have changed := Tree.modify_basic_respects elite.program ordinal obeys respects
      apply (equipped.test_ensures changed false).overlook.bind
      intro candidate _
      apply inductionHypothesis.bind
      intro others each
      split
      · apply Draw.ensures_pure
        intro report member
        rcases List.mem_cons.mp member with rfl | later
        · exact obeys
        · exact each report later
      · exact Draw.ensures_pure each

/-- Every round of a training keeps the law. -/
theorem rounds_keeps (equipped : trainer.Equipped allowed law) (entropy : Entropy) :
    (trainer.rounds entropy).Keeps allowed
      (Tree.Respects trainer.mutator.variableCount law) := by
  constructor
  · intro round elite respects answer member
    obtain ⟨worker, _, rfl⟩ := List.mem_map.mp member
    exact (equipped.propose_ensures respects).answer _
  · intro round elite respects
    exact refine_keeps respects entropy (equipped.improvements_ensures respects)
      fun _ respects => equipped.test_ensures respects true

/-- A training from a tree that obeys the law ends with a tree that obeys it, or it fails for an
allowed reason. -/
theorem train_answers (equipped : trainer.Equipped allowed law) (entropy : Entropy)
    (start : Option (Tree α))
    (starts : (start.getD Tree.empty).Respects trainer.mutator.variableCount law) :
    Answers allowed
      (fun outcome => outcome.program.Respects trainer.mutator.variableCount law)
      (trainer.train entropy start).result :=
  Training.of_start_keeps (equipped.rounds_keeps entropy) _ _ (equipped.test_ensures starts true)

end Equipped

/-- A trainer that was made has a valid machine and a mutator for its variables. -/
theorem parts_of_make {config : ControlConfig} {environment : Trial α}
    {trainer : ControlTrainer α} (made : make config environment = .ok trainer) :
    trainer.config = config ∧ trainer.environment = environment ∧
      config.machine.validate = .ok () ∧
      Mutator.make config.variableCount config.blockComplexity config.odds =
        .ok trainer.mutator := by
  rw [make] at made
  cases found : config.mutator with
  | error cause =>
    rw [found] at made
    cases made
  | ok mutator =>
    rw [found] at made
    obtain rfl := Except.ok.inj made
    rw [ControlConfig.mutator, Refusal.check_ok_iff, ControlConfig.validate, Refusal.check_ok_iff,
      Refusal.check_ok_iff] at found
    exact ⟨rfl, rfl, found.1.2.1, found.2⟩

/-- A trainer that was made from a configuration is equipped for the shape of its trees, with the
mutator that is made for them, if the slots have addresses and the environment is fair. -/
theorem equipped_of_make [Number α] {allowed : Failure → Prop} {config : ControlConfig}
    {environment : Trial α} {trainer : ControlTrainer α} {mutator : Mutator}
    (made : make config environment = .ok trainer)
    (same : Mutator.make config.variableCount config.blockComplexity config.odds = .ok mutator)
    (addressable : config.blockComplexity ≤ Node.slotLimit) (fair : environment.Fair allowed) :
    trainer.Equipped allowed (BasicBlock.Shaped mutator.variableCount mutator.blockComplexity) ∧
      trainer.mutator = mutator := by
  obtain ⟨rfl, rfl, valid, chosen⟩ := parts_of_make made
  obtain rfl := Except.ok.inj (same.symm.trans chosen)
  have proper := Mutator.proper_of_make chosen addressable
  refine ⟨⟨proper.keeps, BasicBlock.shaped_specializable, ?_, ?_, valid, fair⟩, rfl⟩
  · intro code shaped
    exact shaped.fits proper.takes proper.more
  · exact (Mutator.count_of_make chosen).symm

/-- Trees keep their shape for as long as they evolve, and training cannot fail because of a tree.
Everything that evolves from the empty tree names only variables that exist, and its basic blocks,
in both forms, are valid, start with the variables, read no others and end with new ones. It can
always be mutated, and it compiles for every valid machine with its variables, instrumented or not.
A training from the empty tree, or from one that has evolved, ends with a tree of the same shape,
with a seed and, if it has none, on whatever streams the system provides. It fails only for a reason
that its environment may have to fail. -/
theorem evolving_trees_keep_shape [Number α] (count complexity : Nat) (odds : MutationOdds)
    (mutator : Mutator) (made : Mutator.make count complexity odds = .ok mutator)
    (addressable : complexity ≤ Node.slotLimit) :
    (∀ tree : Tree α, Tree.Evolves mutator tree →
      tree.Shaped count complexity ∧ Tree.Viable mutator tree) ∧
    ∀ (config : ControlConfig) (environment : Trial α) (trainer : ControlTrainer α)
      (allowed : Failure → Prop),
      config.variableCount = count → config.blockComplexity = complexity →
      config.odds = odds → make config environment = .ok trainer → environment.Fair allowed →
      ∀ (entropy : Entropy) (start : Option (Tree α)),
        (∀ tree, start = some tree → Tree.Evolves mutator tree) →
        Answers allowed (fun outcome => outcome.program.Shaped count complexity)
          (trainer.train entropy start).result := by
  have proper := Mutator.proper_of_make made addressable
  have shape : ∀ tree : Tree α, mutator.Works tree → tree.Shaped count complexity := by
    obtain ⟨_, _, _, rfl⟩ := (Mutator.make_ok_iff count complexity odds mutator).mp made
    exact fun tree works => works
  constructor
  · intro tree evolves
    have works := evolves.works proper
    exact ⟨shape tree works, Tree.viable_of_works works proper⟩
  · rintro config environment trainer allowed rfl rfl rfl trained fair entropy start starts
    obtain ⟨equipped, rfl⟩ := equipped_of_make trained made addressable fair
    have begun : trainer.mutator.Works (start.getD Tree.empty) := by
      cases start with
      | none => exact trivial
      | some tree => exact (starts tree rfl).works proper
    have answers := equipped.train_answers entropy start begun
    generalize (trainer.train entropy start).result = result at answers ⊢
    cases result with
    | ok outcome => exact shape _ answers
    | error failure => exact answers

/-- Two rounds with two workers. The three slots of a basic block hold two variables and two
outputs, so they share one of them. There is no seed. -/
def briefly : ControlConfig where
  schedule := ⟨2, 3, 1, 1, 2, 1, none⟩
  variableCount := 2
  blockComplexity := 3

/-- A training to add up numbers cannot fail, from the empty tree or from one that was mutated,
whatever is drawn. -/
theorem brief_accumulation_ends :
    ∃ mutator trainer, Mutator.make 2 3 {} = .ok mutator ∧ 3 ≤ Node.slotLimit ∧
      make briefly Trial.accumulation = .ok trainer ∧
      (∀ entropy, ∃ outcome, (trainer.train entropy none).result = .ok outcome ∧
        outcome.program.Shaped 2 3) ∧
      ∃ tree : Tree Float, Tree.Evolves mutator tree ∧
        ∀ entropy, ∃ outcome, (trainer.train entropy (some tree)).result = .ok outcome ∧
          outcome.program.Shaped 2 3 := by
  have made : Mutator.make 2 3 {} = .ok ⟨2, 3, {}⟩ := by rfl
  have trained : make briefly Trial.accumulation =
      .ok ⟨briefly, Trial.accumulation, ⟨2, 3, {}⟩⟩ := by rfl
  obtain ⟨viable, trains⟩ :=
    @evolving_trees_keep_shape Float _ 2 3 {} ⟨2, 3, {}⟩ made (by decide)
  have fair : Trial.accumulation.Fair fun _ => False :=
    (Draw.below_shifted_ensures (by decide)).weaken fun _ _ _ _ => trivial
  have ends : ∀ start, (∀ tree, start = some tree → Tree.Evolves ⟨2, 3, {}⟩ tree) →
      ∀ entropy, ∃ outcome,
        ((⟨briefly, Trial.accumulation, ⟨2, 3, {}⟩⟩ : ControlTrainer Float).train entropy
          start).result = .ok outcome ∧ outcome.program.Shaped 2 3 := by
    intro start evolves entropy
    have answers := trains briefly Trial.accumulation _ _ rfl rfl rfl trained fair entropy start
      evolves
    generalize ControlTrainer.train _ entropy start = training at answers ⊢
    generalize training.result = result at answers ⊢
    cases result with
    | ok outcome => exact ⟨outcome, rfl, answers⟩
    | error failure => exact answers.elim
  obtain ⟨tree, rest, drawn⟩ := (viable .empty .empty).2.mutates (Stream.cyclic #[0x9E3779B9])
  exact ⟨_, _, made, by decide, trained, ends none (by simp), tree, .mutated .empty drawn,
    ends (some tree) fun _ same => Option.some.inj same ▸ .mutated .empty drawn⟩

end ControlTrainer

end ProgramSearch
