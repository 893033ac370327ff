import ProgramSearch.Proofs.Number.Small
import ProgramSearch.Proofs.Program.Evolution
import ProgramSearch.Proofs.Training.Climb
import ProgramSearch.Training.Scalar

/-!
# Training keeps the shape of programs

Training cleans, profiles, repairs, specializes, runs and mutates programs, and all of this keeps
the shape that a fresh program has. A program of this shape compiles, so no request of the training
is ever refused, and it reads no more inputs than the data source provides. What is left to fail is
the data source and the reward. If these never fail, then every training has a result.
-/

namespace ProgramSearch

variable {α : Type} [Number α]

/-- Both forms of a speculative program compile, and they miss no input if they are given one for
each argument. -/
theorem Tiered.compiles {arguments size protectedStart : Nat} {nodes : Program α}
    {speculative : Option (Program α)}
    (shaped : Program.Shaped arguments size protectedStart nodes)
    (shapedToo : ∀ guarded, speculative = some guarded →
      Program.Shaped arguments size protectedStart guarded)
    (takes : 0 < arguments) (addressable : arguments ≤ Node.slotLimit) {outputs : Nat}
    (positive : 0 < outputs) (enough : outputs ≤ size)
    (protects : protectedStart ≤ size - outputs) :
    ∃ program, Tiered.compile speculative nodes outputs = .ok program ∧
      ∀ inputs buffer, arguments ≤ inputs.size →
        program.run inputs buffer ≠ .error .missingInput := by
  obtain ⟨baseline, compiled, arity⟩ :=
    shaped.compiles takes addressable positive enough protects {}
  have provided : ∀ inputs buffer, arguments ≤ inputs.size →
      (baseline.run inputs buffer).result ≠ .error .missingInput := by
    intro inputs buffer sufficient
    exact Program.run_provided compiled (arity ▸ sufficient) buffer
  cases speculative with
  | none =>
    refine ⟨⟨none, baseline⟩, ?_, provided⟩
    rw [Tiered.compile, compiled]
    rfl
  | some guarded =>
    obtain ⟨quick, compiledToo, arityToo⟩ :=
      (shapedToo guarded rfl).compiles takes addressable positive enough protects {}
    refine ⟨⟨some quick, baseline⟩, ?_, ?_⟩
    · simp only [Tiered.compile, compiled, Refusal.ok_bind, Option.mapM_some, compiledToo]
      rfl
    · intro inputs buffer sufficient
      rw [Tiered.run]
      have quickly := Program.run_provided compiledToo (arityToo ▸ sufficient) buffer
      dsimp only
      split
      · exact provided inputs buffer sufficient
      · exact quickly

namespace ScalarTrainer

/-- The programs that a trainer trains. -/
def Trains (trainer : ScalarTrainer α) : Program α → Prop :=
  Program.Plain trainer.config.arguments trainer.config.complexity trainer.config.outputsStart

/-- What a trainer needs. Its programs have arguments and an output and their slots have addresses,
its data source has an input for each argument and keeps the size of the buffer, and the data source
and the reward only fail for allowed reasons. -/
structure Equipped (allowed : Failure → Prop) (trainer : ScalarTrainer α) : Prop where
  takes : 0 < trainer.config.arguments
  more : trainer.config.arguments < trainer.config.complexity
  addressable : trainer.config.complexity ≤ Node.slotLimit
  provides : trainer.config.arguments ≤ trainer.data.arguments
  fills : ∀ buffer, Draw.Ensures allowed (fun filled => filled.size = buffer.size)
    (trainer.data.fill buffer)
  grades : ∀ inputs output, trainer.reward inputs output = none → allowed .crash

variable {allowed : Failure → Prop} {trainer : ScalarTrainer α}

namespace Equipped

/-- A run can be judged. -/
theorem judge_ensures (equipped : trainer.Equipped allowed) (inputs outputs : Array α) :
    Draw.Ensures allowed (fun _ => True) (trainer.judge inputs outputs) := by
  rw [judge]
  split
  · exact Draw.ensures_pure trivial
  · rename_i broken
    exact Draw.ensures_throw (equipped.grades _ _ broken)

/-- A profiling pass that is stopped was stopped by a signal of one of its runs. -/
theorem profile_ensures (equipped : trainer.Equipped allowed) {program : Compiled α}
    (provided : ∀ inputs, trainer.data.arguments ≤ inputs.size →
      (program.run inputs outputBuffer).result ≠ .error .missingInput)
    (runs : Nat) (inputs : Array α) (sized : trainer.data.arguments ≤ inputs.size)
    (observations : Observations) (scores : List α) :
    Draw.Ensures allowed
      (fun pass => ∀ cause, pass.2 = .error cause → ∃ inputs,
        (program.run inputs outputBuffer).result = .error (.signal cause))
      (trainer.profile program runs inputs observations scores) := by
  induction runs generalizing inputs observations scores with
  | zero =>
    apply Draw.ensures_pure
    intro cause failed
    cases failed
  | succ runs inductionHypothesis =>
    rw [profile]
    apply (equipped.fills inputs).bind
    intro filled same
    have sufficient : trainer.data.arguments ≤ filled.size := same ▸ sized
    dsimp only
    split
    · apply (equipped.judge_ensures _ _).bind
      intro score _
      exact inductionHypothesis filled sufficient _ _
    · rename_i cause stopped
      apply Draw.ensures_pure
      intro other failed
      obtain rfl := Except.error.inj failed
      exact ⟨filled, stopped⟩
    · rename_i missing
      exact absurd missing (provided filled sufficient)

/-- Cleaning keeps the shape. -/
theorem clean_ensures (equipped : trainer.Equipped allowed) {nodes : Program α}
    (trains : trainer.Trains nodes) :
    Draw.Ensures allowed trainer.Trains (trainer.clean nodes) := by
  apply (trains.repair_ensures equipped.addressable).bind
  intro result plain
  exact Draw.ensures_pure plain

/-- A program of the shape compiles for the only output, and then it misses no input. -/
theorem compiles (equipped : trainer.Equipped allowed) {nodes : Program α}
    (trains : trainer.Trains nodes) (mode : Program.Mode) :
    ∃ program, nodes.compile 1 mode = .ok program ∧
      ∀ inputs, trainer.data.arguments ≤ inputs.size →
        (program.run inputs outputBuffer).result ≠ .error .missingInput := by
  have more := equipped.more
  obtain ⟨program, compiled, arity⟩ := trains.toShaped.compiles equipped.takes
    (Nat.le_trans (Nat.le_of_lt more) equipped.addressable) Nat.one_pos (by omega) (Nat.le_refl _)
    mode
  refine ⟨program, compiled, fun inputs sufficient => ?_⟩
  exact Program.run_provided compiled (arity ▸ Nat.le_trans equipped.provides sufficient) _

/-- Profiling with repairs keeps the shape, whether the program can be profiled or not.

The induction is on the repairs that are left. A blamed slot holds no argument, so the program that
is profiled next has the shape again. -/
theorem profile_repairing_ensures (equipped : trainer.Equipped allowed) (repairs : Nat)
    {nodes : Program α} (trains : trainer.Trains nodes) :
    Draw.Ensures allowed
      (fun profiled => match profiled with
        | .complete result _ _ => trainer.Trains result
        | .rejected result => trainer.Trains result)
      (trainer.profileRepairing repairs nodes) := by
  induction repairs generalizing nodes with
  | zero =>
    obtain ⟨program, compiled, provided⟩ :=
      equipped.compiles trains { checked := true, profile := some 0 }
    rw [profileRepairing]
    apply (Draw.ensures_of_except compiled rfl).bind
    rintro _ rfl
    apply (equipped.profile_ensures provided _ _ (by simp [blankInputs]) _ _).bind
    rintro ⟨observations, outcome⟩ _
    cases outcome with
    | ok scores => exact Draw.ensures_pure trains
    | error cause => cases cause <;> exact Draw.ensures_pure trains
  | succ repairs inductionHypothesis =>
    obtain ⟨program, compiled, provided⟩ :=
      equipped.compiles trains { checked := true, profile := some 0 }
    rw [profileRepairing]
    apply (Draw.ensures_of_except compiled rfl).bind
    rintro _ rfl
    apply (equipped.profile_ensures provided _ _ (by simp [blankInputs]) _ _).bind
    rintro ⟨observations, outcome⟩ stopped
    cases outcome with
    | ok scores => exact Draw.ensures_pure trains
    | error cause =>
      cases cause with
      | invalidOperation blamed =>
        obtain ⟨inputs, ran⟩ := stopped _ rfl
        have computed := Program.blamed_computed compiled
          (trains.sized ▸ equipped.addressable) ran
        apply (trains.regenerate_ensures equipped.addressable (by simpa using computed)).bind
        intro regrown plain
        apply (equipped.clean_ensures plain).bind
        intro cleaned shaped
        exact inductionHypothesis shaped
      | bailout | loopBudgetExceeded | memoryExhausted | addressOutOfRange =>
        exact Draw.ensures_pure trains

/-- Heavy runs of a program that misses no input can be judged. -/
theorem heavy_ensures (equipped : trainer.Equipped allowed) {program : Tiered α}
    (provided : ∀ inputs, trainer.data.arguments ≤ inputs.size →
      program.run inputs outputBuffer ≠ .error .missingInput)
    (runs : Nat) (inputs : Array α) (sized : trainer.data.arguments ≤ inputs.size)
    (scores : List α) :
    Draw.Ensures allowed (fun _ => True) (trainer.heavy program runs inputs scores) := by
  induction runs generalizing inputs scores with
  | zero => exact Draw.ensures_pure trivial
  | succ runs inductionHypothesis =>
    rw [heavy]
    apply (equipped.fills inputs).bind
    intro filled same
    have sufficient : trainer.data.arguments ≤ filled.size := same ▸ sized
    split
    · apply (equipped.judge_ensures _ _).bind
      intro score _
      exact inductionHypothesis filled sufficient _
    · rw [pure_bind]
      exact inductionHypothesis filled sufficient _
    · rename_i missing
      exact absurd missing (provided filled sufficient)

/-- The speculative form of a program, if there is one, has the shape too. -/
theorem speculative_shaped (observations : Observations) {nodes guarded : Program α}
    (trains : trainer.Trains nodes)
    (given : trainer.speculative? observations nodes = some guarded) :
    Program.Shaped trainer.config.arguments trainer.config.complexity
      trainer.config.outputsStart guarded := by
  rw [speculative?] at given
  split at given
  · cases given
  · rename_i sides _
    dsimp only at given
    split at given
    · cases given
    · obtain rfl := Option.some.inj given
      exact trains.toShaped.copied (Program.prune_guarded nodes _ sides)

/-- Specializing and scoring keeps the shape. -/
theorem specialize_ensures (equipped : trainer.Equipped allowed) {nodes : Program α}
    (trains : trainer.Trains nodes) (observations : Observations) (scores : List α) :
    Draw.Ensures allowed (fun candidate => trainer.Trains candidate.program)
      (trainer.specialize nodes observations scores) := by
  have more := equipped.more
  have specialized : trainer.Trains
      ((nodes.prune trainer.config.arguments observations.seen false).1.optimize
        trainer.config.outputsStart).nodes :=
    (trains.committed _ observations.seen).optimized
  obtain ⟨program, compiled, provided⟩ := Tiered.compiles specialized.toShaped
    (fun _ given => speculative_shaped observations specialized given)
    equipped.takes (Nat.le_trans (Nat.le_of_lt more) equipped.addressable) Nat.one_pos
    (by omega) (Nat.le_refl _)
  rw [specialize]
  apply (Draw.ensures_of_except compiled rfl).bind
  rintro _ rfl
  have fed : ∀ inputs, trainer.data.arguments ≤ inputs.size →
      program.run inputs outputBuffer ≠ .error .missingInput :=
    fun inputs sufficient => provided inputs _ (Nat.le_trans equipped.provides sufficient)
  apply (equipped.heavy_ensures fed _ _ (by simp [blankInputs]) _).bind
  intro heavyScores _
  exact Draw.ensures_pure specialized

/-- Evaluating keeps the shape. -/
theorem evaluate_ensures (equipped : trainer.Equipped allowed) {nodes : Program α}
    (trains : trainer.Trains nodes) :
    Draw.Ensures allowed (fun candidate => trainer.Trains candidate.program)
      (trainer.evaluate nodes) := by
  apply (equipped.clean_ensures trains).bind
  intro cleaned shaped
  apply (equipped.profile_repairing_ensures _ shaped).bind
  intro profiled outcome
  cases profiled with
  | rejected result => exact Draw.ensures_pure outcome
  | complete result observations scores =>
    exact equipped.specialize_ensures outcome observations scores

/-- Proposing keeps the shape. -/
theorem propose_ensures (equipped : trainer.Equipped allowed) {nodes : Program α}
    (trains : trainer.Trains nodes) :
    Draw.Ensures allowed (fun candidate => trainer.Trains candidate.program)
      (trainer.propose nodes) := by
  apply (trains.mutate_ensures equipped.addressable).bind
  rintro ⟨once, _⟩ first
  apply (Program.Plain.mutate_ensures first equipped.addressable).bind
  rintro ⟨twice, _⟩ second
  exact equipped.evaluate_ensures second

/-- A fresh program has the shape. -/
theorem initial_ensures (equipped : trainer.Equipped allowed) :
    Draw.Ensures allowed trainer.Trains trainer.initial := by
  apply (Program.generate_ensures equipped.takes equipped.more equipped.addressable).bind
  intro nodes plain
  exact equipped.clean_ensures (plain.relax (Nat.zero_le _))

/-- Every round of a training keeps the shape. -/
theorem rounds_keeps (equipped : trainer.Equipped allowed) (entropy : Entropy) :
    (trainer.rounds entropy).Keeps allowed trainer.Trains := by
  constructor
  · intro round elite trains answer member
    obtain ⟨worker, _, rfl⟩ := List.mem_map.mp member
    exact (equipped.propose_ensures trains).overlook.answer _
  · intro round elite _ candidate found
    cases found

/-- A training from a program of the shape, or from a fresh one, ends with a program of the shape,
or it fails for an allowed reason. -/
theorem train_answers (equipped : trainer.Equipped allowed) (entropy : Entropy)
    (start : Option (Program α)) (starts : ∀ nodes, start = some nodes → trainer.Trains nodes) :
    Answers allowed (fun outcome => trainer.Trains outcome.program)
      (trainer.train entropy start).result := by
  apply Training.of_start_keeps (equipped.rounds_keeps entropy)
  cases start with
  | none =>
    apply equipped.initial_ensures.bind
    intro nodes trains
    exact equipped.evaluate_ensures trains
  | some nodes =>
    have trains := starts nodes rfl
    have accepted : trainer.accept nodes = .ok nodes := by
      have valid := (Program.validate_ok_iff nodes).mpr trains.valid
      simp only [accept, trains.sized, ne_eq, not_true_eq_false, if_false, valid]
      rfl
    apply (Draw.ensures_of_except accepted rfl).bind
    rintro _ rfl
    exact equipped.evaluate_ensures trains

end Equipped

omit [Number α] in
/-- A trainer is made from a configuration that is accepted, if the data source has an input for
each argument. -/
theorem make_ok_iff (config : ScalarConfig) (reward : Reward α) (data : DataSource α) :
    make config reward data = .ok trainer ↔
      config.validate = .ok () ∧ config.arguments ≤ data.arguments ∧
        ⟨config, reward, data⟩ = trainer := by
  simp only [make, Refusal.check_ok_iff, Refusal.refuse_ok_iff, Nat.not_lt]
  simp only [pure, Except.pure, Except.ok.injEq]

/-- Programs keep their shape for as long as they evolve, and training cannot fail because of a
program. Fresh programs are always found, whatever words are drawn, and everything that evolves from
them is viable: it is valid, starts with its arguments and reads no others, has an output and no
guards, compiles with exactly its arguments, and can be changed again. A training from a fresh
program, or from one that has evolved, ends with a program of the same shape, with a seed and, if
it has none, on whatever streams the system provides. It fails only for a reason that its data
source or its reward may have to fail. -/
theorem evolving_programs_keep_shape (arguments complexity : Nat) (takes : 0 < arguments)
    (more : arguments < complexity) (addressable : complexity ≤ Node.slotLimit) :
    (∀ stream, ∃ nodes rest,
      (Program.generate arguments complexity : Draw (Program α)) stream = .ok nodes rest) ∧
    (∀ nodes : Program α, Program.Evolves arguments complexity nodes →
      Program.Viable arguments complexity nodes) ∧
    ∀ (config : ScalarConfig) (reward : Reward α) (data : DataSource α)
      (trainer : ScalarTrainer α) (allowed : Failure → Prop),
      config.arguments = arguments → config.complexity = complexity →
      make config reward data = .ok trainer →
      (∀ buffer, Draw.Ensures allowed (fun filled => filled.size = buffer.size)
        (data.fill buffer)) →
      (∀ inputs output, reward inputs output = none → allowed .crash) →
      ∀ (entropy : Entropy) (start : Option (Program α)),
        (∀ nodes, start = some nodes → Program.Evolves arguments complexity nodes) →
        Answers allowed
          (fun outcome => Program.Plain arguments complexity (complexity - 1) outcome.program)
          (trainer.train entropy start).result := by
  refine ⟨?_, ?_, ?_⟩
  · intro stream
    have fresh : Draw.Ensures (fun _ => False) (Program.Plain arguments complexity 0)
        (Program.generate arguments complexity : Draw (Program α)) :=
      Program.generate_ensures takes more addressable
    obtain ⟨nodes, rest, drawn, _⟩ := fresh.total stream
    exact ⟨nodes, rest, drawn⟩
  · intro nodes evolves
    exact (evolves.plain takes more addressable).viable takes more addressable
  · rintro config reward data trainer allowed rfl rfl made fills grades entropy start starts
    obtain ⟨_, provides, rfl⟩ := (make_ok_iff config reward data).mp made
    have equipped : Equipped allowed ⟨config, reward, data⟩ :=
      ⟨takes, more, addressable, provides, fills, grades⟩
    exact equipped.train_answers entropy start fun nodes given =>
      (starts nodes given).plain takes more addressable

/-- Both inputs of a trial are the same random number. -/
def twins : DataSource Small where
  arguments := 2
  fill buffer := do
    let number ← Draw.belowWide 100
    pure (buffer.map fun _ => Small.ofInt number)

/-- Larger outputs are better. -/
def greed : Reward Small := fun _ output => some output

/-- Two rounds with one worker and programs of six slots, some of them speculative. There is no
seed. -/
def briefly : ScalarConfig where
  schedule := ⟨2, 3, 1, 1, 1, 1, none⟩
  arguments := 2
  complexity := 6

/-- Neither the numbers nor the reward can fail, so training always has a result, from a fresh
program and from one that evolved before, whatever is drawn. -/
theorem brief_training_ends :
    0 < 2 ∧ 2 < 6 ∧ 6 ≤ Node.slotLimit ∧
      ∃ trainer, make briefly greed twins = .ok trainer ∧
        (∀ entropy, ∃ outcome, (trainer.train entropy none).result = .ok outcome ∧
          outcome.program.size = 6) ∧
        ∃ nodes : Program Small, Program.Evolves 2 6 nodes ∧
          ∀ entropy, ∃ outcome, (trainer.train entropy (some nodes)).result = .ok outcome ∧
            outcome.program.size = 6 := by
  obtain ⟨fresh, _, trains⟩ :=
    @evolving_programs_keep_shape Small _ 2 6 (by decide) (by decide) (by decide)
  have fills : ∀ buffer, Draw.Ensures (fun _ => False) (fun filled => filled.size = buffer.size)
      (twins.fill buffer) := by
    intro buffer
    apply (Draw.below_wide_ensures (by decide)).bind
    intro number _
    exact Draw.ensures_pure Array.size_map
  have ends : ∀ start, (∀ nodes, start = some nodes → Program.Evolves 2 6 nodes) →
      ∀ entropy, ∃ outcome,
        ((⟨briefly, greed, twins⟩ : ScalarTrainer Small).train entropy start).result =
          .ok outcome ∧ outcome.program.size = 6 := by
    intro start evolves entropy
    have answers := trains briefly greed twins ⟨briefly, greed, twins⟩ (fun _ => False) rfl rfl rfl
      fills (fun _ _ broken => nomatch broken) entropy start evolves
    generalize (train _ entropy start).result = result at answers ⊢
    cases result with
    | ok outcome => exact ⟨outcome, rfl, answers.sized⟩
    | error failure => exact answers.elim
  obtain ⟨nodes, rest, drawn⟩ := fresh (Stream.cyclic #[0x9E3779B9, 0x243F6A88, 0xB7E15162])
  exact ⟨by decide, by decide, by decide, _, rfl, ends none (by simp), nodes, .generated drawn,
    ends (some nodes) fun _ same => Option.some.inj same ▸ .generated drawn⟩

end ScalarTrainer

end ProgramSearch
