import ProgramSearch.Proofs.Branch.Agreement
import ProgramSearch.Proofs.Program.Commitment
import ProgramSearch.Proofs.Program.Evolution
import ProgramSearch.Proofs.Program.Regular
import ProgramSearch.Proofs.Training.Agreement
import ProgramSearch.Training.Scalar

/-!
# The speculation threshold of straight-line training

A threshold decides how branches are observed and which guards are put up. Neither is visible in a
training. Observers that are told the same reports have seen the same sides, so the same branches
are committed; and a guarded copy runs as its baseline, so heavy runs give the same scores. Trainers
that differ in their threshold only therefore draw the same words in all trials of all rounds.

This takes programs that find all the inputs that they read. A missing input is only noticed when it
is evaluated, and a guarded copy may get by with less than its baseline evaluates.
-/

namespace ProgramSearch

/-- The same schedule with another speculation threshold. -/
def TrainingSchedule.withThreshold (schedule : TrainingSchedule) (threshold : Nat) :
    TrainingSchedule :=
  { schedule with speculationThreshold := threshold }

/-- The same configuration with another speculation threshold. -/
def ScalarConfig.withThreshold (config : ScalarConfig) (threshold : Nat) : ScalarConfig :=
  { config with schedule := config.schedule.withThreshold threshold }

namespace Observations

/-- What observers with different thresholds have after the same reports. -/
def Twins (threshold otherThreshold : Nat) (first second : Observations) : Prop :=
  ∃ reports : List Report, first = reports.foldl record (new threshold) ∧
    second = reports.foldl record (new otherThreshold)

variable {threshold otherThreshold : Nat} {first second : Observations}

/-- At the start nothing was reported to either observer. -/
theorem twins_new : Twins threshold otherThreshold (new threshold) (new otherThreshold) :=
  ⟨[], rfl, rfl⟩

/-- Observers that have the same reports so far may be told the same again. -/
theorem Twins.record_all (twins : Twins threshold otherThreshold first second)
    (reports : List Report) :
    Twins threshold otherThreshold (reports.foldl record first) (reports.foldl record second) := by
  obtain ⟨earlier, rfl, rfl⟩ := twins
  exact ⟨earlier ++ reports, (List.foldl_append ..).symm, (List.foldl_append ..).symm⟩

/-- The sides that were seen are listed in order. -/
theorem seen_ordered (observations : Observations) : observations.seen.Ordered := by
  cases observations with
  | sides profile => exact profile.sides_ordered 0
  | counts profile => exact profile.sides_ordered 0 0

/-- Whatever the thresholds are, the same reports make the same sides seen. -/
theorem Twins.seen_eq (twins : Twins threshold otherThreshold first second) :
    first.seen = second.seen := by
  obtain ⟨reports, rfl, rfl⟩ := twins
  apply Sides.eq_of_lists (seen_ordered _) (seen_ordered _)
  intro slot taken
  rw [seen_lists_iff, seen_lists_iff]

end Observations

variable {α : Type} [Number α]

/-- A slot that a run blames is a slot of the program. -/
theorem Program.blamed_inside {nodes : Program α} {outputs : Nat} {mode : Program.Mode}
    {program : Compiled α} (compiled : nodes.compile outputs mode = .ok program)
    {inputs buffer : Array α} {blamed : UInt16}
    (stopped : (program.run inputs buffer).result = .error (.signal (.invalidOperation blamed))) :
    blamed.toNat < nodes.size := by
  obtain ⟨_, _, linked⟩ := linked_of_compile compiled
  cases linked.run_stops inputs buffer _ stopped with
  | @operator slot op lhs rhs held =>
    rw [UInt16.toNat_ofNat']
    exact Nat.lt_of_le_of_lt (Nat.mod_le _ _) (node_bound nodes slot _ held)

namespace ScalarTrainer

/-- The same trainer with another speculation threshold. -/
def withThreshold (trainer : ScalarTrainer α) (threshold : Nat) : ScalarTrainer α :=
  { trainer with config := trainer.config.withThreshold threshold }

/-- The programs that find all inputs that they read, and hold no guards of their own. -/
def Provides (trainer : ScalarTrainer α) : Program α → Prop :=
  Program.Regular trainer.data.arguments

/-- The observations that two trainers make of the same reports. -/
abbrev Twins (trainer : ScalarTrainer α) (threshold : Nat) : Observations → Observations → Prop :=
  Observations.Twins trainer.config.schedule.speculationThreshold threshold

/-- Both trainers found the same program and the same scores, and observed the same reports. -/
inductive ProfiledAlike (trainer : ScalarTrainer α) (threshold : Nat) :
    Profiled α → Profiled α → Prop where
  | complete {nodes : Program α} {first second : Observations} (scores : List α) :
      trainer.Provides nodes → trainer.Twins threshold first second →
        ProfiledAlike trainer threshold (.complete nodes first scores)
          (.complete nodes second scores)
  | rejected {nodes : Program α} :
      trainer.Provides nodes → ProfiledAlike trainer threshold (.rejected nodes) (.rejected nodes)

variable {trainer : ScalarTrainer α} (threshold : Nat)

/-- Passes over the same program take the same trials and stop for the same reason. -/
theorem profile_alike (program : Compiled α) (runs : Nat) (inputs : Array α)
    {first second : Observations} (twins : trainer.Twins threshold first second)
    (scores : List α) :
    Draw.Alike
      (fun pass other => trainer.Twins threshold pass.1 other.1 ∧ pass.2 = other.2 ∧
        ∀ cause, pass.2 = .error cause → ∃ inputs,
          (program.run inputs outputBuffer).result = .error (.signal cause))
      (trainer.profile program runs inputs first scores)
      ((trainer.withThreshold threshold).profile program runs inputs second scores) := by
  induction runs generalizing inputs first second scores with
  | zero =>
    apply Draw.alike_pure
    exact ⟨twins, rfl, fun _ failed => nomatch failed⟩
  | succ runs inductionHypothesis =>
    rw [profile, profile]
    apply Draw.Ensures.then_alike (Draw.ensures_any (trainer.data.fill inputs))
    intro filled _
    have told := twins.record_all (program.run filled outputBuffer).reports
    dsimp only
    split
    · apply Draw.Ensures.then_alike (Draw.ensures_any (trainer.judge filled _))
      intro score _
      exact inductionHypothesis filled told _
    · rename_i cause stopped
      apply Draw.alike_pure
      refine ⟨told, rfl, fun other failed => ?_⟩
      obtain rfl := Except.error.inj failed
      exact ⟨filled, stopped⟩
    · exact Draw.alike_throw .crash

/-- Cleaning keeps to the inputs that are there. -/
theorem clean_provides {nodes : Program α} (provides : trainer.Provides nodes) :
    Draw.Ensures (fun _ => True) trainer.Provides (trainer.clean nodes) := by
  apply (Program.Regular.repair_ensures provides _).bind
  intro result regular
  exact Draw.ensures_pure regular

/-- Profiling with repairs finds the same program, whatever the threshold is. The induction is on
the repairs that are left: both trainers blame the same slot and draw the same node for it. -/
theorem profile_repairing_alike (repairs : Nat) {nodes : Program α}
    (provides : trainer.Provides nodes) :
    Draw.Alike (trainer.ProfiledAlike threshold) (trainer.profileRepairing repairs nodes)
      ((trainer.withThreshold threshold).profileRepairing repairs nodes) := by
  induction repairs generalizing nodes with
  | zero =>
    rw [profileRepairing, profileRepairing]
    apply (Draw.of_except_ensures _).then_alike
    intro program compiled
    apply (profile_alike threshold program _ _ Observations.twins_new []).bind
    rintro ⟨first, outcome⟩ ⟨second, _⟩ ⟨twins, rfl, stopped⟩
    cases outcome with
    | ok scores => exact Draw.alike_pure (.complete scores provides twins)
    | error cause => cases cause <;> exact Draw.alike_pure (.rejected provides)
  | succ repairs inductionHypothesis =>
    rw [profileRepairing, profileRepairing]
    apply (Draw.of_except_ensures _).then_alike
    intro program compiled
    apply (profile_alike threshold program _ _ Observations.twins_new []).bind
    rintro ⟨first, outcome⟩ ⟨second, _⟩ ⟨twins, rfl, stopped⟩
    cases outcome with
    | ok scores => exact Draw.alike_pure (.complete scores provides twins)
    | error cause =>
      cases cause with
      | invalidOperation blamed =>
        obtain ⟨inputs, ran⟩ := stopped _ rfl
        have inside := Program.blamed_inside compiled ran
        apply (Program.Regular.regenerate_ensures provides (by simpa using inside)).then_alike
        intro regrown regular
        apply (clean_provides regular).then_alike
        intro cleaned provided
        exact inductionHypothesis provided
      | bailout | loopBudgetExceeded | memoryExhausted | addressOutOfRange =>
        exact Draw.alike_pure (.rejected provides)

/-- The data source fills a buffer and leaves its size as it is. -/
def Fills (trainer : ScalarTrainer α) : Prop :=
  ∀ buffer, Draw.Ensures (fun _ => True) (fun filled => filled.size = buffer.size)
    (trainer.data.fill buffer)

/-- Heavy runs of programs that run alike have the same scores. -/
theorem heavy_alike (fills : trainer.Fills) {program other : Tiered α}
    (alike : Tiered.Alike trainer.data.arguments program other) (runs : Nat) (inputs : Array α)
    (sized : trainer.data.arguments ≤ inputs.size) (scores : List α) :
    Draw.Alike (Draw.Shared fun _ => True) (trainer.heavy program runs inputs scores)
      ((trainer.withThreshold threshold).heavy other runs inputs scores) := by
  induction runs generalizing inputs scores with
  | zero => exact Draw.alike_pure ⟨rfl, trivial⟩
  | succ runs inductionHypothesis =>
    rw [heavy, heavy]
    apply (fills inputs).then_alike
    intro filled same
    have enough : trainer.data.arguments ≤ filled.size := same ▸ sized
    rw [← alike filled outputBuffer enough]
    split
    · apply Draw.Ensures.then_alike (Draw.ensures_any (trainer.judge filled _))
      intro score _
      exact inductionHypothesis filled enough _
    · rw [pure_bind, pure_bind]
      exact inductionHypothesis filled enough _
    · exact Draw.alike_throw .crash

/-- The speculative form of a program is a guarded copy, if there is one. -/
theorem speculative_copies (trainer : ScalarTrainer α) (observations : Observations)
    (nodes : Program α) : Tiered.Copies nodes (trainer.speculative? observations nodes) := by
  intro copy given
  rw [speculative?] at given
  split at given
  · cases given
  · rename_i sides _
    dsimp only at given
    split at given
    · cases given
    · exact Option.some.inj given ▸ Program.prune_guarded nodes _ sides

/-- Specializing commits the same branches and gives the same score, whether guards are put up or
not. -/
theorem specialize_alike (fills : trainer.Fills) {nodes : Program α}
    (provides : trainer.Provides nodes) {first second : Observations}
    (twins : trainer.Twins threshold first second) (scores : List α) :
    Draw.Alike (Draw.Shared fun candidate => trainer.Provides candidate.program)
      (trainer.specialize nodes first scores)
      ((trainer.withThreshold threshold).specialize nodes second scores) := by
  have regular := (Program.Regular.committed provides trainer.config.arguments
    first.seen).optimized trainer.config.outputsStart
  rw [specialize, specialize, ← twins.seen_eq]
  apply (Tiered.compile_alike regular (speculative_copies trainer first _)
    (speculative_copies (trainer.withThreshold threshold) second _) 1).bind
  intro program other alike
  apply (heavy_alike threshold fills alike _ _ (by simp [blankInputs]) []).bind
  rintro heavyScores _ ⟨rfl, _⟩
  exact Draw.alike_pure ⟨rfl, regular⟩

/-- Evaluating a program finds the same candidate. -/
theorem evaluate_alike (fills : trainer.Fills) {nodes : Program α}
    (provides : trainer.Provides nodes) :
    Draw.Alike (Draw.Shared fun candidate => trainer.Provides candidate.program)
      (trainer.evaluate nodes) ((trainer.withThreshold threshold).evaluate nodes) := by
  apply (clean_provides provides).then_alike
  intro cleaned provided
  apply (profile_repairing_alike threshold _ provided).bind
  intro profiled other alike
  cases alike with
  | complete scores provided twins =>
    exact specialize_alike threshold fills provided twins scores
  | rejected provided => exact Draw.alike_pure ⟨rfl, provided⟩

/-- Proposals are the same. -/
theorem propose_alike (fills : trainer.Fills) {nodes : Program α}
    (provides : trainer.Provides nodes) :
    Draw.Alike (Draw.Shared fun candidate => trainer.Provides candidate.program)
      (trainer.propose nodes) ((trainer.withThreshold threshold).propose nodes) := by
  apply (Program.Regular.mutate_ensures provides _).then_alike
  rintro ⟨once, _⟩ first
  apply (Program.Regular.mutate_ensures first _).then_alike
  rintro ⟨twice, _⟩ second
  exact evaluate_alike threshold fills second

/-- Rounds keep to programs that find their inputs. -/
theorem rounds_provide (fills : trainer.Fills) (entropy : Entropy) :
    (trainer.rounds entropy).Keeps (fun _ => True) trainer.Provides := by
  constructor
  · intro round elite provides answer member
    obtain ⟨worker, _, rfl⟩ := List.mem_map.mp member
    exact (propose_alike 0 fills provides).ensures.overlook.answer _
  · intro round elite _ candidate found
    cases found

/-- On such programs, trainers that differ in their threshold agree. -/
theorem rounds_agree (fills : trainer.Fills) (entropy : Entropy) :
    (trainer.rounds entropy).Agree ((trainer.withThreshold threshold).rounds entropy)
      trainer.Provides where
  propose round elite provides := by
    have same := (propose_alike threshold fills provides).same
    simp only [rounds, ← same]
    rfl
  refine _ _ _ := rfl
  size := rfl

/-- A fresh program finds its inputs, if the data source has one for each argument. -/
theorem initial_provides (enough : trainer.config.arguments ≤ trainer.data.arguments) :
    Draw.Ensures (fun _ => True) trainer.Provides trainer.initial := by
  apply Program.generated_plain.bind
  intro nodes plain
  exact clean_provides (plain.regular.relax enough)

omit [Number α] in
/-- A program that is accepted finds its inputs, if it reads none that the data source does not
provide. -/
theorem accepted_provides {nodes : Program α} (unguarded : nodes.Unguarded)
    (confined : nodes.Confined trainer.data.arguments) :
    Draw.Ensures (fun _ => True) trainer.Provides (Draw.ofExcept (trainer.accept nodes)) := by
  apply (Draw.of_except_ensures _).weaken
  intro accepted same
  simp only [accept, Refusal.refuse_ok_iff, Refusal.check_ok_iff] at same
  obtain ⟨_, valid, same⟩ := same
  obtain rfl := Except.ok.inj same
  exact ⟨(Program.validate_ok_iff nodes).mp valid, unguarded, confined⟩

/-- From a fresh program, or from a supplied one that holds no guards and reads no inputs that the
data source does not provide, trainings with different thresholds are the same. -/
theorem train_agrees (fills : trainer.Fills)
    (enough : trainer.config.arguments ≤ trainer.data.arguments) (entropy : Entropy)
    (start : Option (Program α)) (starts : ∀ nodes, start = some nodes →
      nodes.Unguarded ∧ nodes.Confined trainer.data.arguments) :
    (trainer.withThreshold threshold).train entropy start = trainer.train entropy start := by
  symm
  apply Training.of_start_agree (rounds_agree threshold fills entropy)
    (rounds_provide fills entropy)
  cases start with
  | none =>
    apply (initial_provides enough).then_alike
    intro nodes provides
    exact evaluate_alike threshold fills provides
  | some nodes =>
    obtain ⟨unguarded, confined⟩ := starts nodes rfl
    apply (accepted_provides unguarded confined).then_alike
    intro nodes provides
    exact evaluate_alike threshold fills provides

end ScalarTrainer

end ProgramSearch
