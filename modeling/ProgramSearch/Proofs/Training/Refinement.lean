import Mathlib.Data.List.Flatten
import Mathlib.Data.List.Nodup
import ProgramSearch.Proofs.Random.Draw
import ProgramSearch.Proofs.Training.Sharing
import ProgramSearch.Proofs.Tree.Places

/-!
# Refining every basic block once

To refine the elite, the workers share its basic blocks. Each worker takes the blocks whose numbers
leave its own remainder, so every block has exactly one worker. The worker mutates each of its blocks
on its own and tests the elite with this one mutation, and it reports those mutations that beat the
elite. A worker that breaks off reports nothing at all.

The reported numbers are all different, so it does not matter which mutation is put into the tree
first: the merged tree is the elite with exactly the reported blocks replaced. It is tested if there
is any, and nothing of this depends on the order in which the workers come to an end.
-/

namespace ProgramSearch

variable {α β : Type}

/-- An answer is a result that is drawn, without the rest of the stream. -/
theorem Draw.answer_ok_iff {request : Draw β} {stream : Stream} {value : β} :
    request.answer stream = .ok value ↔ ∃ rest, request stream = .ok value rest := by
  rw [answer]
  cases request stream <;> simp

namespace ControlTrainer

open ProgramSearch.Tree (numbered)

section Shares

variable {workers blocks worker ordinal : Nat}

/-- A worker refines the basic blocks whose numbers leave its own remainder. -/
theorem mem_share :
    ordinal ∈ share workers blocks worker ↔ ordinal < blocks ∧ ordinal % workers = worker := by
  simp [share]

theorem share_nodup (workers blocks worker : Nat) : (share workers blocks worker).Nodup :=
  List.nodup_range.filter _

/-- The workers that are not idle refine no basic block twice. -/
theorem shares_nodup (workers blocks : Nat) :
    ((List.range (min workers blocks)).flatMap (share workers blocks)).Nodup := by
  rw [List.nodup_flatMap]
  refine ⟨fun worker _ => share_nodup workers blocks worker, ?_⟩
  apply List.nodup_range.imp
  intro worker other different ordinal own others
  exact different ((mem_share.mp own).2.symm.trans (mem_share.mp others).2)

/-- Each basic block is refined by exactly one of the workers that are not idle. -/
theorem shares_perm (occupied : 0 < workers) (blocks : Nat) :
    ((List.range (min workers blocks)).flatMap (share workers blocks)).Perm
      (List.range blocks) := by
  rw [List.perm_ext_iff_of_nodup (shares_nodup workers blocks) List.nodup_range]
  intro ordinal
  simp only [List.mem_flatMap, List.mem_range, mem_share]
  constructor
  · rintro ⟨_, _, inside, _⟩
    exact inside
  · intro inside
    have small := Nat.mod_lt ordinal occupied
    have fewer := Nat.mod_le ordinal workers
    exact ⟨ordinal % workers, by omega, inside, rfl⟩

end Shares

section Examinations

variable [Number α]

/-- A mutated basic block, with the tested elite that has it. -/
structure Examination (α : Type) where
  ordinal : Nat
  mutated : BasicBlock α
  candidate : Candidate (Tree α) α

/-- Each listed basic block of the elite is mutated, and the elite with this mutation alone is
tested, one after another. -/
inductive Examines (trainer : ControlTrainer α) (elite : Candidate (Tree α) α) :
    List Nat → Stream → List (Examination α) → Stream → Prop where
  | done (stream : Stream) : Examines trainer elite [] stream [] stream
  | next {ordinal : Nat} {rest : List Nat} {code mutated : BasicBlock α}
    {candidate : Candidate (Tree α) α} {examinations : List (Examination α)}
    {stream drawn tested final : Stream}
    (present : elite.program.basicBlocks[ordinal]? = some code)
    (mutates : trainer.mutator.mutateBasicBlock code stream = .ok mutated drawn)
    (tests : trainer.test (elite.program.modifyBasic ordinal fun _ => mutated) false drawn =
      .ok candidate tested)
    (others : Examines trainer elite rest tested examinations final) :
    Examines trainer elite (ordinal :: rest) stream (⟨ordinal, mutated, candidate⟩ :: examinations)
      final

/-- The mutations that beat the elite. -/
def improving (elite : Candidate (Tree α) α) (examinations : List (Examination α)) :
    List (Nat × BasicBlock α) :=
  (examinations.filter fun examination =>
    Number.below elite.score examination.candidate.score).map fun examination =>
      (examination.ordinal, examination.mutated)

/-- An examination adds its mutation if that beats the elite. -/
theorem improving_cons (elite : Candidate (Tree α) α) (examination : Examination α)
    (rest : List (Examination α)) :
    improving elite (examination :: rest) =
      if Number.below elite.score examination.candidate.score then
        (examination.ordinal, examination.mutated) :: improving elite rest
      else improving elite rest := by
  by_cases better : Number.below elite.score examination.candidate.score <;>
    simp [improving, better]

/-- The mutations that beat the elite are mutations of different basic blocks if the examinations
are. -/
theorem improving_sublist (elite : Candidate (Tree α) α) (examinations : List (Examination α)) :
    ((improving elite examinations).map Prod.fst).Sublist (examinations.map (·.ordinal)) := by
  rw [improving, List.map_map]
  exact List.filter_sublist.map _

variable {trainer : ControlTrainer α} {elite : Candidate (Tree α) α}

/-- Exactly the listed basic blocks are examined. -/
theorem Examines.ordinals {ordinals : List Nat} {stream final : Stream}
    {examinations : List (Examination α)}
    (examines : trainer.Examines elite ordinals stream examinations final) :
    examinations.map (·.ordinal) = ordinals := by
  induction examines with
  | done => rfl
  | next _ _ _ _ inductionHypothesis => exact congrArg (List.cons _) inductionHypothesis

/-- A worker that does not break off examines its basic blocks, and reports the mutations that beat
the elite. The induction is on the basic blocks that are left. -/
theorem improvements_ok_iff {ordinals : List Nat}
    (present : ∀ ordinal ∈ ordinals, ordinal < elite.program.basicBlocks.length)
    {stream final : Stream} {reports : List (Nat × BasicBlock α)} :
    trainer.improvements elite ordinals stream = .ok reports final ↔
      ∃ examinations, trainer.Examines elite ordinals stream examinations final ∧
        reports = improving elite examinations := by
  induction ordinals generalizing stream final reports with
  | nil =>
    constructor
    · intro ended
      cases ended
      exact ⟨[], .done _, rfl⟩
    · rintro ⟨_, examines, rfl⟩
      cases examines
      rfl
  | cons ordinal rest inductionHypothesis =>
    obtain ⟨inside, others⟩ := List.forall_mem_cons.mp present
    have found := List.getElem?_eq_getElem inside
    rw [improvements, found]
    simp only [Draw.bind_drawn_iff, inductionHypothesis others]
    constructor
    · rintro ⟨mutated, drawn, mutates, candidate, tested, tests, _, later,
        ⟨examinations, examines, rfl⟩, ended⟩
      by_cases better : Number.below elite.score candidate.score
      · rw [if_pos better] at ended
        cases ended
        exact ⟨_, .next found mutates tests examines, by rw [improving_cons, if_pos better]⟩
      · rw [if_neg better] at ended
        cases ended
        exact ⟨_, .next found mutates tests examines, by rw [improving_cons, if_neg better]⟩
    · rintro ⟨_, examines, rfl⟩
      cases examines with
      | @next _ _ _ mutated candidate examinations _ drawn tested _ same mutates tests examines =>
        rw [found] at same
        obtain rfl := Option.some.inj same
        refine ⟨mutated, drawn, mutates, candidate, tested, tests, _, final,
          ⟨examinations, examines, rfl⟩, ?_⟩
        by_cases better : Number.below elite.score candidate.score
        · rw [if_pos better, improving_cons, if_pos better]
          rfl
        · rw [if_neg better, improving_cons, if_neg better]
          rfl

/-- The answers of the workers that refine the elite in a round. -/
def refiners (trainer : ControlTrainer α) (entropy : Entropy) (round : Nat)
    (elite : Candidate (Tree α) α) : List (Except Failure (List (Nat × BasicBlock α))) :=
  let workers := trainer.config.schedule.threads
  let blocks := elite.program.basicBlocks.length
  (List.range (min workers blocks)).map fun worker =>
    (trainer.improvements elite (share workers blocks worker)).answer
      (trainer.config.schedule.streamFor entropy round (workers + worker))

/-- The workers that do not break off are those that can examine all basic blocks of their shares,
and they report the mutations that beat the elite. -/
theorem refiner_ok_iff {entropy : Entropy} {round worker : Nat}
    {reports : List (Nat × BasicBlock α)} :
    let workers := trainer.config.schedule.threads
    let blocks := elite.program.basicBlocks.length
    (trainer.refiners entropy round elite)[worker]? = some (.ok reports) ↔
      worker < min workers blocks ∧ ∃ examinations final,
        trainer.Examines elite (share workers blocks worker)
            (trainer.config.schedule.streamFor entropy round (workers + worker)) examinations final ∧
          reports = improving elite examinations := by
  intro workers blocks
  rw [refiners, List.getElem?_map]
  by_cases busy : worker < min workers blocks
  · rw [List.getElem?_range busy, Option.map_some, Option.some.injEq, Draw.answer_ok_iff]
    simp only [improvements_ok_iff fun _ member => (mem_share.mp member).1, busy, true_and]
    exact exists_comm
  · have idle : (List.range (min workers blocks))[worker]? = none :=
      List.getElem?_eq_none (Nat.le_of_not_lt (List.length_range ▸ busy))
    rw [idle]
    simp only [Option.map_none, reduceCtorEq, busy, false_and]

end Examinations

section Merging

/-- The reports of those who did not break off. -/
def delivered (answers : List (Except Failure (List β))) : List β :=
  answers.flatMap fun answer => answer.toOption.getD []

/-- Without faults, the joined reports are those of the workers that did not break off. -/
theorem join_delivered {answers : List (Except Failure (List (Nat × BasicBlock α)))}
    (faultless : ∀ answer ∈ answers, ∀ cause, answer ≠ .error (.fault cause)) :
    joinReports answers = .ok (delivered answers) := by
  induction answers with
  | nil => rfl
  | cons answer rest inductionHypothesis =>
    obtain ⟨own, others⟩ := List.forall_mem_cons.mp faultless
    have joined := inductionHypothesis others
    cases answer with
    | ok reports =>
      rw [joinReports, joined]
      rfl
    | error failure =>
      cases failure with
      | crash => exact joined
      | fault cause => exact absurd rfl (own cause)

/-- A basic block after the reported ones were replaced. -/
def replaced (reports : List (Nat × BasicBlock α)) (number : Nat) (code : BasicBlock α) :
    BasicBlock α :=
  (reports.lookup number).getD code

/-- Among reports on different basic blocks, a basic block is looked up as it was reported. -/
theorem lookup_reported {reports : List (Nat × β)} (different : (reports.map Prod.fst).Nodup)
    {number : Nat} {code : β} : reports.lookup number = some code ↔ (number, code) ∈ reports := by
  induction reports with
  | nil => simp
  | cons report rest inductionHypothesis =>
    obtain ⟨ordinal, block⟩ := report
    obtain ⟨fresh, distinct⟩ := List.nodup_cons.mp different
    by_cases here : number = ordinal
    · subst here
      have absent : ∀ other, (number, other) ∉ rest := fun other member =>
        fresh (List.mem_map.mpr ⟨_, member, rfl⟩)
      simp [absent, eq_comm]
    · have elsewhere : (number == ordinal) = false := beq_false_of_ne here
      simp [List.lookup_cons, elsewhere, here, inductionHypothesis distinct]

/-- Nothing is looked up for a basic block without a report. -/
theorem lookup_unreported {reports : List (Nat × β)} {number : Nat} :
    reports.lookup number = none ↔ number ∉ reports.map Prod.fst := by
  rw [List.lookup_eq_none_iff, List.mem_map]
  constructor
  · rintro differs ⟨report, member, rfl⟩
    exact absurd rfl (bne_iff_ne.mp (differs report member))
  · intro absent report member
    exact bne_iff_ne.mpr fun same => absent ⟨report, member, same.symm⟩

/-- A report on a basic block that has no other report is one more replacement. -/
theorem replaced_cons {ordinal : Nat} {block : BasicBlock α} {rest : List (Nat × BasicBlock α)}
    (fresh : ordinal ∉ rest.map Prod.fst) :
    replaced ((ordinal, block) :: rest) = fun number code =>
      replaced rest number (if number = ordinal then block else code) := by
  funext number code
  by_cases here : number = ordinal
  · subst here
    simp [replaced, lookup_unreported.mpr fresh]
  · have elsewhere : (number == ordinal) = false := beq_false_of_ne here
    simp [replaced, here, List.lookup_cons, elsewhere]

/-- The order of reports on different basic blocks does not matter. -/
theorem replaced_perm {reports others : List (Nat × BasicBlock α)} (same : others.Perm reports)
    (different : (reports.map Prod.fst).Nodup) : replaced others = replaced reports := by
  have differentToo : (others.map Prod.fst).Nodup := (same.map Prod.fst).nodup_iff.mpr different
  funext number code
  rw [replaced, replaced]
  congr 1
  apply Option.ext
  intro other
  rw [lookup_reported differentToo, lookup_reported different, same.mem_iff]

/-- Reports on different basic blocks of a tree are all counted, and each replaces its basic block.
The induction is on the reports. -/
theorem merge_replaces {tree : Tree α} {reports : List (Nat × BasicBlock α)}
    (different : (reports.map Prod.fst).Nodup)
    (present : ∀ report ∈ reports, report.1 < tree.basicBlocks.length) :
    merge tree reports = ((tree.mapBasic (numbered (replaced reports)) 0).1, reports.length) := by
  induction reports generalizing tree with
  | nil =>
    have same : (tree.mapBasic (numbered (replaced [])) 0).1 = tree :=
      Tree.map_basic_same (fun _ _ => rfl) tree 0
    rw [merge, same]
    rfl
  | cons report rest inductionHypothesis =>
    obtain ⟨ordinal, block⟩ := report
    obtain ⟨fresh, distinct⟩ := List.nodup_cons.mp different
    obtain ⟨inside, present⟩ := List.forall_mem_cons.mp present
    have length : (tree.modifyBasic ordinal fun _ => block).basicBlocks.length =
        tree.basicBlocks.length := by
      have changed := (Tree.basic_blocks_numbered
        (fun number code => if number = ordinal then block else code) tree 0).1
      exact (congrArg List.length changed).trans List.length_mapIdx
    have merged := inductionHypothesis distinct fun other member =>
      length.symm ▸ present other member
    have twice := Tree.numbered_twice (fun number code => if number = ordinal then block else code)
      (replaced rest) tree 0
    rw [← replaced_cons fresh] at twice
    have others : merge (tree.modifyBasic ordinal fun _ => block) rest =
        ((tree.mapBasic (numbered (replaced ((ordinal, block) :: rest))) 0).1, rest.length) :=
      merged.trans (congrArg (·, rest.length) twice)
    have found : (tree.basicBlocks[ordinal]?).isSome = true := by simp [inside]
    simp only [merge, found, if_true, others]
    rfl

/-- After reports on different basic blocks, exactly the reported ones are different. -/
theorem replaced_at {tree : Tree α} {reports : List (Nat × BasicBlock α)}
    (different : (reports.map Prod.fst).Nodup)
    (present : ∀ report ∈ reports, report.1 < tree.basicBlocks.length) {number : Nat}
    {code : BasicBlock α} :
    (tree.mapBasic (numbered (replaced reports)) 0).1.basicBlocks[number]? = some code ↔
      (number, code) ∈ reports ∨
        number ∉ reports.map Prod.fst ∧ tree.basicBlocks[number]? = some code := by
  rw [(Tree.basic_blocks_numbered (replaced reports) tree 0).1, List.getElem?_mapIdx, Nat.zero_add]
  cases reported : reports.lookup number with
  | some other =>
    have member := (lookup_reported different).mp reported
    have found := List.getElem?_eq_getElem (present _ member)
    have known : number ∈ reports.map Prod.fst := List.mem_map_of_mem member
    simp only [found, Option.map_some, replaced, reported, Option.getD_some, known, not_true,
      false_and, or_false, ← lookup_reported different]
  | none =>
    have unknown : number ∉ reports.map Prod.fst := lookup_unreported.mp reported
    have unreported : (number, code) ∉ reports := fun member =>
      unknown (List.mem_map_of_mem member)
    simp [replaced, reported, unknown, unreported]

end Merging

section Rounds

variable [Number α] (trainer : ControlTrainer α) (entropy : Entropy) (round : Nat)
  (elite : Candidate (Tree α) α)

/-- What the workers deliver are reports on some of the basic blocks that they share. -/
theorem delivered_sublist :
    ((delivered (trainer.refiners entropy round elite)).map Prod.fst).Sublist
      ((List.range (min trainer.config.schedule.threads elite.program.basicBlocks.length)).flatMap
        (share trainer.config.schedule.threads elite.program.basicBlocks.length)) := by
  rw [delivered, refiners, List.flatMap_map, List.map_flatMap]
  apply List.Sublist.flatMap_right
  intro worker member
  have busy := List.mem_range.mp member
  generalize answered : Draw.answer _ _ = answer
  cases answer with
  | error failure => exact List.nil_sublist _
  | ok reports =>
    have listed : (trainer.refiners entropy round elite)[worker]? = some (.ok reports) := by
      rw [refiners, List.getElem?_map, List.getElem?_range busy, Option.map_some, answered]
    obtain ⟨_, examinations, final, examines, rfl⟩ := refiner_ok_iff.mp listed
    have examined := improving_sublist elite examinations
    rw [examines.ordinals] at examined
    exact examined

variable {trainer entropy round elite}

/-- A refinement without faults tests what merging leaves, unless nothing was reported. -/
theorem refine_merges {merged : Tree α} (refines : trainer.config.refineBlocks = true)
    (faultless : ∀ answer ∈ trainer.refiners entropy round elite, ∀ cause,
      answer ≠ .error (.fault cause))
    (merges : merge elite.program (delivered (trainer.refiners entropy round elite)) =
      (merged, (delivered (trainer.refiners entropy round elite)).length)) :
    trainer.refine entropy round elite =
      if delivered (trainer.refiners entropy round elite) = [] then .ok none
      else ((trainer.test merged true).answer
        (trainer.config.schedule.streamFor entropy round (2 * trainer.config.schedule.threads))).map
          some := by
  by_cases empty : elite.program.basicBlocks.length = 0
  · have idle : delivered (trainer.refiners entropy round elite) = [] := by
      simp [refiners, delivered, empty]
    simp [refine, idle, empty]
  · have joined : joinReports ((List.range (min trainer.config.schedule.threads
        elite.program.basicBlocks.length)).map fun worker =>
          (trainer.improvements elite (share trainer.config.schedule.threads
            elite.program.basicBlocks.length worker)).answer
              (trainer.config.schedule.streamFor entropy round
                (trainer.config.schedule.threads + worker))) =
        .ok (delivered (trainer.refiners entropy round elite)) := join_delivered faultless
    simp only [refine, refines, empty, joined, merges, List.length_eq_zero_iff, Bool.not_true,
      decide_false, Bool.or_self, Bool.false_eq_true, if_false]

variable (trainer entropy round elite)

/-- Refinement goes over every basic block of the elite exactly once, and merges what beats the
elite without any loss.

Every basic block is in the share of exactly one worker that is not idle. A worker that does not
break off examines its share, each basic block by a test of the elite with this one mutation, and it
reports exactly those mutations that beat the elite. All reports that are delivered are on different
basic blocks, so whichever comes first, the merged tree is the elite with exactly the reported basic
blocks replaced. It is tested if there are any reports, and otherwise there is nothing to try. In
whatever order the workers take their steps and come to an end, the refinement comes to this. Every
worker has a stream of its own, from a seed or from the system. -/
theorem refinement_merges_improvements {pool : PagePool α} (blank : pool.Blank)
    (refines : trainer.config.refineBlocks = true) (occupied : 0 < trainer.config.schedule.threads)
    (faultless : ∀ answer ∈ trainer.refiners entropy round elite, ∀ cause,
      answer ≠ .error (.fault cause)) :
    let workers := trainer.config.schedule.threads
    let blocks := elite.program.basicBlocks.length
    let reports := delivered (trainer.refiners entropy round elite)
    let merged := (elite.program.mapBasic (numbered (replaced reports)) 0).1
    ((List.range (min workers blocks)).flatMap (share workers blocks)).Perm (List.range blocks) ∧
    (∀ worker found, (trainer.refiners entropy round elite)[worker]? = some (.ok found) ↔
      worker < min workers blocks ∧ ∃ examinations final,
        trainer.Examines elite (share workers blocks worker)
            (trainer.config.schedule.streamFor entropy round (workers + worker)) examinations final ∧
          found = improving elite examinations) ∧
    (reports.map Prod.fst).Nodup ∧
    (∀ order, order.Perm reports → merge elite.program order = (merged, reports.length)) ∧
    (∀ number code, merged.basicBlocks[number]? = some code ↔
      (number, code) ∈ reports ∨
        number ∉ reports.map Prod.fst ∧ elite.program.basicBlocks[number]? = some code) ∧
    trainer.refine entropy round elite =
      (if reports = [] then .ok none
      else ((trainer.test merged true).answer
        (trainer.config.schedule.streamFor entropy round (2 * workers))).map some) ∧
    Scene.Determined ⟨pool, [], trainer.shareRefine entropy round elite⟩
      (trainer.refine entropy round elite) := by
  intro workers blocks reports merged
  have examined := delivered_sublist trainer entropy round elite
  have different : (reports.map Prod.fst).Nodup := examined.nodup (shares_nodup workers blocks)
  have present : ∀ report ∈ reports, report.1 < blocks := by
    intro report member
    have shared := examined.subset (List.mem_map_of_mem member)
    obtain ⟨_, _, own⟩ := List.mem_flatMap.mp shared
    exact (mem_share.mp own).1
  have merges : ∀ order, order.Perm reports →
      merge elite.program order = (merged, reports.length) := by
    intro order same
    have ordered := merge_replaces ((same.map Prod.fst).nodup_iff.mpr different) fun report member =>
      present report (same.mem_iff.mp member)
    rw [replaced_perm same different, same.length_eq] at ordered
    exact ordered
  refine ⟨shares_perm occupied blocks, fun worker found => refiner_ok_iff, different, merges, ?_, ?_,
    (trainer.refine_follows entropy round elite).determined blank⟩
  · exact fun number code => replaced_at different present
  · exact refine_merges refines faultless (merges reports (.refl _))

end Rounds

/-- Leaves both variables as they are. -/
def idle : BasicBlock Float :=
  ⟨#[some (.argument 0), some (.argument 1), some (.move 0), some (.move 1)], none⟩

/-- Three basic blocks that leave everything as it is, the second one in a loop. -/
def idleElite : Candidate (Tree Float) Float :=
  ⟨.block [.basic idle, .loop 1 (.block [.basic idle]), .basic idle], 5.0⟩

/-- Training with two workers that is solved if the first variable keeps its value, and breaks off
now and then. -/
def shaky : ControlTrainer Float where
  config :=
    { schedule := ⟨1, 1, 1, 0, 2, 0, some 58⟩, variableCount := 2, blockComplexity := 4,
      loopBudget := 3 }
  environment := .draw (Draw.belowShifted 8) fun coin =>
    if coin = 0 then .giveUp
    else .act #[Number.infinity, 0.0] #[0.0, 0.0] fun outputs => .score (outputs.getD 0 0.0)
  mutator := ⟨2, 4, {}⟩

/-- The numbers of the basic blocks that each worker reported, and whether a worker failed. A worker
that broke off has no list. -/
def outcomes (answers : List (Except Failure (List (Nat × BasicBlock α)))) :
    List (Option (List Nat)) × Bool :=
  (answers.map fun answer => answer.toOption.map (·.map Prod.fst),
    answers.any fun
      | .error (.fault _) => true
      | _ => false)

/-- The second worker breaks off, so the second basic block stays as it is. The first worker reports
both of its basic blocks, and the tree with both mutations is tested, whatever the order. -/
theorem broken_worker_keeps_block :
    shaky.config.schedule.seed = some 58 ∧ ∀ entropy,
      outcomes (shaky.refiners entropy 0 idleElite) = ([some [0, 2], none], false) ∧
        ∃ merged : Tree Float, merged.basicBlocks[1]? = some idle ∧
          shaky.refine entropy 0 idleElite =
            ((shaky.test merged true).answer (TrainingSchedule.seededStream 58 0 4)).map some ∧
          Scene.Determined ⟨⟨[Page.blank]⟩, [], shaky.shareRefine entropy 0 idleElite⟩
            (shaky.refine entropy 0 idleElite) := by
  refine ⟨rfl, fun entropy => ?_⟩
  have seeded : shaky.refiners entropy 0 idleElite =
      shaky.refiners Entropy.unused 0 idleElite := rfl
  have became : outcomes (shaky.refiners entropy 0 idleElite) = ([some [0, 2], none], false) := by
    rw [seeded]
    decide +kernel
  have keys : (delivered (shaky.refiners entropy 0 idleElite)).map Prod.fst = [0, 2] := by
    rw [seeded]
    decide +kernel
  have reported : delivered (shaky.refiners entropy 0 idleElite) ≠ [] := by
    intro none
    rw [none] at keys
    cases keys
  have faultless : ∀ answer ∈ shaky.refiners entropy 0 idleElite, ∀ cause,
      answer ≠ .error (.fault cause) := by
    rintro _ member cause rfl
    have fine := congrArg Prod.snd became
    simp only [outcomes, List.any_eq_false] at fine
    exact fine _ member rfl
  obtain ⟨_, _, _, _, blocks, refined, determined⟩ :=
    refinement_merges_improvements shaky entropy 0 idleElite PagePool.blank_single rfl (by decide)
      faultless
  rw [if_neg reported] at refined
  exact ⟨became, _, (blocks 1 idle).mpr (.inr ⟨by rw [keys]; decide, rfl⟩), refined, determined⟩

end ControlTrainer

end ProgramSearch
