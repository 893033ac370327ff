import ProgramSearch.Proofs.Tree.Places

/-!
# What a rebuilding hands to its rule

Rebuilding a tree hands every part of it to a rule, after everything inside the part. What is handed
over need not be a part of the tree any more, because the rule changed what is inside, but each
handover belongs to one place of the tree, and it shows a block exactly if there is one at the place.
So the blocks that were handed over so far tell the number of the next one, and it is the number that
the instrumented code notes.
-/

namespace ProgramSearch

variable {α σ : Type}

/-- A part that is handed over for a place, with the state that the rule sees. -/
structure Handover (σ α : Type) where
  way : List Nat
  state : σ
  tree : Tree α

namespace Handover

/-- The handover as seen from the block or the loop around, for the first child. -/
def first (handover : Handover σ α) : Handover σ α :=
  { handover with way := 0 :: handover.way }

/-- The handover as seen from a block with one more child in front. -/
def later (handover : Handover σ α) : Handover σ α :=
  { handover with way := handover.way.modifyHead (· + 1) }

/-- How many handovers show a block. -/
def blocks (handovers : List (Handover σ α)) : Nat := handovers.countP (·.tree.isBlock)

theorem blocks_append (early late : List (Handover σ α)) :
    blocks (early ++ late) = blocks early + blocks late :=
  List.countP_append

/-- Handovers that are seen from elsewhere show as many blocks. -/
theorem blocks_map (view : Handover σ α → Handover σ α)
    (same : ∀ handover, (view handover).tree = handover.tree) (handovers : List (Handover σ α)) :
    blocks (handovers.map view) = blocks handovers := by
  simp only [blocks, List.countP_map, Function.comp_def, same]

/-- Every handover satisfies a condition on itself and the number of blocks that were handed over
before it. -/
def Tallied (holds : Nat → Handover σ α → Prop) (count : Nat)
    (handovers : List (Handover σ α)) : Prop :=
  ∀ early handover late, handovers = early ++ handover :: late →
    holds (count + blocks early) handover

namespace Tallied

variable {holds other : Nat → Handover σ α → Prop} {count : Nat}

/-- A single handover is the first one. -/
theorem single {handover : Handover σ α} (here : holds count handover) :
    Tallied holds count [handover] := by
  intro early shown late split
  obtain ⟨rfl, rest⟩ | ⟨_, rfl, rest⟩ := List.cons_eq_append_iff.mp split
  · obtain ⟨rfl, rfl⟩ := List.cons.inj rest
    exact here
  · exact absurd rest.symm (by simp)

/-- The count goes on over what comes later. -/
theorem append {early late : List (Handover σ α)} (start : Tallied holds count early)
    (continued : Tallied holds (count + blocks early) late) :
    Tallied holds count (early ++ late) := by
  intro before handover after split
  obtain ⟨between, rfl, rest⟩ | ⟨between, rfl, rest⟩ := List.append_eq_append_iff.mp split
  · have shown := continued between handover after rest
    rwa [Nat.add_assoc, ← blocks_append] at shown
  · cases between with
    | nil =>
      have shown := continued [] handover after (by simpa using rest.symm)
      simpa [blocks] using shown
    | cons next between =>
      obtain ⟨rfl, rfl⟩ := List.cons.inj rest
      exact start before handover between rfl

/-- Handovers that are seen from elsewhere are counted alike. -/
theorem map {handovers : List (Handover σ α)} (tallied : Tallied holds count handovers)
    {view : Handover σ α → Handover σ α} (same : ∀ handover, (view handover).tree = handover.tree)
    (viewed : ∀ number handover, holds number handover → other number (view handover)) :
    Tallied other count (handovers.map view) := by
  intro early handover late split
  obtain ⟨before, after, rfl, rfl, rest⟩ := List.map_eq_append_iff.mp split
  obtain ⟨shown, others, rfl, rfl, rfl⟩ := List.map_eq_cons_iff.mp rest
  rw [blocks_map view same]
  exact viewed _ _ (tallied before shown others rfl)

end Tallied

end Handover

namespace Tree

open Handover (blocks Tallied)

section Rules

variable (rule : σ → Tree α → Tree α × σ)

mutual

/-- What rebuilding a tree hands to its rule, in order. -/
def handovers (state : σ) : Tree α → List (Handover σ α)
  | .block children =>
    let (kept, after) := rebuildAll rule state children
    handoversOf state children ++ [⟨[], after, .block kept⟩]
  | .loop condition body =>
    let (rebuilt, after) := rebuild rule state body
    (handovers state body).map (·.first) ++ [⟨[], after, .loop condition rebuilt⟩]
  | leaf => [⟨[], state, leaf⟩]

/-- What rebuilding the children of a block hands to the rule, in order. -/
def handoversOf (state : σ) : List (Tree α) → List (Handover σ α)
  | [] => []
  | tree :: rest =>
    (handovers state tree).map (·.first) ++
      (handoversOf (rebuild rule state tree).2 rest).map (·.later)

end

/-- The rule with a record of everything that is handed to it. -/
def watched (state : σ × List (σ × Tree α)) (tree : Tree α) :
    Tree α × σ × List (σ × Tree α) :=
  let (result, after) := rule state.1 tree
  (result, after, state.2 ++ [(state.1, tree)])

/-- What a watcher sees of some handovers. -/
def seen (handovers : List (Handover σ α)) : List (σ × Tree α) :=
  handovers.map fun handover => (handover.state, handover.tree)

mutual

/-- A watched rule rebuilds the tree in the same way, and is handed what is listed. -/
theorem rebuild_watched (tree : Tree α) (state : σ) (past : List (σ × Tree α)) :
    tree.rebuild (watched rule) (state, past) =
      ((tree.rebuild rule state).1, (tree.rebuild rule state).2,
        past ++ seen (tree.handovers rule state)) := by
  cases tree with
  | block children =>
    simp only [rebuild, rebuild_all_watched children, watched, handovers, seen, List.map_append,
      List.map_cons, List.map_nil, List.append_assoc]
  | loop condition body =>
    simp only [rebuild, rebuild_watched body, watched, handovers, seen, List.map_append,
      List.map_map, Function.comp_def, Handover.first, List.map_cons, List.map_nil,
      List.append_assoc]
  | skip | read | write | basic => rfl

/-- The same holds of the children of a block. -/
theorem rebuild_all_watched (trees : List (Tree α)) (state : σ) (past : List (σ × Tree α)) :
    rebuildAll (watched rule) (state, past) trees =
      ((rebuildAll rule state trees).1, (rebuildAll rule state trees).2,
        past ++ seen (handoversOf rule state trees)) := by
  cases trees with
  | nil => simp only [rebuildAll, handoversOf, seen, List.map_nil, List.append_nil]
  | cons tree rest =>
    simp only [rebuildAll, rebuild_watched tree, rebuild_all_watched rest, handoversOf, seen,
      List.map_append, List.map_map, Function.comp_def, Handover.first, Handover.later,
      List.append_assoc]

end

mutual

/-- As many blocks are handed over as are numbered. -/
theorem blocks_handovers (tree : Tree α) (state : σ) (next : Ordinals) :
    next.blocks + blocks (tree.handovers rule state) = (past next tree).blocks := by
  cases tree with
  | block children =>
    rw [handovers, past, ← blocks_handovers_of children state next, Handover.blocks_append]
    rfl
  | loop condition body =>
    rw [handovers, past, ← blocks_handovers body state next, Handover.blocks_append,
      Handover.blocks_map Handover.first fun _ => rfl]
    rfl
  | skip | read | write | basic => rfl

/-- The same holds of the children of a block. -/
theorem blocks_handovers_of (trees : List (Tree α)) (state : σ) (next : Ordinals) :
    next.blocks + blocks (handoversOf rule state trees) = (pastAll next trees).blocks := by
  cases trees with
  | nil => rfl
  | cons tree rest =>
    rw [handoversOf, pastAll, ← blocks_handovers_of rest (tree.rebuild rule state).2,
      ← blocks_handovers tree state next, Handover.blocks_append,
      Handover.blocks_map Handover.first fun _ => rfl,
      Handover.blocks_map Handover.later fun _ => rfl, Nat.add_assoc]

end

/-- What is handed over for a part has the same root. Below it, the rule has gone over everything. -/
def Shows (part handed : Tree α) : Prop :=
  match part with
  | .block children => ∃ state, handed = .block (rebuildAll rule state children).1
  | .loop condition body => ∃ state, handed = .loop condition (body.rebuild rule state).1
  | leaf => handed = leaf

/-- The numbers that follow everything inside a part. -/
def inside (before : Ordinals) : Tree α → Ordinals
  | .block children => pastAll before children
  | .loop _ body => past before body
  | .skip | .read _ | .write .. | .basic _ => before

variable (numbers : σ → Nat → Prop)

/-- The state counts the blocks that the rule is handed. -/
def Counts : Prop :=
  ∀ state count tree, numbers state count →
    numbers (rule state tree).2 (if tree.isBlock then count + 1 else count)

/-- A handover shows the part at its place. The number of blocks so far is the next one after
everything inside the part, and the state agrees with it. -/
def Stands (tree : Tree α) (next : Ordinals) (count : Nat) (handover : Handover σ α) : Prop :=
  numbers handover.state count ∧ ∃ before part, tree.part? next handover.way = some (before, part) ∧
    (part.inside before).blocks = count ∧ Shows rule part handover.tree

variable {rule numbers}

mutual

/-- A state that counts the blocks agrees with their numbers after the tree. -/
theorem rebuild_counts (counts : Counts rule numbers) (tree : Tree α) {state : σ}
    {next : Ordinals} (counted : numbers state next.blocks) :
    numbers (tree.rebuild rule state).2 (past next tree).blocks := by
  cases tree with
  | block children => exact counts _ _ (.block _) (rebuild_all_counts counts children counted)
  | loop condition body => exact counts _ _ (.loop _ _) (rebuild_counts counts body counted)
  | skip | read | write | basic => exact counts _ _ _ counted

/-- The same holds of the children of a block. -/
theorem rebuild_all_counts (counts : Counts rule numbers) (trees : List (Tree α)) {state : σ}
    {next : Ordinals} (counted : numbers state next.blocks) :
    numbers (rebuildAll rule state trees).2 (pastAll next trees).blocks := by
  cases trees with
  | nil => exact counted
  | cons tree rest => exact rebuild_all_counts counts rest (rebuild_counts counts tree counted)

end

mutual

/-- Every handover shows the part at its place and comes in time for its number. -/
theorem handovers_tallied (counts : Counts rule numbers) (tree : Tree α) {state : σ}
    {next : Ordinals} (counted : numbers state next.blocks) :
    Tallied (tree.Stands rule numbers next) next.blocks (tree.handovers rule state) := by
  cases tree with
  | block children =>
    have start := handovers_of_tallied counts children counted
    refine .append (fun early handover late split => (start early handover late split).2)
      (.single ?_)
    rw [blocks_handovers_of]
    exact ⟨rebuild_all_counts counts children counted, next, _, rfl, rfl, state, rfl⟩
  | loop condition body =>
    refine .append ((handovers_tallied counts body counted).map (fun _ => rfl) fun _ _ stands => stands)
      (.single ?_)
    rw [Handover.blocks_map Handover.first fun _ => rfl, blocks_handovers]
    exact ⟨rebuild_counts counts body counted, next, _, rfl, rfl, state, rfl⟩
  | skip | read | write | basic => exact .single ⟨counted, next, _, rfl, rfl, rfl⟩

/-- The same holds of the children of a block, and none of them is at the root. -/
theorem handovers_of_tallied (counts : Counts rule numbers) (trees : List (Tree α)) {state : σ}
    {next : Ordinals} (counted : numbers state next.blocks) :
    Tallied (fun count handover => handover.way ≠ [] ∧
        (block trees).Stands rule numbers next count handover)
      next.blocks (handoversOf rule state trees) := by
  cases trees with
  | nil => exact fun early handover late split => absurd split (by simp [handoversOf])
  | cons tree rest =>
    refine .append ((handovers_tallied counts tree counted).map (fun _ => rfl) fun _ _ stands =>
      ⟨List.cons_ne_nil _ _, stands⟩) ?_
    rw [Handover.blocks_map Handover.first fun _ => rfl, blocks_handovers]
    refine (handovers_of_tallied counts rest (rebuild_counts counts tree counted)).map (fun _ => rfl) ?_
    rintro count ⟨way, state, handed⟩ ⟨below, stands⟩
    cases way with
    | nil => exact absurd rfl below
    | cons index way => exact ⟨List.cons_ne_nil _ _, stands⟩

end

mutual

/-- Every part of a tree is handed over. -/
theorem handed_over (tree : Tree α) (state : σ) {next : Ordinals} {way : List Nat}
    {found : Ordinals × Tree α} (placed : tree.part? next way = some found) :
    ∃ handover ∈ tree.handovers rule state, handover.way = way := by
  cases tree with
  | block children =>
    cases way with
    | nil => exact ⟨_, List.mem_append_right _ (List.mem_singleton_self _), rfl⟩
    | cons index way =>
      obtain ⟨handover, listed, same⟩ := child_handed_over children state placed
      exact ⟨handover, List.mem_append_left _ listed, same⟩
  | loop condition body =>
    cases way with
    | nil => exact ⟨_, List.mem_append_right _ (List.mem_singleton_self _), rfl⟩
    | cons index way =>
      cases index with
      | zero =>
        obtain ⟨handover, listed, rfl⟩ := handed_over body state placed
        exact ⟨handover.first, List.mem_append_left _ (List.mem_map_of_mem listed), rfl⟩
      | succ => exact nomatch placed
  | skip | read | write | basic =>
    cases way with
    | nil => exact ⟨_, List.mem_singleton_self _, rfl⟩
    | cons => exact nomatch placed

/-- The same holds of the children of a block. -/
theorem child_handed_over (trees : List (Tree α)) (state : σ) {next : Ordinals} {index : Nat}
    {way : List Nat} {found : Ordinals × Tree α}
    (placed : (block trees).part? next (index :: way) = some found) :
    ∃ handover ∈ handoversOf rule state trees, handover.way = index :: way := by
  cases trees with
  | nil => exact nomatch placed
  | cons tree rest =>
    cases index with
    | zero =>
      have here : tree.part? next way = some found := placed
      obtain ⟨handover, listed, rfl⟩ := handed_over tree state here
      exact ⟨handover.first, List.mem_append_left _ (List.mem_map_of_mem listed), rfl⟩
    | succ index =>
      rw [part_later] at placed
      obtain ⟨handover, listed, same⟩ := child_handed_over rest (tree.rebuild rule state).2 placed
      refine ⟨handover.later, List.mem_append_right _ (List.mem_map_of_mem listed), ?_⟩
      simp only [Handover.later, same, List.modifyHead_cons]

end

end Rules

section Agreement

/-- A number of a block belongs to a block. -/
theorem block_of_numbering {tree : Tree α} {way : List Nat} {number : Nat}
    (labelled : tree.numbering way = some (.block number)) :
    ∃ before children, tree.part? ⟨0, 0⟩ way = some (before, .block children) ∧
      (pastAll before children).blocks = number := by
  obtain ⟨⟨before, part⟩, placed, labelled⟩ := Option.bind_eq_some_iff.mp labelled
  cases part with
  | block children => exact ⟨before, children, placed, Label.block.inj (Option.some.inj labelled)⟩
  | skip | loop | read | write | basic => exact nomatch labelled

/-- Instrumented code has every block at its place, and notes it by its number. -/
theorem block_noted {tree : Tree α} {config : MachineConfig} {program : Executable α}
    (accepted : tree.compile config true = .ok program) {way : List Nat} {before : Ordinals}
    {children : List (Tree α)} (placed : tree.part? ⟨0, 0⟩ way = some (before, .block children)) :
    ∃ parts, statements ⟨config, true⟩ before children = .ok (parts, pastAll before children) ∧
      program.root.at? (tree.codeWay way) =
        some (.block (some (pastAll before children).blocks) parts) := by
  obtain ⟨code, compiled, found⟩ := compile_places accepted placed rfl
  obtain ⟨⟨parts, after⟩, inside, rfl⟩ := (statement_block_iff _ _ _ _).mp compiled
  obtain rfl : after = pastAll before children := statements_numbers _ children before inside
  exact ⟨parts, inside, found⟩

/-- When a block is handed over, its number tells how many blocks were handed over before it,
whatever the rule does. -/
theorem block_handed (rule : σ → Tree α → Tree α × σ) (state : σ) {tree : Tree α}
    {early late : List (Handover σ α)} {handover : Handover σ α}
    (split : tree.handovers rule state = early ++ handover :: late) {number : Nat}
    (labelled : tree.numbering handover.way = some (.block number)) :
    handover.tree.isBlock = true ∧ blocks early = number := by
  have tallied : Tallied (tree.Stands rule (fun _ _ => True) ⟨0, 0⟩) 0
      (tree.handovers rule state) := handovers_tallied (fun _ _ _ _ => trivial) tree trivial
  obtain ⟨before, children, placed, rfl⟩ := block_of_numbering labelled
  obtain ⟨_, _, part, found, counted, shows⟩ := tallied early handover late split
  rw [placed, Option.some.injEq, Prod.mk.injEq] at found
  obtain ⟨rfl, rfl⟩ := found
  obtain ⟨_, shown⟩ := shows
  exact ⟨by rw [shown]; rfl, by rw [← counted.trans (Nat.zero_add _)]; rfl⟩

/-- Removing loops leaves a block a block, and makes no other statement one. -/
theorem strip_is_block (profile : TreeProfile) (tree : Tree α) (state : PassCount) :
    (tree.rebuild (stripRule profile) state).1.isBlock = tree.isBlock := by
  cases tree with
  | loop condition body =>
    simp only [rebuild, stripRule]
    split <;> rfl
  | skip | block | read | write | basic => rfl

/-- The number of the next block counts the blocks that the removal of loops is handed. -/
theorem strip_counts (profile : TreeProfile) :
    Counts (α := α) (stripRule profile) fun (state : PassCount) count => state.1 = count := by
  rintro ⟨next, removed⟩ count tree rfl
  cases tree with
  | loop condition body =>
    simp only [stripRule]
    split <;> rfl
  | skip | block | read | write | basic => rfl

/-- When the removal of loops is handed a loop whose body is a block, the last number that it
counted is the one of the body. -/
theorem strip_body_number (profile : TreeProfile) {tree : Tree α} {handover : Handover PassCount α}
    (handed : handover ∈ tree.handovers (stripRule profile) (0, 0)) {condition : UInt16}
    {body : Tree α} (shown : handover.tree = .loop condition body) (filled : body.isBlock = true) :
    ∃ number, handover.state.1 = number + 1 ∧
      tree.numbering (handover.way ++ [0]) = some (.block number) := by
  obtain ⟨early, late, split⟩ := List.append_of_mem handed
  have tallied : Tallied (tree.Stands (stripRule profile) (fun state count => state.1 = count)
      ⟨0, 0⟩) 0 (tree.handovers (stripRule profile) (0, 0)) :=
    handovers_tallied (strip_counts profile) tree rfl
  obtain ⟨counted, before, part, placed, numbered, shows⟩ := tallied early handover late split
  cases part with
  | loop condition original =>
    obtain ⟨state, same⟩ := shows
    obtain ⟨rfl, rfl⟩ := Tree.loop.inj (shown.symm.trans same)
    rw [strip_is_block] at filled
    cases original with
    | block children =>
      refine ⟨(pastAll before children).blocks, counted.trans numbered.symm, ?_⟩
      rw [numbering, part_append, placed]
      rfl
    | skip | loop | read | write | basic => cases filled
  | block children =>
    obtain ⟨_, same⟩ := shows
    rw [shown] at same
    cases same
  | skip | read | write | basic =>
    have same := shown.symm.trans shows
    cases same

/-- The code of a straight-line program is linked to it in the mode that it was compiled in. -/
theorem scalar_linked {setting : Setting} {nodes : Program α} {profile : Option Nat}
    {program : Compiled α} (accepted : setting.scalar nodes profile = .ok program) :
    ∃ slots, Program.Linked nodes setting.config.variableCount { checked := false, profile } program
      slots := by
  obtain ⟨compiled, _⟩ := (scalar_ok_iff _ _ _ _).mp accepted
  exact (Program.linked_of_compile compiled).2

variable [Number α]

/-- A basic block is compiled with its number. The baseline makes all its reports for this number,
and the specialized form makes none. -/
theorem basic_block_reports {config : MachineConfig} {code : BasicBlock α} {number : Nat}
    {compiled : Statement α} (accepted : Setting.basic ⟨config, true⟩ code number = .ok compiled) :
    ∃ baseline specialized, compiled = .basic baseline specialized ∧
      (∀ inputs buffer, ∀ report ∈ (baseline.run inputs buffer).reports,
        report.branch.block = number) ∧
      ∀ program, specialized = some program → ∀ inputs buffer,
        (program.run inputs buffer).reports = [] := by
  obtain ⟨baseline, specialized, rfl, first, second⟩ := (basic_ok_iff _ _ _ _).mp accepted
  refine ⟨baseline, specialized, rfl, fun inputs buffer => ?_, ?_⟩
  · obtain ⟨_, linked⟩ := scalar_linked first
    exact linked.run_reports (fun _ named => (Option.some.inj named).symm) inputs buffer
  · rintro program rfl inputs buffer
    obtain ⟨nodes, given, compiled⟩ : ∃ nodes, code.specialized = some nodes ∧
        Setting.scalar ⟨config, true⟩ nodes none = .ok program := by
      cases given : code.specialized with
      | none =>
        rw [given] at second
        exact nomatch second
      | some nodes =>
        rw [given, Refusal.mapM_ok_iff] at second
        obtain ⟨other, found, same⟩ := second
        obtain rfl := Option.some.inj same
        exact ⟨nodes, rfl, found⟩
    obtain ⟨_, linked⟩ := scalar_linked compiled
    exact linked.run_silent rfl inputs buffer

/-- All numbers of a tree that compiles agree.

What a rule is handed is listed by the handovers. The code for every part is at a place of its own.
Instrumented code notes every block by the number of blocks that rebuilding hands to any rule before
it. A basic block makes its reports for its index among the basic blocks, and the passes over the
basic blocks change it by the same index. Committing and speculating are such passes, and keep the
numbers of all places. So when the removal of loops follows them, and is handed a loop whose body is
a block, it has counted at least one block, and the last one has the number that the instrumented
code notes for the body, no matter which loops in the body were removed. -/
theorem numbers_agree (tree : Tree α) (config : MachineConfig) (program : Executable α)
    (accepted : tree.compile config true = .ok program) :
    (∀ (other : Tree α) (σ : Type) (rule : σ → Tree α → Tree α × σ) (state : σ),
      other.rebuild (watched rule) (state, []) =
        ((other.rebuild rule state).1, (other.rebuild rule state).2,
          seen (other.handovers rule state))) ∧
    (∀ way before children, tree.part? ⟨0, 0⟩ way = some (before, .block children) →
      ∃ number parts after, tree.numbering way = some (.block number) ∧
        statements ⟨config, true⟩ before children = .ok (parts, after) ∧
        program.root.at? (tree.codeWay way) = some (.block (some number) parts) ∧
        ∀ (σ : Type) (rule : σ → Tree α → Tree α × σ) (state : σ),
          (∃ handover ∈ tree.handovers rule state, handover.way = way) ∧
          ∀ early handover late, tree.handovers rule state = early ++ handover :: late →
            handover.way = way → handover.tree.isBlock = true ∧ blocks early = number) ∧
    (∀ way before code, tree.part? ⟨0, 0⟩ way = some (before, .basic code) →
      ∃ number baseline specialized, tree.numbering way = some (.basicBlock number) ∧
        Setting.basic ⟨config, true⟩ code number = .ok (.basic baseline specialized) ∧
        program.root.at? (tree.codeWay way) = some (.basic baseline specialized) ∧
        (∀ inputs buffer, ∀ report ∈ (baseline.run inputs buffer).reports,
          report.branch.block = number) ∧
        (∀ other, specialized = some other → ∀ inputs buffer,
          (other.run inputs buffer).reports = []) ∧
        tree.basicBlocks[number]? = some code ∧
        ∀ change : Nat → BasicBlock α → BasicBlock α,
          (tree.mapBasic (numbered change) 0).1.basicBlocks = tree.basicBlocks.mapIdx change ∧
          (tree.mapBasic (numbered change) 0).1.part? ⟨0, 0⟩ way =
            some (before, .basic (change number code))) ∧
    (∀ profile offset threshold,
      (tree.commitBranches profile offset).1 =
        (tree.mapBasic (numbered (committed profile offset)) 0).1 ∧
      (tree.commitBranches profile offset).1.numbering = tree.numbering ∧
      (tree.speculateBranches profile offset threshold).1 =
        (tree.mapBasic (numbered (speculated profile offset threshold)) 0).1 ∧
      (tree.speculateBranches profile offset threshold).1.numbering = tree.numbering) ∧
    ∀ other : Tree α, other.numbering = tree.numbering →
      ∀ profile, ∀ handover ∈ other.handovers (stripRule profile) (0, 0),
        ∀ condition body, handover.tree = .loop condition body → body.isBlock = true →
          0 < handover.state.1 ∧ ∃ parts, program.root.at? (tree.codeWay (handover.way ++ [0])) =
            some (.block (some (handover.state.1 - 1)) parts) := by
  refine ⟨fun other σ rule state => rebuild_watched rule other state [], ?_, ?_, ?_, ?_⟩
  · intro way before children placed
    have labelled : tree.numbering way = some (.block (pastAll before children).blocks) := by
      rw [numbering, placed]
      rfl
    obtain ⟨parts, inside, found⟩ := block_noted accepted placed
    refine ⟨_, parts, _, labelled, inside, found, fun σ rule state => ⟨handed_over tree state placed, ?_⟩⟩
    rintro early handover late split rfl
    exact block_handed rule state split labelled
  · intro way before code placed
    have labelled : tree.numbering way = some (.basicBlock before.basicBlocks) := by
      rw [numbering, placed]
      rfl
    obtain ⟨result, compiled, found⟩ := compile_places accepted placed rfl
    obtain ⟨_, made, rfl⟩ := (statement_basic_iff _ _ _ _).mp compiled
    obtain ⟨baseline, specialized, rfl, reports, silent⟩ := basic_block_reports made
    obtain ⟨index, same, listed⟩ := part_listed way placed
    rw [Nat.zero_add] at same
    refine ⟨before.basicBlocks, baseline, specialized, labelled, made, found, reports, silent,
      same ▸ listed, fun change => ⟨?_, ?_⟩⟩
    · simpa only [Nat.zero_add] using (basic_blocks_numbered change tree 0).1
    · rw [part_numbered change way tree ⟨0, 0⟩, placed]
      rfl
  · intro profile offset threshold
    rw [commit_numbered, speculate_numbered]
    exact ⟨rfl, numbering_numbered _ tree, rfl, numbering_numbered _ tree⟩
  · intro other alike profile handover handed condition body shown filled
    obtain ⟨number, counted, labelled⟩ := strip_body_number profile handed shown filled
    rw [alike] at labelled
    obtain ⟨before, children, placed, rfl⟩ := block_of_numbering labelled
    obtain ⟨parts, _, found⟩ := block_noted accepted placed
    rw [counted, Nat.add_sub_cancel]
    exact ⟨Nat.succ_pos _, parts, found⟩

/-- Decides by the sign of the second variable, which side of the conditional replaces the first. -/
def deciding : BasicBlock Float :=
  ⟨#[some (.argument 0), some (.argument 1), some (.constant 1.0),
    some (.conditional 0 2 1), some (.move 1)], none⟩

/-- Two nested loops, a basic block behind the inner one and another one at the end, with empty
statements and an empty block in between. -/
def nestedLoops : Tree Float :=
  .block [.skip, .loop 0 (.block [.skip, .loop 1 (.block []), .basic deciding]), .block [], .skip,
    .basic deciding]

/-- When nothing was reached, the inner loop is removed first. The outer loop is then inspected with
two blocks counted, and the code of its body notes the number one. -/
theorem nested_loops_numbered :
    ∃ program, nestedLoops.compile ⟨2, 2, 4, 1⟩ true = .ok program ∧
      (⟨[1], (2, 1), .loop 0 (.block [.basic deciding])⟩ : Handover PassCount Float) ∈
        nestedLoops.handovers (stripRule .empty) (0, 0) ∧
      ∃ parts, program.root.at? [0, 0] = some (.block (some 1) parts) := by
  have accepted : ∃ program, nestedLoops.compile ⟨2, 2, 4, 1⟩ true = .ok program := ⟨_, by rfl⟩
  obtain ⟨program, accepted⟩ := accepted
  have handed : (⟨[1], (2, 1), .loop 0 (.block [.basic deciding])⟩ : Handover PassCount Float) ∈
      nestedLoops.handovers (stripRule .empty) (0, 0) :=
    List.mem_of_getElem?
      (show (nestedLoops.handovers (stripRule .empty) (0, 0))[6]? = some _ from rfl)
  obtain ⟨_, _, _, _, loops⟩ := numbers_agree nestedLoops ⟨2, 2, 4, 1⟩ program accepted
  exact ⟨program, accepted, handed, (loops nestedLoops rfl .empty _ handed 0 _ rfl rfl).2⟩

end Agreement

end Tree

end ProgramSearch
