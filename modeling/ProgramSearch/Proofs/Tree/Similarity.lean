import ProgramSearch.Proofs.Memory.Likeness
import ProgramSearch.Proofs.Program.Commitment
import ProgramSearch.Proofs.Tree.Notes

/-!
# Machines that are similar

Machines are similar when their variables and their memories are alike and they have the same budget
left. They may differ in the signs of zeros, in their scratch spaces and in their profiles.

One action follows another when it comes to an end from every similar machine whenever the other one
does, and leaves a similar machine again. Only runs count that stay within a final profile, which is
what all runs together have noted in the end, and that execute basic blocks on finite values. What a
run executes is listed by its visits.
-/

namespace ProgramSearch

variable {α : Type} [Number α]

/-- A basic block that is executed, with the variables that it finds. -/
structure Visit (α : Type) where
  code : BasicBlock α
  values : Array α

/-- All values that the block computes from the variables are finite. -/
def Visit.Finite (visit : Visit α) : Prop := visit.code.nodes.FiniteOn visit.values

instance (visit : Visit α) : Decidable visit.Finite :=
  inferInstanceAs (Decidable (visit.code.nodes.FiniteOn visit.values))

namespace Action

omit [Number α] in
/-- What is visited once an action has come to an end. Nothing is, if it is stopped. -/
def afterwards (action : Action α Unit) (visits : Machine α → List (Visit α))
    (machine : Machine α) : List (Visit α) :=
  match action machine with
  | .ok _ after => visits after
  | .error _ _ => []

/-- What a loop visits, given what its body does. -/
def visitsWhile (condition : Nat) (visits : Machine α → List (Visit α)) (body : Action α Unit) :
    Nat → Machine α → List (Visit α)
  | 0, _ => []
  | fuel + 1, machine =>
    if Number.positive (machine.values.getD condition Number.zero) then
      afterwards spend
        (fun machine => visits machine ++
          afterwards body (visitsWhile condition visits body fuel) machine) machine
    else []

end Action

namespace Tree

mutual

/-- The basic blocks that a run of a compiled tree executes, one after another. -/
def visits : Tree α → Statement α → Machine α → List (Visit α)
  | .block children, .block noted parts, machine =>
    (Action.note noted).afterwards (visitsAll children parts) machine
  | .loop _ body, .loop condition inner, machine =>
    Action.visitsWhile condition (body.visits inner) inner.run machine.remaining machine
  | .basic code, _, machine => [⟨code, machine.values⟩]
  | _, _, _ => []

/-- The basic blocks that a run of the compiled statements of a block executes. Empty statements
have no compiled form. -/
def visitsAll : List (Tree α) → List (Statement α) → Machine α → List (Visit α)
  | [], _, _ => []
  | tree :: rest, statements, machine =>
    if tree.isSkip then visitsAll rest statements machine
    else
      match statements with
      | [] => []
      | statement :: others =>
        tree.visits statement machine ++ statement.run.afterwards (visitsAll rest others) machine

end

end Tree

/-- The notes of a machine are within a profile. -/
def Machine.NotedIn (final : TreeProfile) (machine : Machine α) : Prop :=
  ∃ profile, machine.profile = some profile ∧ profile.Within final

omit [Number α] in
/-- If notes are within a profile in the end, they were so before. -/
theorem NotesGrow.noted {before after : Machine α} {final : TreeProfile}
    (grown : NotesGrow before.profile after.profile) (noted : after.NotedIn final) :
    before.NotedIn final := by
  obtain ⟨profile, found, within⟩ := noted
  rw [found] at grown
  generalize held : before.profile = early at grown
  cases grown with
  | grown earlier => exact ⟨_, held, earlier.trans within⟩

/-- Machines with variables and memories that are alike and with the same budget and pages. -/
structure Similar (count : Nat) (left right : Machine α) : Prop where
  values : ArraysAlike left.values right.values
  sized : left.values.size = count
  scratch : left.scratch.size = count
  otherScratch : right.scratch.size = count
  memory : MemoriesAlike left.memory right.memory
  pool : left.pool = right.pool
  remaining : left.remaining = right.remaining

namespace Action

/-- A second action comes to an end from similar machines whenever a first one does within the final
profile and on finite values, and leaves a similar machine. -/
def Follows (count : Nat) (final : TreeProfile) (visits : Machine α → List (Visit α))
    (first second : Action α Unit) : Prop :=
  ∀ left right after, Similar count left right → first left = .ok () after →
    after.NotedIn final → (∀ visit ∈ visits left, visit.Finite) →
      ∃ result, second right = .ok () result ∧ Similar count after result

namespace Follows

variable {count : Nat} {final : TreeProfile}

theorem pure (visits : Machine α → List (Visit α)) :
    Follows count final visits (Pure.pure ()) (Pure.pure ()) := by
  intro left right after similar ran _ _
  cases ran
  exact ⟨right, rfl, similar⟩

/-- Sequences follow each other when their parts do. The notes that the first part leaves are within
those of the whole sequence. -/
theorem bind {first second next following : Action α Unit}
    {visits visitsNext : Machine α → List (Visit α)}
    (start : Follows count final visits first second) (notes : Notes next)
    (continued : Follows count final visitsNext next following) :
    Follows count final (fun machine => visits machine ++ first.afterwards visitsNext machine)
      (first >>= fun _ => next) (second >>= fun _ => following) := by
  intro left right after similar ran noted finite
  obtain ⟨_, middle, early, late⟩ := (bind_ended_iff _ _ _ _ _).mp ran
  have notedMiddle := (notes.ended late).noted noted
  obtain ⟨result, ended, similarMiddle⟩ := start left right middle similar early notedMiddle
    fun visit member => finite visit (List.mem_append_left _ member)
  have finiteRest : ∀ visit ∈ visitsNext middle, visit.Finite := by
    intro visit member
    apply finite visit (List.mem_append_right _ _)
    rw [afterwards, early]
    exact member
  obtain ⟨last, finished, similarLast⟩ :=
    continued middle result after similarMiddle late noted finiteRest
  exact ⟨last, (bind_ended_iff _ _ _ _ _).mpr ⟨(), result, ended, finished⟩, similarLast⟩

/-- Entering a block follows entering a block, whether they are noted or not. -/
theorem note (first second : Option Nat) :
    Follows (α := α) count final (fun _ => []) (Action.note first) (Action.note second) := by
  intro left right after similar ran _ _
  cases first <;> cases second <;> cases ran <;> exact ⟨_, rfl, { similar with }⟩

/-- Similar machines have the same budget left, and take units of it alike. -/
theorem spend : Follows (α := α) count final (fun _ => []) Action.spend Action.spend := by
  intro left right after similar ran _ _
  obtain ⟨rest, more, same⟩ | ⟨_, same⟩ := spend_cases left <;> rw [same] at ran <;> cases ran
  obtain ⟨other, moreRight, ended⟩ | ⟨none, _⟩ := spend_cases right
  · have remaining : rest = other :=
      Nat.succ.inj (more.symm.trans (similar.remaining.trans moreRight))
    exact ⟨_, ended, { similar with remaining := remaining }⟩
  · exact absurd (more.symm.trans (similar.remaining.trans none)) (Nat.succ_ne_zero rest)

variable (comparison : Number.ComparisonLaws α) (likeness : Number.LikenessLaws α)

include comparison likeness

theorem positive_eq {left right : Machine α} (similar : Similar count left right)
    (condition : Nat) :
    Number.positive (left.values.getD condition Number.zero) =
      Number.positive (right.values.getD condition Number.zero) :=
  (similar.values.cells condition).positive comparison likeness

omit comparison in
/-- Reading memory into a variable keeps machines similar. -/
theorem read (target : Nat) :
    Follows (α := α) count final (fun _ => []) (Action.read target) (Action.read target) := by
  intro left right after similar ran _ _
  cases ran
  have places := similar.values.cells target
  refine ⟨_, rfl, { similar with values := ?_, sized := ?_ }⟩
  · exact similar.values.set target (similar.memory.read likeness places)
  · exact (Array.size_setIfInBounds ..).trans similar.sized

omit comparison in
/-- Writing a variable to memory succeeds on both of two similar machines and keeps them
similar. -/
theorem write (address value : Nat) :
    Follows (α := α) count final (fun _ => []) (Action.write address value)
      (Action.write address value) := by
  intro left right after similar ran _ _
  obtain ⟨memory, pool, written, same⟩ | ⟨cause, _, _, same⟩ := write_cases address value left <;>
    rw [same] at ran <;> cases ran
  obtain ⟨result, writtenRight, alike⟩ := similar.memory.write likeness
    (similar.values.cells address) left.pool (similar.values.cells value) written
  rw [similar.pool] at writtenRight
  exact ⟨_, write_done writtenRight, { similar with memory := alike, pool := rfl }⟩

/-- Loops follow each other when their bodies do. The induction is on the fuel, which both use up
together; every iteration is visited in turn. -/
theorem repeat_while (condition : Nat) {body other : Action α Unit}
    {visits : Machine α → List (Visit α)} (notes : Notes body)
    (follows : Follows count final visits body other) (fuel : Nat) :
    Follows count final (visitsWhile condition visits body fuel)
      (repeatWhile condition body fuel) (repeatWhile condition other fuel) := by
  induction fuel with
  | zero =>
    intro left right after similar ran _ _
    rw [repeat_while_zero] at ran ⊢
    rw [← positive_eq comparison likeness similar]
    split at ran
    · cases ran
    · rename_i idle
      cases ran
      rw [if_neg idle]
      exact ⟨right, rfl, similar⟩
  | succ fuel inductionHypothesis =>
    intro left right after similar ran noted finite
    rw [repeat_while_succ] at ran ⊢
    rw [visitsWhile] at finite
    rw [← positive_eq comparison likeness similar]
    split at ran
    · rename_i positive
      rw [if_pos positive] at finite ⊢
      have rest := (follows.bind (notes.repeat_while condition fuel) inductionHypothesis)
      have iteration := spend.bind (notes.bind fun _ => notes.repeat_while condition fuel) rest
      exact iteration left right after similar ran noted (by simpa using finite)
    · rename_i idle
      cases ran
      rw [if_neg idle]
      exact ⟨right, rfl, similar⟩

end Follows

end Action

end ProgramSearch
