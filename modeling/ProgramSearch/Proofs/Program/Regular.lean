import ProgramSearch.Proofs.Program.Shape
import ProgramSearch.Proofs.Random.Agreement

/-!
# Regular programs

A program is regular when it is valid, holds no guards and reads no arguments beyond a number. In
contrast to the shape of programs that evolve, this says nothing about where the arguments stand or
how many slots there are. Whatever a search does to a regular program leaves a regular one, if it
leaves one at all: a request may break off where slots have no address.

A regular program is the measure of its speculative forms. It compiles with every guarded copy of
itself if it compiles at all, and then both run as it does alone.
-/

namespace ProgramSearch

variable {α : Type}

namespace Program

/-- A program reads no arguments beyond a number. -/
def Confined (arguments : Nat) (nodes : Program α) : Prop :=
  ∀ slot parameter, node? nodes slot = some (.argument parameter) → parameter.toNat < arguments

/-- Whether a slot reads no argument beyond a number. -/
def staysWithin (arguments : Nat) : Option (Node α) → Bool
  | some (.argument parameter) => parameter.toNat < arguments
  | _ => true

/-- Looking at all slots decides whether a program is confined. -/
theorem confined_iff_all (arguments : Nat) (nodes : Program α) :
    Confined arguments nodes ↔ nodes.toList.all (staysWithin arguments) = true := by
  rw [List.all_eq_true]
  constructor
  · intro confined slot listed
    obtain ⟨index, found⟩ := List.mem_iff_getElem?.mp listed
    rw [Array.getElem?_toList] at found
    have bounded := confined index
    simp only [node?, found, Option.join_some] at bounded
    unfold staysWithin
    split
    · exact decide_eq_true (bounded _ rfl)
    · rfl
  · intro every slot parameter held
    have inside := node_bound nodes slot _ held
    rw [node_inside nodes slot inside] at held
    have checked := every _ (held ▸ Array.getElem_mem_toList inside)
    exact of_decide_eq_true checked

instance (arguments : Nat) (nodes : Program α) : Decidable (Confined arguments nodes) :=
  decidable_of_iff _ (confined_iff_all arguments nodes).symm

/-- A valid program without guards that reads no arguments beyond a number. -/
structure Regular (arguments : Nat) (nodes : Program α) : Prop where
  valid : Valid nodes
  unguarded : Unguarded nodes
  bounded : Confined arguments nodes

section Changes

variable {arguments protectedStart : Nat} {nodes result : Program α}

/-- Programs of the shape that evolving programs have are regular. -/
theorem Plain.regular {size : Nat} (plain : Plain arguments size protectedStart nodes) :
    Regular arguments nodes :=
  ⟨plain.valid, plain.unguarded, plain.bounded⟩

namespace Regular

/-- More arguments may be there. -/
theorem relax (regular : Regular arguments nodes) {more : Nat} (enough : arguments ≤ more) :
    Regular more nodes where
  valid := regular.valid
  unguarded := regular.unguarded
  bounded slot parameter held := Nat.lt_of_lt_of_le (regular.bounded slot parameter held) enough

/-- Regrown slots hold neither guards nor arguments. -/
theorem regrown (regular : Regular arguments nodes) {slots : List Nat}
    (regrown : Regrown nodes slots result) : Regular arguments result where
  valid := regrown.valid
  unguarded slot branch cond taken held := by
    rcases regrown.origin slot _ held with old | new
    · exact regular.unguarded slot branch cond taken old
    · exact new.unguarded branch cond taken rfl
  bounded slot parameter held := by
    rcases regrown.origin slot _ held with old | new
    · exact regular.bounded slot parameter old
    · exact absurd rfl (new.foreign parameter)

/-- Trimming finds no new arguments. -/
theorem trimmed (regular : Regular arguments nodes)
    (trimmed : Trimmed nodes protectedStart result) (unguarded : Unguarded result) :
    Regular arguments result where
  valid := trimmed.valid
  unguarded := unguarded
  bounded slot parameter held := by
    obtain ⟨other, found⟩ := trimmed.borrowed slot parameter held
    exact regular.bounded other parameter found

variable [Number α]

/-- Simplifying leaves a regular program. -/
theorem optimized (regular : Regular arguments nodes) (protectedStart : Nat) :
    Regular arguments (nodes.optimize protectedStart).nodes :=
  regular.trimmed (optimize_trims regular.valid protectedStart).1
    (optimize_unguarded regular.valid regular.unguarded protectedStart)

/-- Committing branches leaves a regular program. -/
theorem committed (regular : Regular arguments nodes) (offset : Nat) (sides : Sides) :
    Regular arguments (nodes.prune offset sides false).1 :=
  regular.trimmed (prune_trims offset sides regular.valid 0)
    (prune_unguarded offset sides regular.unguarded)

/-- Repairs leave regular programs. -/
theorem repairable : Repairable protectedStart (Regular (α := α) arguments) where
  valid regular := regular.valid
  simplified regular := regular.optimized protectedStart
  regrown regular _ regrown := regular.regrown regrown

/-- A repaired program is regular. -/
theorem repair_ensures (regular : Regular arguments nodes) (protectedStart : Nat) :
    Draw.Ensures (fun _ => True) (fun result => Regular arguments result.1)
      (repair nodes protectedStart) :=
  repairable.repair_ensures regular (.inr trivial)

/-- A mutated program is regular. -/
theorem mutate_ensures (regular : Regular arguments nodes) (offset : Nat) :
    Draw.Ensures (fun _ => True) (fun result => Regular arguments result.1)
      (mutate nodes offset) := by
  apply (Program.mutate_ensures regular.valid (.inr trivial) offset).weaken
  rintro result ⟨slots, _, regrown⟩
  exact regular.regrown regrown

/-- A program with regenerated slots is regular. -/
theorem regenerate_ensures (regular : Regular arguments nodes) {slots : List Nat}
    (inside : ∀ slot ∈ slots, slot < nodes.size) :
    Draw.Ensures (fun _ => True) (Regular arguments) (regenerate nodes slots) :=
  (Program.regenerate_ensures regular.valid (.inr trivial) inside).weaken fun _ regrown =>
    regular.regrown regrown

end Regular

end Changes

end Program

namespace Tiered

open Program

variable [Number α]

/-- On enough inputs, two speculative programs end alike. -/
def Alike (arguments : Nat) (program other : Tiered α) : Prop :=
  ∀ inputs buffer, arguments ≤ inputs.size → program.run inputs buffer = other.run inputs buffer

/-- The speculative form is a guarded copy, if there is one. -/
def Copies (nodes : Program α) (speculative : Option (Program α)) : Prop :=
  ∀ copy, speculative = some copy → GuardedCopy nodes copy

variable {arguments outputs : Nat} {nodes : Program α}

/-- A regular program that compiles does so with every guarded copy of itself, and both run as it
does alone. -/
theorem compile_regular (regular : Regular arguments nodes) {speculative : Option (Program α)}
    (copies : Copies nodes speculative) {baseline : Compiled α}
    (compiled : Program.compile nodes outputs {} = .ok baseline) :
    ∃ program, compile speculative nodes outputs = .ok program ∧
      Alike arguments program ⟨none, baseline⟩ := by
  obtain ⟨ready, _, linked⟩ := linked_of_compile compiled
  cases speculative with
  | none =>
    refine ⟨⟨none, baseline⟩, ?_, fun _ _ _ => rfl⟩
    rw [compile, compiled]
    rfl
  | some copy =>
    have copied := copies copy rfl
    obtain ⟨quick, accepted⟩ := compile_of_ready (copied.ready ready) {}
    refine ⟨⟨some quick, baseline⟩, ?_, ?_⟩
    · simp only [compile, compiled, Refusal.ok_bind, Option.mapM_some, accepted]
      rfl
    · intro inputs buffer enough
      have sufficient : baseline.arity ≤ inputs.size :=
        Nat.le_trans (linked.least arguments regular.bounded) enough
      have ended := run_unguarded compiled regular.unguarded rfl sufficient buffer
      rcases copied.run_transparent regular.unguarded compiled rfl accepted rfl sufficient
        buffer with same | bailed
      · simp only [run, same, ended]
      · simp only [run, bailed]

/-- A regular program is refused with every guarded copy of itself, or accepted with every one, and
then which copy it is makes no difference to runs. -/
theorem compile_alike (regular : Regular arguments nodes) {first second : Option (Program α)}
    (copies : Copies nodes first) (copiesToo : Copies nodes second) (outputs : Nat) :
    Draw.Alike (Alike arguments) (Draw.ofExcept (compile first nodes outputs))
      (Draw.ofExcept (compile second nodes outputs)) := by
  cases compiled : Program.compile nodes outputs {} with
  | error fault =>
    simp only [compile, compiled]
    exact Draw.alike_throw (.fault fault)
  | ok baseline =>
    obtain ⟨program, accepted, runs⟩ := compile_regular regular copies compiled
    obtain ⟨other, acceptedToo, runsToo⟩ := compile_regular regular copiesToo compiled
    rw [accepted, acceptedToo]
    refine Draw.alike_pure fun inputs buffer enough => ?_
    rw [runs inputs buffer enough, runsToo inputs buffer enough]

end Tiered

end ProgramSearch
