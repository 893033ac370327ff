import ProgramSearch.Proofs.Program.Generation
import ProgramSearch.Proofs.Program.Verdict

/-!
# Editing programs of any origin

A program that was not generated here need not start with its arguments. It can be edited all the
same when it is valid, starts with a direct node and reads no more arguments than it may. Mutations
and repairs keep this, whatever the number of slots is; they can only break off where slots have no
address. Outputs stay present as far as the protected region covers them.

A valid program with a direct leading node that is large enough is refused for an empty output only.
-/

namespace ProgramSearch.Program

variable {α : Type}

/-- A valid program of at least `least` slots that starts with a direct node and reads no arguments
beyond `count`. The last `count` slots hold nodes as far as they lie behind `start`. -/
structure Editable (count start least : Nat) (nodes : Program α) : Prop where
  leading : ∃ node, node? nodes 0 = some node ∧ node.isDirect = true
  valid : Valid nodes
  bounded : ∀ slot parameter, node? nodes slot = some (.argument parameter) →
    parameter.toNat < count
  enough : least ≤ nodes.size
  present : ∀ slot, start ≤ slot → nodes.size - count ≤ slot → slot < nodes.size →
    isPresent nodes slot = true

namespace Editable

variable {count start least : Nat} {nodes result : Program α}

/-- Trimming that spares the slots behind `start` leaves an editable program. -/
theorem trimmed (editable : Editable count start least nodes)
    (trimmed : Trimmed nodes start result) : Editable count start least result where
  leading := by
    rw [trimmed.leading]
    exact editable.leading
  valid := trimmed.valid
  bounded slot parameter held := by
    obtain ⟨other, found⟩ := trimmed.borrowed slot parameter held
    exact editable.bounded other parameter found
  enough := trimmed.sized ▸ editable.enough
  present slot behind output inside := by
    rw [trimmed.sized] at output inside
    exact trimmed.kept slot behind (editable.present slot behind output inside)

/-- Regrowing slots behind the leading one leaves an editable program. -/
theorem regrown (editable : Editable count start least nodes) {slots : List Nat}
    (later : ∀ slot ∈ slots, 0 < slot) (regrown : Regrown nodes slots result) :
    Editable count start least result where
  leading := by
    obtain ⟨node, held, direct⟩ := editable.leading
    refine ⟨node, ?_, direct⟩
    rw [regrown.kept 0 (fun listed => Nat.lt_irrefl 0 (later 0 listed))
      ((present_iff nodes 0).mpr ⟨node, held⟩), held]
  valid := regrown.valid
  bounded slot parameter held := by
    rcases regrown.origin slot _ held with old | new
    · exact editable.bounded slot parameter old
    · exact absurd rfl (new.foreign parameter)
  enough := regrown.sized ▸ editable.enough
  present slot behind output inside := by
    rw [regrown.sized] at output inside
    exact regrown.present slot (editable.present slot behind output inside)

/-- The outputs of an editable program are present if none lies before `start`. -/
theorem ready (editable : Editable count start least nodes) (takes : 0 < count)
    (outputs : count ≤ least) (protects : start ≤ nodes.size - count) : Ready nodes count where
  positive := takes
  enough := Nat.le_trans outputs editable.enough
  leading := editable.leading
  valid := editable.valid
  present slot output inside :=
    editable.present slot (Nat.le_trans protects output) output inside

variable [Number α] {allowed : Failure → Prop}

/-- Repairs that protect the slots behind `start` leave an editable program. -/
theorem repairable : Repairable start (Editable (α := α) count start least) where
  valid editable := editable.valid
  simplified editable := editable.trimmed (optimize_trims editable.valid start).1
  regrown editable computed regrown :=
    editable.regrown (fun slot member => (computed slot member).1) regrown

/-- A mutation leaves an editable program. It may break off where slots have no address. -/
theorem mutate_ensures (editable : Editable count start least nodes) (offset : Nat)
    (addressable : nodes.size ≤ Node.slotLimit ∨ allowed .crash) :
    Draw.Ensures allowed
      (fun result => Editable count start least result.1 ∧ result.1.size = nodes.size)
      (mutate nodes offset) := by
  apply (Program.mutate_ensures editable.valid addressable offset).weaken
  rintro result ⟨slots, later, regrown⟩
  refine ⟨editable.regrown (fun slot member => ?_) regrown, regrown.sized⟩
  exact Nat.lt_of_lt_of_le Nat.one_pos (Nat.le_trans (Nat.le_max_right _ _) (later slot member))

end Editable

/-- A valid program that starts with a direct node and has slots for its outputs is refused because
of an empty output only. -/
theorem refused_for_output {nodes : Program α} {outputs : Nat} {mode : Mode} {fault : Fault}
    (positive : 0 < outputs) (enough : outputs ≤ nodes.size)
    (leading : ∃ node, node? nodes 0 = some node ∧ node.isDirect = true) (valid : Valid nodes)
    (refused : nodes.compile outputs mode = .error fault) : ∃ slot, fault = .absentOutput slot := by
  cases (compile_refused_iff nodes outputs mode fault).mp refused with
  | outputCount misfit => omega
  | leadingNode _ _ missing => exact absurd leading missing
  | forwardReference _ arrives late => exact absurd (arrives.sound_of_valid valid).1 (by omega)
  | absentOperand _ arrives _ absent =>
    rw [(arrives.sound_of_valid valid).2] at absent
    cases absent
  | absentOutput => exact ⟨_, rfl⟩

end ProgramSearch.Program
