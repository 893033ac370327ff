import ProgramSearch.Proofs.Branch.Sighting
import ProgramSearch.Proofs.Tree.Progress

/-!
# Notes only grow

Whatever a statement does, it adds notes to the profile of the machine and takes none away, also
when it stops. What a profile lacks at the end of an execution was therefore lacking throughout: a
block that is not noted in the end was never entered, and a side that is not counted in the end was
never selected.
-/

namespace ProgramSearch

namespace TreeProfile

/-- Everything that is noted in one profile is noted in the other. -/
structure Within (profile other : TreeProfile) : Prop where
  selections : ∀ report, profile.branches.selections report ≤ other.branches.selections report
  reached : ∀ block, profile.isReached block = true → other.isReached block = true

namespace Within

variable {profile middle other : TreeProfile}

theorem refl (profile : TreeProfile) : Within profile profile :=
  ⟨fun _ => Nat.le_refl _, fun _ reached => reached⟩

theorem trans (first : Within profile middle) (second : Within middle other) :
    Within profile other :=
  ⟨fun report => Nat.le_trans (first.selections report) (second.selections report),
    fun block reached => second.reached block (first.reached block reached)⟩

end Within

/-- Marking a block as reached marks it and keeps what is noted. -/
theorem reached_mark_iff (profile : TreeProfile) (block other : Nat) :
    (profile.markReached block).isReached other = true ↔
      block = other ∨ profile.isReached other = true := by
  simp [isReached, markReached, Std.TreeSet.contains_insert]

/-- Marking a block as reached keeps what is noted. -/
theorem within_mark (profile : TreeProfile) (block : Nat) :
    profile.Within (profile.markReached block) :=
  ⟨fun _ => Nat.le_refl _, fun other reached =>
    (reached_mark_iff profile block other).mpr (.inr reached)⟩

/-- Recording reports records them among the branches. -/
theorem fold_record (reports : List Report) (profile : TreeProfile) :
    reports.foldl record profile =
      ⟨reports.foldl BranchCounter.record profile.branches, profile.reached⟩ := by
  induction reports generalizing profile with
  | nil => rfl
  | cons report rest inductionHypothesis => exact inductionHypothesis (profile.record report)

/-- Recording reports adds a selection for each of them. -/
theorem selections_fold (reports : List Report) (profile : TreeProfile) (report : Report) :
    (reports.foldl record profile).branches.selections report =
      profile.branches.selections report + reports.count report := by
  rw [fold_record]
  exact BranchCounter.selections_fold reports profile.branches report

/-- Recording reports keeps what is noted. -/
theorem within_fold (reports : List Report) (profile : TreeProfile) :
    profile.Within (reports.foldl record profile) := by
  constructor
  · intro report
    rw [selections_fold]
    exact Nat.le_add_right _ _
  · intro block reached
    rw [fold_record]
    exact reached

end TreeProfile

/-- Notes grow from one profile to another, unless none are taken at all. -/
inductive NotesGrow : Option TreeProfile → Option TreeProfile → Prop where
  | absent : NotesGrow none none
  | grown {profile other : TreeProfile} :
      profile.Within other → NotesGrow (some profile) (some other)

namespace NotesGrow

theorem refl (profile : Option TreeProfile) : NotesGrow profile profile := by
  cases profile with
  | none => exact .absent
  | some profile => exact .grown (.refl profile)

/-- Notes that grow twice grow. -/
theorem trans {first second third : Option TreeProfile} (start : NotesGrow first second)
    (rest : NotesGrow second third) : NotesGrow first third := by
  cases start with
  | absent => exact rest
  | grown early =>
    cases rest with
    | grown late => exact .grown (early.trans late)

/-- Changing the notes, if any are taken, lets them grow when the change keeps what is noted. -/
theorem map (profile : Option TreeProfile) (change : TreeProfile → TreeProfile)
    (keeps : ∀ profile, TreeProfile.Within profile (change profile)) :
    NotesGrow profile (profile.map change) := by
  cases profile with
  | none => exact .absent
  | some profile => exact .grown (keeps profile)

/-- Notes that grow from some notes are there in the end. -/
theorem present {profile : TreeProfile} {other : Option TreeProfile}
    (grown : NotesGrow (some profile) other) :
    ∃ after, other = some after ∧ profile.Within after := by
  cases grown with
  | grown within => exact ⟨_, rfl, within⟩

end NotesGrow

variable {α : Type} [Number α]

/-- Whatever a statement does to a machine lets its notes grow. -/
theorem notes_progress :
    Machine.Progress fun before after : Machine α => NotesGrow before.profile after.profile where
  refl _ := .refl _
  trans := .trans
  assigned _ _ _ := .refl _
  spent _ _ _ := .refl _
  entered _ block := .map _ _ fun profile => profile.within_mark block
  reported _ _ := .map _ _ fun profile => profile.within_fold _
  written _ _ _ _ _ _ := .refl _

namespace Action

variable {β γ : Type}

/-- Whether it comes to an end or not, the action lets the notes of the machine grow. -/
def Notes (action : Action α β) : Prop :=
  Relates (fun before after => NotesGrow before.profile after.profile) action

namespace Notes

omit [Number α] in
/-- An action that comes to an end leaves grown notes. -/
theorem ended {action : Action α β} (notes : Notes action) {machine after : Machine α} {value : β}
    (ran : action machine = .ok value after) : NotesGrow machine.profile after.profile := by
  have grown := notes machine
  rw [ran] at grown
  cases grown with
  | ended value grown => exact grown

/-- A sequence lets the notes grow when its parts do. -/
theorem bind {first : Action α β} {next : β → Action α γ} (start : Notes first)
    (continued : ∀ value, Notes (next value)) : Notes (first >>= next) :=
  Relates.bind notes_progress start continued

/-- A loop lets the notes grow when its body does. -/
theorem repeat_while (condition : Nat) {body : Action α Unit} (notes : Notes body) (fuel : Nat) :
    Notes (repeatWhile condition body fuel) :=
  Relates.repeat_while notes_progress condition notes fuel

end Notes

end Action

/-- Running a statement lets the notes of the machine grow. -/
theorem Statement.run_notes (statement : Statement α) : Action.Notes statement.run :=
  statement.run_relates notes_progress

/-- Running statements lets the notes of the machine grow. -/
theorem Statement.runAll_notes (statements : List (Statement α)) :
    Action.Notes (Statement.runAll statements) :=
  runAll_relates notes_progress statements

end ProgramSearch
