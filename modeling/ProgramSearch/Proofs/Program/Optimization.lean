import ProgramSearch.Proofs.Program.Removal
import ProgramSearch.Proofs.Program.Simplification

/-!
# The shape of a simplified program

Simplifying trims a program: slots become simpler or empty, and everything that readers, callers
and compilation rely on stays. The result is valid, the leading slot and the arguments are what they
were, no argument is new, and the protected slots keep holding nodes. Trimming twice is trimming, so
any number of rounds does no more than one.
-/

namespace ProgramSearch.Program

variable {α : Type}

/-- What simplifying a program may do to its slots. Slots from the protected one on stay present. -/
structure Trimmed (nodes : Program α) (protectedStart : Nat) (result : Program α) : Prop where
  sized : result.size = nodes.size
  leading : node? result 0 = node? nodes 0
  valid : Valid result
  arguments : ∀ slot parameter, node? nodes slot = some (.argument parameter) →
    node? result slot = some (.argument parameter)
  borrowed : ∀ slot parameter, node? result slot = some (.argument parameter) →
    ∃ other, node? nodes other = some (.argument parameter)
  absent : ∀ slot, isPresent result slot = true → isPresent nodes slot = true
  kept : ∀ slot, protectedStart ≤ slot → isPresent nodes slot = true →
    isPresent result slot = true

namespace Trimmed

variable {nodes middle result : Program α} {protectedStart : Nat}

theorem refl (valid : Valid nodes) : Trimmed nodes protectedStart nodes :=
  ⟨rfl, rfl, valid, fun _ _ held => held, fun slot _ held => ⟨slot, held⟩, fun _ held => held,
    fun _ _ held => held⟩

/-- Trimming what was trimmed trims. -/
theorem trans (first : Trimmed nodes protectedStart middle)
    (second : Trimmed middle protectedStart result) : Trimmed nodes protectedStart result where
  sized := second.sized.trans first.sized
  leading := second.leading.trans first.leading
  valid := second.valid
  arguments slot parameter held :=
    second.arguments slot parameter (first.arguments slot parameter held)
  borrowed slot parameter held := by
    obtain ⟨other, found⟩ := second.borrowed slot parameter held
    exact first.borrowed other parameter found
  absent slot held := first.absent slot (second.absent slot held)
  kept slot behind held := second.kept slot behind (first.kept slot behind held)

/-- A trimmed program is ready for the outputs that its original is ready for, if these are
protected. -/
theorem ready {outputs : Nat} (trimmed : Trimmed nodes protectedStart result)
    (ready : Ready nodes outputs) (protects : protectedStart ≤ nodes.size - outputs) :
    Ready result outputs := by
  refine ⟨ready.positive, trimmed.sized ▸ ready.enough, ?_, trimmed.valid, ?_⟩
  · rw [trimmed.leading]
    exact ready.leading
  · intro slot above below
    rw [trimmed.sized] at above below
    exact trimmed.kept slot (Nat.le_trans protects above) (ready.present slot above below)

end Trimmed

/-- Removing dead nodes trims a valid program and does not read beyond it. -/
theorem remove_dead_trims {nodes : Program α} (valid : Valid nodes) (protectedStart : Nat) :
    Trimmed nodes protectedStart (removeDead nodes protectedStart).nodes ∧
      (removeDead nodes protectedStart).inBounds = true := by
  have swept := remove_dead_swept valid protectedStart
  refine ⟨?_, swept.inBounds⟩
  generalize removeDead nodes protectedStart = removal at swept ⊢
  constructor
  case sized => exact swept.sized
  case leading => exact swept.untreated 0 (Nat.le_refl 0)
  case valid =>
    intro slot node held read member
    obtain ⟨earlier, present⟩ := valid slot node (swept.unchanged held) read member
    refine ⟨earlier, ?_⟩
    rcases swept.kept_or_dead read.toNat with same | ⟨_, _, unread, _⟩
    · rw [isPresent, same]
      exact present
    · have marked := swept.marked slot node (by omega) held read member
      simp [unread] at marked
  case arguments =>
    intro slot parameter held
    rcases swept.kept_or_dead slot with same | ⟨_, _, _, computed⟩
    · exact same.trans held
    · exact absurd held (computed parameter)
  case borrowed =>
    intro slot parameter held
    exact ⟨slot, swept.unchanged held⟩
  case absent =>
    intro slot present
    obtain ⟨node, held⟩ := (present_iff removal.nodes slot).mp present
    exact (present_iff nodes slot).mpr ⟨node, swept.unchanged held⟩
  case kept =>
    intro slot behind present
    rcases swept.kept_or_dead slot with same | ⟨_, free, _⟩
    · rw [isPresent, same]
      exact present
    · omega

/-- A walk over a valid program trims it when it keeps the leading slot, the arguments and the empty
slots, and leaves nodes that may stand where they do. No slot becomes empty. -/
theorem walk_trims {nodes : Program α} {prior : Prior α} (protectedStart : Nat)
    (sized : prior.size = nodes.size)
    (treated : ∀ slot, slot < prior.size →
      SimplerSlot slot (node? nodes slot) (node? prior.program slot))
    (admitted : prior.Every (AdmitsKnown nodes)) :
    Trimmed nodes protectedStart prior.program := by
  have whole : prior.program.size = nodes.size := (Prior.program_size prior).trans sized
  have slots : ∀ slot, SimplerSlot slot (node? nodes slot) (node? prior.program slot) := by
    intro slot
    by_cases inside : slot < nodes.size
    · exact treated slot (sized ▸ inside)
    · have beyond : nodes.size ≤ slot := Nat.le_of_not_lt inside
      rw [node_beyond nodes slot beyond, node_beyond prior.program slot (whole ▸ beyond)]
      exact .same none
  have present : ∀ slot, isPresent prior.program slot = isPresent nodes slot := by
    intro slot
    have content := slots slot
    simp only [isPresent]
    generalize node? nodes slot = original at content ⊢
    generalize node? prior.program slot = changed at content ⊢
    cases content <;> rfl
  have admits : ∀ slot node, node? prior.program slot = some node → Admits nodes slot node := by
    intro slot node held
    rw [Prior.program_node] at held
    obtain ⟨known, found, rfl⟩ := Option.map_eq_some_iff.mp held
    exact (admitted slot known found).1
  constructor
  case sized => exact whole
  case leading =>
    have content := slots 0
    generalize node? nodes 0 = original at content ⊢
    generalize node? prior.program 0 = changed at content ⊢
    cases content with
    | same => rfl
    | simpler later => exact absurd later (Nat.lt_irrefl 0)
  case valid =>
    intro slot node held read member
    rw [present]
    exact (admits slot node held).reads read member
  case arguments =>
    intro slot parameter held
    have content := slots slot
    rw [held] at content
    generalize node? prior.program slot = changed at content ⊢
    cases content with
    | same => rfl
    | simpler _ free => exact absurd rfl (free parameter)
  case borrowed =>
    intro slot parameter held
    exact (admits slot _ held).argument parameter rfl
  case absent =>
    intro slot held
    exact present slot ▸ held
  case kept =>
    intro slot _ held
    exact (present slot).trans held

variable [Number α]

/-- Making every node simpler trims a valid program. No slot becomes empty. -/
theorem simplify_trims {nodes : Program α} (valid : Valid nodes) (protectedStart : Nat) :
    Trimmed nodes protectedStart (simplify nodes).1 := by
  obtain ⟨prior, walked, sized, same⟩ := simplify_walks nodes
  rw [same]
  exact walk_trims protectedStart sized
    (rewritten_slots (fun _ _ _ simpler => simpler_free simpler) walked)
    (rewritten_admits valid (fun _ _ _ _ known admits => simpler_admits known admits) walked)

/-- A round trims a valid program and does not read beyond it. -/
theorem optimize_round_trims {nodes : Program α} (valid : Valid nodes) (protectedStart : Nat) :
    Trimmed nodes protectedStart (optimizeRound nodes protectedStart).nodes ∧
      (optimizeRound nodes protectedStart).inBounds = true := by
  have simplified := simplify_trims valid protectedStart
  have removed := remove_dead_trims simplified.valid protectedStart
  exact ⟨simplified.trans removed.1, removed.2⟩

/-- Any number of rounds trims a valid program and does not read beyond it. -/
theorem optimize_rounds_trims (protectedStart fuel : Nat) (state : Optimized α)
    (valid : Valid state.nodes) (inBounds : state.inBounds = true) :
    Trimmed state.nodes protectedStart (optimizeRounds protectedStart fuel state).nodes ∧
      (optimizeRounds protectedStart fuel state).inBounds = true := by
  induction fuel generalizing state with
  | zero => exact ⟨.refl valid, inBounds⟩
  | succ fuel inductionHypothesis =>
    obtain ⟨trimmed, bounded⟩ := optimize_round_trims valid protectedStart
    unfold optimizeRounds
    simp only [inBounds, bounded, Bool.and_self]
    split
    · obtain ⟨further, stays⟩ := inductionHypothesis
        ⟨(optimizeRound state.nodes protectedStart).nodes, state.rounds + 1, true⟩ trimmed.valid rfl
      exact ⟨trimmed.trans further, stays⟩
    · exact ⟨trimmed, rfl⟩

/-- Simplifying a valid program trims it and does not read beyond it. -/
theorem optimize_trims {nodes : Program α} (valid : Valid nodes) (protectedStart : Nat) :
    Trimmed nodes protectedStart (optimize nodes protectedStart).nodes ∧
      (optimize nodes protectedStart).inBounds = true := by
  unfold optimize
  split
  · exact ⟨.refl valid, rfl⟩
  · exact optimize_rounds_trims protectedStart _ ⟨nodes, 0, true⟩ valid rfl

section Laws

variable {law : Program α → Prop} {protectedStart : Nat}
  (kept : ∀ nodes, Valid nodes → law nodes → law (optimizeRound nodes protectedStart).nodes)

include kept

/-- A law that a round keeps is kept by any number of rounds. -/
theorem optimize_rounds_keeps (fuel : Nat) (state : Optimized α) (valid : Valid state.nodes)
    (holds : law state.nodes) : law (optimizeRounds protectedStart fuel state).nodes := by
  induction fuel generalizing state with
  | zero => exact holds
  | succ fuel inductionHypothesis =>
    have trimmed := (optimize_round_trims valid protectedStart).1
    have round := kept state.nodes valid holds
    simp only [optimizeRounds]
    split
    · exact inductionHypothesis _ trimmed.valid round
    · exact round

/-- A law that a round keeps is kept by simplifying a valid program. -/
theorem optimize_keeps {nodes : Program α} (valid : Valid nodes) (holds : law nodes) :
    law (optimize nodes protectedStart).nodes := by
  unfold optimize
  split
  · exact holds
  · exact optimize_rounds_keeps kept _ ⟨nodes, 0, true⟩ valid holds

end Laws

/-- A walk that permits direct forms only makes no guards. -/
theorem rewritten_unguarded {nodes : Program α} {permitted : Prior α → Node α → Node α → Prop}
    (direct : ∀ prior node form, permitted prior node form → form.isDirect = true)
    (unguarded : Unguarded nodes) {prior : Prior α} (walked : Rewritten nodes permitted prior) :
    Unguarded prior.program := by
  induction walked with
  | start =>
    intro slot branch cond taken held
    simp [Prior.program, node?] at held
  | @next prior content _ rewrites inductionHypothesis =>
    rw [Prior.program_extend, unguarded_push_iff]
    refine ⟨inductionHypothesis, ?_⟩
    intro branch cond taken same
    subst same
    generalize original : node? nodes prior.size = before at rewrites
    cases rewrites with
    | kept => exact unguarded _ branch cond taken original
    | replaced _ permits => cases direct _ _ _ permits

/-- Simplifying a valid program makes no guards. -/
theorem optimize_unguarded {nodes : Program α} (valid : Valid nodes) (unguarded : Unguarded nodes)
    (protectedStart : Nat) : Unguarded (optimize nodes protectedStart).nodes := by
  apply optimize_keeps _ valid unguarded
  intro nodes valid unguarded slot branch cond taken held
  obtain ⟨prior, walked, _, same⟩ := simplify_walks nodes
  have swept := remove_dead_swept (simplify_trims valid protectedStart).valid protectedStart
  have before := swept.unchanged held
  rw [same] at before
  exact rewritten_unguarded (fun _ _ _ => Node.simpler_direct) unguarded walked slot branch cond
    taken before

end ProgramSearch.Program
