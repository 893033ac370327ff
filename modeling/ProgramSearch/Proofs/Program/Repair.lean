import ProgramSearch.Proofs.Program.Generation
import ProgramSearch.Proofs.Program.NormalForm

/-!
# Repaired programs

A repair works in rounds. Each simplifies the program and looks for condemned slots, and gives them
new nodes if there are any. A round that finds none ends the repair, so what it leaves was simplified
just before: it is a fixed point of simplifying, and no slot of it is condemned. A repair that never
comes to such a round stops after 1024 of them, and then nothing is known of the nodes that the last
one put in. Either way the program stays valid, arguments keep their slots, and no slot at or after
the protected one is emptied.

New nodes may be condemned again, once they are simplified or once others are simplified around them,
so the number of rounds depends on the words that are drawn.
-/

namespace ProgramSearch.Program

variable {α : Type}

/-- What a repair keeps of a program. -/
structure Preserved (nodes : Program α) (protectedStart : Nat) (result : Program α) : Prop where
  sized : result.size = nodes.size
  valid : Valid result
  arguments : ∀ slot parameter, node? nodes slot = some (.argument parameter) →
    node? result slot = some (.argument parameter)
  kept : ∀ slot, protectedStart ≤ slot → isPresent nodes slot = true →
    isPresent result slot = true

theorem Preserved.refl {nodes : Program α} (valid : Valid nodes) (protectedStart : Nat) :
    Preserved nodes protectedStart nodes :=
  ⟨rfl, valid, fun _ _ held => held, fun _ _ present => present⟩

variable [Number α] {protectedStart : Nat}

/-- Simplifying preserves a program, and so does giving new nodes to slots that hold no arguments. -/
theorem preserved_repairable (nodes : Program α) (protectedStart : Nat) :
    Repairable protectedStart (Preserved nodes protectedStart) where
  valid := Preserved.valid
  simplified := by
    intro current preserved
    have trimmed := (optimize_trims preserved.valid protectedStart).1
    constructor
    case sized => exact trimmed.sized.trans preserved.sized
    case valid => exact trimmed.valid
    case arguments =>
      exact fun slot parameter held =>
        trimmed.arguments slot parameter (preserved.arguments slot parameter held)
    case kept =>
      exact fun slot behind present =>
        trimmed.kept slot behind (preserved.kept slot behind present)
  regrown := by
    intro current slots result preserved computed regrown
    constructor
    case sized => exact regrown.sized.trans preserved.sized
    case valid => exact regrown.valid
    case arguments =>
      intro slot parameter held
      have before := preserved.arguments slot parameter held
      have unlisted : slot ∉ slots := fun listed => by
        obtain ⟨_, node, same, unprotected⟩ := computed slot listed
        obtain rfl := Option.some.inj (before.symm.trans same)
        cases unprotected
      rw [regrown.kept slot unlisted ((present_iff current slot).mpr ⟨_, before⟩), before]
    case kept => exact fun slot behind present => regrown.present slot (preserved.kept slot behind present)

/-- Rounds of repair that each find condemned slots, with what each finds, the program after the last
one and the words that are left. -/
inductive RepairRounds (protectedStart : Nat) :
    Program α → Stream → List (List Nat) → Program α → Stream → Prop where
  | done {nodes : Program α} {stream : Stream} :
      RepairRounds protectedStart nodes stream [] nodes stream
  | round {nodes mended result : Program α} {slots : List Nat} {found : List (List Nat)}
      {stream later rest : Stream} :
      offenders (optimize nodes protectedStart).nodes = slots → slots ≠ [] →
      regenerate (optimize nodes protectedStart).nodes slots stream = .ok mended later →
      RepairRounds protectedStart mended later found result rest →
      RepairRounds protectedStart nodes stream (slots :: found) result rest

/-- Every round finds a slot, so there are no more rounds than replaced slots. -/
theorem RepairRounds.length_le {nodes result : Program α} {found : List (List Nat)}
    {stream rest : Stream} (rounds : RepairRounds protectedStart nodes stream found result rest) :
    found.length ≤ found.flatten.length := by
  induction rounds with
  | done => exact Nat.le_refl 0
  | round _ some _ _ inductionHypothesis =>
    have positive := List.length_pos_iff.mpr some
    rw [List.length_cons, List.flatten_cons, List.length_append]
    omega

/-- A repair goes through rounds that find condemned slots, whose number is counted, and then it has
no rounds left or finds none in the simplified program.

The induction is on the rounds that are left. -/
theorem repair_loop_rounds (fuel replaced : Nat) {nodes result : Program α} {total : Nat}
    {stream rest : Stream}
    (ended : repairLoop protectedStart fuel nodes replaced stream = .ok (result, total) rest) :
    ∃ found mended, RepairRounds protectedStart nodes stream found mended rest ∧
      total = replaced + found.flatten.length ∧
      (found.length = fuel ∧ result = mended ∨
        found.length < fuel ∧ result = (optimize mended protectedStart).nodes ∧
          offenders result = []) := by
  induction fuel generalizing nodes replaced stream with
  | zero =>
    cases ended
    exact ⟨[], result, .done, rfl, .inl ⟨rfl, rfl⟩⟩
  | succ fuel inductionHypothesis =>
    rw [repairLoop, Draw.bind_drawn_iff] at ended
    obtain ⟨simpler, current, simplifies, ended⟩ := ended
    obtain ⟨rfl, rfl⟩ : (optimize nodes protectedStart).nodes = simpler ∧ stream = current := by
      rw [simplified] at simplifies
      split at simplifies
      · cases simplifies
        exact ⟨rfl, rfl⟩
      · cases simplifies
    split at ended
    · rename_i none
      cases ended
      exact ⟨[], nodes, .done, rfl, .inr ⟨Nat.succ_pos fuel, rfl, List.isEmpty_iff.mp none⟩⟩
    · rename_i some
      obtain ⟨mended, later, regenerated, ended⟩ := (Draw.bind_drawn_iff _).mp ended
      obtain ⟨found, last, rounds, counted, finished⟩ := inductionHypothesis _ ended
      refine ⟨_ :: found, last, .round rfl (fun empty => some ?_) regenerated rounds, ?_, ?_⟩
      · rw [empty, List.isEmpty_nil]
      · rw [counted, List.flatten_cons, List.length_append, Nat.add_assoc]
      · rw [List.length_cons]
        exact finished.imp (fun all => ⟨congrArg (· + 1) all.1, all.2⟩) fun earlier =>
          ⟨Nat.succ_lt_succ earlier.1, earlier.2⟩

/-- A program that is repaired to the end: simplifying it changes nothing, and no node behind the
leading one is known to be invalid, or to be "not a number" or an infinity. -/
structure Cleared (nodes : Program α) (protectedStart : Nat) : Prop where
  simplest : optimize nodes protectedStart = ⟨nodes, 0, true⟩
  regular : ∀ slot node, 0 < slot → node? nodes slot = some node →
    node.isStaticInvalid (prior (nodes.extract 0 slot)) = false
  finite : ∀ slot node value, 0 < slot → node? nodes slot = some node →
    node.value? (prior (nodes.extract 0 slot)) = some value → Number.isFinite value = true

/-- A valid program that was simplified and has no condemned slots is repaired to the end. -/
theorem cleared_of_none {nodes result : Program α} (valid : Valid result)
    (simplified : result = (optimize nodes protectedStart).nodes) (none : offenders result = []) :
    Cleared result protectedStart := by
  have harmless : ∀ slot, ¬Condemned result slot := fun slot condemned => by
    have found := (mem_offenders_iff result slot).mpr condemned
    rw [none] at found
    cases found
  constructor
  · apply optimize_of_unchanged valid
    rw [simplified]
    exact (optimize_repeats nodes protectedStart).normal
  · intro slot node later held
    exact Bool.eq_false_iff.mpr fun invalid => harmless slot ⟨later, node, held, .inl invalid⟩
  · intro slot node value later held known
    by_contra infinite
    refine harmless slot ⟨later, node, held, .inr ?_⟩
    simpa [Node.isStaticNonFinite, Node.hasOperand, known] using infinite

/-- A repair of a valid program that has an address for every slot comes to an end on every stream,
after at most 1024 rounds, with the number of slots that they found. The program that it leaves is
valid and as long as before, no slot at or after the protected one was emptied, and every argument is
where it was. Unless all of the rounds found condemned slots, simplifying the program changes
nothing, and no node behind the leading one is known to be invalid or not finite. In particular, the
constants there are finite. -/
theorem repair_leaves_nothing_condemned (nodes : Program α) (protectedStart : Nat)
    (stream : Stream) (addressable : nodes.size ≤ 2 ^ 16) (accepted : validate nodes = .ok ()) :
    ∃ found mended result rest,
      RepairRounds protectedStart nodes stream found mended rest ∧ found.length ≤ 1024 ∧
      repair nodes protectedStart stream = .ok (result, found.flatten.length) rest ∧
      validate result = .ok () ∧ result.size = nodes.size ∧
      (∀ slot, protectedStart ≤ slot → isPresent nodes slot = true →
        isPresent result slot = true) ∧
      (∀ slot parameter, node? nodes slot = some (.argument parameter) →
        node? result slot = some (.argument parameter)) ∧
      (found.length = 1024 → result = mended) ∧
      (found.length < 1024 → result = (optimize mended protectedStart).nodes ∧
        Cleared result protectedStart ∧
        ∀ slot value, 0 < slot → node? result slot = some (.constant value) →
          Number.isFinite value = true) := by
  have valid := (validate_ok_iff nodes).mp accepted
  obtain ⟨⟨result, total⟩, rest, ended, preserved⟩ :=
    ((preserved_repairable nodes protectedStart).repair_ensures (.refl valid protectedStart)
      (.inl addressable)).total stream
  obtain ⟨found, mended, rounds, counted, finished⟩ := repair_loop_rounds _ 0 ended
  rw [Nat.zero_add] at counted
  subst counted
  refine ⟨found, mended, result, rest, rounds, ?_, ended, (validate_ok_iff result).mpr
    preserved.valid, preserved.sized, preserved.kept, preserved.arguments, ?_, ?_⟩
  · rcases finished with ⟨all, _⟩ | ⟨earlier, _⟩
    · exact Nat.le_of_eq all
    · exact Nat.le_of_lt earlier
  · rintro all
    rcases finished with ⟨_, same⟩ | ⟨earlier, _⟩
    · exact same
    · exact absurd all (Nat.ne_of_lt earlier)
  · intro fewer
    rcases finished with ⟨all, _⟩ | ⟨_, simplified, none⟩
    · exact absurd all (Nat.ne_of_lt fewer)
    · have cleared := cleared_of_none preserved.valid simplified none
      exact ⟨simplified, cleared, fun slot value later held =>
        cleared.finite slot _ value later held rfl⟩

/-- A quotient by zero and a sum that reads it. -/
def undefinedQuotient : Program Small :=
  #[some (.argument 0), some (.constant Number.zero), some (.binary .div 0 1),
    some (.binary .add 2 0)]

/-- What is left of it after a repair. -/
def replacedQuotient : Program Small :=
  #[some (.argument 0), some (.binary .div 0 0), none, some (.binary .div 1 1)]

/-- The new node for the quotient divides zero by zero, so the sum becomes a constant that is not
finite. The node that replaces the sum reads an emptied slot, which is filled. Then nothing is left
to replace. -/
theorem undefined_quotient_repaired :
    undefinedQuotient.size ≤ 2 ^ 16 ∧ validate undefinedQuotient = .ok () ∧
      ∃ found mended rest,
        RepairRounds 3 undefinedQuotient (Stream.cyclic #[0x80000000]) found mended rest ∧
        repair undefinedQuotient 3 (Stream.cyclic #[0x80000000]) =
          .ok (replacedQuotient, 2) rest ∧
        Cleared replacedQuotient 3 := by
  have addressable : undefinedQuotient.size ≤ 2 ^ 16 := by decide
  have accepted : validate undefinedQuotient = .ok () := by decide +kernel
  obtain ⟨found, mended, result, rest, rounds, _, ended, _, _, _, _, _, earlier⟩ :=
    repair_leaves_nothing_condemned undefinedQuotient 3 (Stream.cyclic #[0x80000000]) addressable
      accepted
  have computed : Draw.isDrawn (repair undefinedQuotient 3) (Stream.cyclic #[0x80000000])
      (fun repaired => decide (repaired = (replacedQuotient, 2))) = true := by
    decide +kernel
  have passed := Draw.test_of_drawn computed ended
  obtain ⟨rfl, counted⟩ := Prod.mk.inj (of_decide_eq_true passed)
  have few : found.length < 1024 := by
    have fewer := rounds.length_le
    omega
  rw [counted] at ended
  exact ⟨addressable, accepted, found, mended, rest, rounds, ended, (earlier few).2.1⟩

end ProgramSearch.Program
