import ProgramSearch.Proofs.Number.Small
import ProgramSearch.Proofs.Program.Modes

/-!
# Checked runs

A checked run is an unchecked one that may stop earlier. Where it stops, the eager values of the
slots give a reason: the operator that is blamed has operands outside its domain, or a guard
disagrees. Conversely it cannot come to an end past an offender that the outputs need, and it always
comes to an end when there is none.

A run works on a buffer that belongs to its caller. The outputs are stored only after all steps have
been executed, so that a signal leaves the buffer as it was.
-/

namespace ProgramSearch

variable {α : Type} [Number α]

namespace Compiled

/-- Storing values that can be read replaces the cells behind those that are done. -/
theorem store_ok (frame : Frame α) (leaves : List (Value α)) (done : Array α) (rest fresh : List α)
    (read : readAll frame (leaves.take rest.length) = .ok fresh) :
    store frame leaves done.size (done ++ rest.toArray) =
      (.ok (), done ++ fresh.toArray ++ (rest.drop fresh.length).toArray) := by
  induction leaves generalizing done rest fresh with
  | nil =>
    obtain rfl := Except.ok.inj (List.take_nil ▸ read)
    simp [store]
  | cons leaf leaves inductionHypothesis =>
    cases rest with
    | nil =>
      obtain rfl := Except.ok.inj read
      simp [store]
    | cons old rest =>
      simp only [List.length_cons, List.take_succ_cons, readAll] at read
      split at read
      · cases read
      · rename_i value known
        obtain ⟨others, readRest, rfl⟩ := (Refusal.map_ok_iff _ _ _).mp read
        have stored : (done ++ (old :: rest).toArray).setIfInBounds done.size value =
            done.push value ++ rest.toArray := by
          apply Array.toList_inj.mp
          simp
        have next := inductionHypothesis (done.push value) rest others readRest
        rw [Array.size_push] at next
        have inside : done.size < (done ++ (old :: rest).toArray).size := by simp
        simp only [store, if_pos inside, known, stored, next]
        simp

/-- Reading leaves only stops for a missing input. -/
theorem read_all_halts (frame : Frame α) (leaves : List (Value α)) (halt : Halt)
    (stopped : readAll frame leaves = .error halt) : halt = .missingInput := by
  induction leaves with
  | nil => cases stopped
  | cons leaf rest inductionHypothesis =>
    simp only [readAll] at stopped
    split at stopped
    · rename_i cause unread
      obtain rfl := Except.error.inj stopped
      cases leaf with
      | constant | temporary => cases unread
      | input index =>
        simp only [Value.read] at unread
        split at unread
        · cases unread
        · exact (Except.error.inj unread).symm
    · cases others : readAll frame rest with
      | ok values => simp [others, Except.map] at stopped
      | error cause =>
        obtain rfl : cause = halt := by simpa [others, Except.map] using stopped
        exact inductionHypothesis others

/-- A call that comes to an end leaves the results of the run in the buffer. -/
theorem call_ended {program : Compiled α} {inputs buffer results : Array α}
    (ended : (program.run inputs buffer).result = .ok results) :
    program.call inputs buffer = (.ok (), results) := by
  simp only [run, Traced.result_bind, Refusal.bind_ok_iff] at ended
  obtain ⟨temporaries, filled, fresh, read, finished⟩ := ended
  obtain rfl := Except.ok.inj finished
  have known : readAll ⟨inputs, temporaries⟩ (program.outputs.take buffer.toList.length) =
      .ok fresh := by simpa [Traced.ofResult] using read
  have stored := store_ok ⟨inputs, temporaries⟩ program.outputs #[] buffer.toList fresh known
  rw [Array.size_empty, Array.empty_append, Array.toArray_toList, Array.empty_append] at stored
  have rest : (buffer.toList.drop fresh.length).toArray = buffer.extract fresh.length buffer.size :=
    Array.toList_inj.mp (by simp [List.take_of_length_le])
  simp only [call, filled, stored, rest]

/-- A call that a signal stops leaves the buffer as it was. -/
theorem call_stopped {program : Compiled α} {inputs buffer : Array α} {cause : Signal}
    (stopped : (program.run inputs buffer).result = .error (.signal cause)) :
    program.call inputs buffer = (.error (.signal cause), buffer) := by
  simp only [run, Traced.result_bind, Refusal.bind_refused_iff] at stopped
  rcases stopped with early | ⟨temporaries, filled, unread | ⟨fresh, _, never⟩⟩
  · simp only [call, early]
  · cases read_all_halts _ _ _ unread
  · cases never

end Compiled

namespace Program

/-- Slots that the outputs need when the slots have the given values: the outputs themselves, and
the operands of what they need, but only the selected side of a conditional. -/
inductive Reached (nodes : Program α) (outputs : Nat) (values : Nat → α) : Nat → Prop where
  | output {slot : Nat} :
      nodes.size - outputs ≤ slot → slot < nodes.size → Reached nodes outputs values slot
  | operand {reader : Nat} {node : Node α} {read : UInt16} :
      Reached nodes outputs values reader → node? nodes reader = some node →
      read ∈ node.needs values → Reached nodes outputs values read.toNat

/-- A run that comes to an end has passed every slot that the outputs need. -/
theorem Reached.passed {nodes : Program α} {outputs : Nat} {mode : Mode} {values : Nat → α}
    {made : Report → Prop} {slot : Nat} (reached : Reached nodes outputs values slot)
    (passed : ∀ slot, nodes.size - outputs ≤ slot → slot < nodes.size →
      Passed nodes mode values made slot) : Passed nodes mode values made slot := by
  induction reached with
  | output above below => exact passed _ above below
  | operand _ held needed inductionHypothesis =>
    exact (passed_inversion inductionHypothesis held).2 _ needed

/-- The node in a slot is a checked operator whose operands lie outside its domain. -/
def Offends (nodes : Program α) (values : Nat → α) (slot : Nat) : Prop :=
  ∃ op lhs rhs, node? nodes slot = some (.binary op lhs rhs) ∧ op.isChecked = true ∧
    op.isInvalid (values lhs.toNat) (values rhs.toNat) = true

/-- The node in a slot is a guard whose condition is on the other side. -/
def Disagrees (nodes : Program α) (values : Nat → α) (slot : Nat) : Prop :=
  ∃ branch cond taken, node? nodes slot = some (.guarded branch cond taken) ∧
    Number.positive (values cond.toNat) ≠ taken

/-- A checked program runs as the unchecked one, except that it may stop. When it comes to an end,
so does the unchecked one, with the same results. An operator that is blamed has eager operands
outside its domain, a run that bails out has met a guard that disagrees with the eager values, and
the buffer of a stopped call is as it was. Without an offender and a disagreeing guard the run comes
to an end with the eager values of the outputs; if the outputs need an offender, it does not. -/
theorem checks_blame_offenders (nodes : Program α) (outputs : Nat) (mode : Mode)
    (program : Compiled α) (addressable : nodes.size ≤ 2 ^ 16)
    (checked : mode.checked = true) (compiled : compile nodes outputs mode = .ok program) :
    (∀ other : Mode, other.checked = false → ∃ unchecked,
      compile nodes outputs other = .ok unchecked ∧ unchecked.arity = program.arity ∧
      ∀ inputs buffer results, (program.run inputs buffer).result = .ok results →
        (unchecked.run inputs buffer).result = .ok results) ∧
    ∀ inputs buffer, program.arity ≤ inputs.size →
      (∀ results, (program.run inputs buffer).result = .ok results →
        program.call inputs buffer = (.ok (), results)) ∧
      (∀ halt, (program.run inputs buffer).result = .error halt →
        program.call inputs buffer = (.error halt, buffer) ∧
        ((∃ slot, halt = .signal (.invalidOperation slot) ∧
            Offends nodes (eager inputs nodes) slot.toNat) ∨
          halt = .signal .bailout ∧ ∃ slot, Disagrees nodes (eager inputs nodes) slot)) ∧
      ((∀ slot, ¬ Offends nodes (eager inputs nodes) slot) →
        (∀ slot, ¬ Disagrees nodes (eager inputs nodes) slot) →
        (program.run inputs buffer).result =
          .ok (overwritten (eager inputs nodes) (nodes.size - outputs) outputs buffer)) ∧
      ∀ slot, Reached nodes outputs (eager inputs nodes) slot →
        Offends nodes (eager inputs nodes) slot →
        ∀ results, (program.run inputs buffer).result ≠ .ok results := by
  obtain ⟨ready, slots, linked⟩ := linked_of_compile compiled
  refine ⟨fun other unchecked => ?_, fun inputs buffer sufficient => ?_⟩
  · exact ⟨program.inMode other, compile_in_mode compiled other, rfl,
      fun inputs buffer results => program.run_unchecked unchecked inputs buffer results⟩
  have explained := eager_explains inputs nodes ready.valid
  have settled := linked.run_settles explained sufficient buffer
  refine ⟨fun results => Compiled.call_ended, fun halt stopped => ?_, fun inside agrees => ?_,
    fun slot reached offends results ended => ?_⟩
  · rw [stopped] at settled
    cases settled with
    | @guarded slot branch cond taken held opposed =>
      exact ⟨Compiled.call_stopped stopped, .inr ⟨rfl, slot, branch, cond, taken, held, opposed⟩⟩
    | @operator slot op lhs rhs held _ domain outside =>
      have exact : (UInt16.ofNat slot).toNat = slot :=
        UInt16.toNat_ofNat_of_lt' (Nat.lt_of_lt_of_le (node_bound nodes slot _ held) addressable)
      refine ⟨Compiled.call_stopped stopped, .inl ⟨UInt16.ofNat slot, rfl, ?_⟩⟩
      rw [exact]
      exact ⟨op, lhs, rhs, held, domain, outside⟩
  · refine settled.ended fun halt blamed => ?_
    cases blamed with
    | @guarded slot branch cond taken held opposed =>
      exact agrees slot ⟨branch, cond, taken, held, opposed⟩
    | @operator slot op lhs rhs held _ domain outside =>
      exact inside slot ⟨op, lhs, rhs, held, domain, outside⟩
  · obtain ⟨op, lhs, rhs, held, domain, outside⟩ := offends
    have covered : Covered nodes inputs := fun slot parameter held =>
      Nat.lt_of_lt_of_le (linked.covers slot parameter held) sufficient
    have passed := reached.passed (linked.run_passes ready.enough explained covered ended
      fun _ _ => trivial)
    have valid := (passed_inversion passed held).1
    simp [Node.Passes, checked, domain, outside] at valid

/-- A quotient that only the positive side of a conditional reads. -/
def quotients : Program Small :=
  #[some (.argument 0), some (.argument 1), some (.binary .div 0 1), some (.conditional 2 1 0)]

/-- With a zero divisor the quotient offends. A negative condition selects the divisor instead, and
nothing is checked; a positive one needs the quotient, and the call leaves its buffer as it was. -/
theorem quotients_checked :
    ∃ program unchecked,
      quotients.size ≤ 2 ^ 16 ∧
      compile quotients 1 { checked := true, profile := none } = .ok program ∧
      compile quotients 1 { checked := false, profile := none } = .ok unchecked ∧
      program.arity ≤ 2 ∧
      Offends quotients (eager #[Small.ofInt (-3), Small.ofInt 0] quotients) 2 ∧
      (unchecked.run #[Small.ofInt (-3), Small.ofInt 0] #[.undefined]).result =
        .ok #[Small.ofInt 0] ∧
      Offends quotients (eager #[Small.ofInt 3, Small.ofInt 0] quotients) 2 ∧
      program.call #[Small.ofInt 3, Small.ofInt 0] #[.undefined] =
        (.error (.signal (.invalidOperation 2)), #[.undefined]) := by
  obtain ⟨program, compiled, arity, skipped, refused⟩ : ∃ program,
      compile quotients 1 { checked := true, profile := none } = .ok program ∧
        program.arity = 2 ∧
        (program.run #[Small.ofInt (-3), Small.ofInt 0] #[.undefined]).result =
          .ok #[Small.ofInt 0] ∧
        (program.run #[Small.ofInt 3, Small.ofInt 0] #[.undefined]).result =
          .error (.signal (.invalidOperation 2)) := ⟨_, rfl, rfl, rfl, rfl⟩
  have addressable : quotients.size ≤ 2 ^ 16 := by decide
  obtain ⟨ends, blames⟩ :=
    checks_blame_offenders quotients 1 { checked := true } program addressable rfl compiled
  obtain ⟨unchecked, accepted, _, same⟩ := ends { checked := false } rfl
  have sufficient : program.arity ≤ #[Small.ofInt 3, Small.ofInt 0].size := Nat.le_of_eq arity
  have stopped := (blames #[Small.ofInt 3, Small.ofInt 0] #[.undefined] sufficient).2.1 _ refused
  refine ⟨program, unchecked, addressable, compiled, accepted, Nat.le_of_eq arity,
    ⟨.div, 0, 1, rfl, rfl, by decide +kernel⟩, same _ _ _ skipped, ?_, stopped.1⟩
  exact ⟨.div, 0, 1, rfl, rfl, by decide +kernel⟩

end Program

end ProgramSearch
