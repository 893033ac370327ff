import ProgramSearch.Proofs.Program.Acceptance

/-!
# Verdicts on programs

Compiling looks at a program from the outside before it makes any code: first at the number of
outputs, then at the leading node, at the operands of all nodes and at the output slots. It refuses
for the first of these that is wrong, and the fault names the place. If nothing is wrong the program
is ready, and a ready program compiles.

So the verdict depends on the shape of the program alone. How the program is to be instrumented and
checked does not matter, and the faults by which lowering would report a defect of its own never
arise: an operand is not taken twice, a renamed node has a value, and no direct node is lowered.
-/

namespace ProgramSearch.Program

variable {α : Type}

/-- The operands of the node in a slot, if it holds one, are present and lie strictly before it. -/
def Sound (nodes : Program α) (slot : Nat) : Prop :=
  ∀ node, node? nodes slot = some node →
    ∀ read ∈ node.reads, read.toNat < slot ∧ isPresent nodes read.toNat = true

/-- What is checked before the operands: there are slots for the outputs, and the leading node is a
constant, an argument or another name. -/
structure Opens (nodes : Program α) (outputs : Nat) : Prop where
  positive : 0 < outputs
  enough : outputs ≤ nodes.size
  leading : ∃ node, node? nodes 0 = some node ∧ node.isDirect = true

/-- Validation arrives at an operand of a slot: all slots before are sound, and the operands that
the node reads before this one are present and earlier. -/
structure Arrives (nodes : Program α) (slot : Nat) (read : UInt16) : Prop where
  sound : ∀ earlier, earlier < slot → Sound nodes earlier
  listed : ∃ (node : Node α) (place : Nat), node? nodes slot = some node ∧
    node.reads[place]? = some read ∧
      ∀ (before : Nat) (other : UInt16), before < place → node.reads[before]? = some other →
        other.toNat < slot ∧ isPresent nodes other.toNat = true

/-- In a valid program, nothing is wrong with an operand that validation arrives at. -/
theorem Arrives.sound_of_valid {nodes : Program α} {slot : Nat} {read : UInt16}
    (arrives : Arrives nodes slot read) (valid : Valid nodes) :
    read.toNat < slot ∧ isPresent nodes read.toNat = true := by
  obtain ⟨node, place, held, found, _⟩ := arrives.listed
  exact valid slot node held read (List.mem_of_getElem? found)

/-- The first thing that is wrong with a program that does not compile. -/
inductive Refuses (nodes : Program α) (outputs : Nat) : Fault → Prop where
  | outputCount :
      outputs = 0 ∨ nodes.size < outputs →
        Refuses nodes outputs (.misfit (.outputs outputs nodes.size))
  | leadingNode :
      0 < outputs → outputs ≤ nodes.size →
      (¬ ∃ node, node? nodes 0 = some node ∧ node.isDirect = true) →
        Refuses nodes outputs .leadingNode
  | forwardReference {slot : Nat} {read : UInt16} :
      Opens nodes outputs → Arrives nodes slot read → slot ≤ read.toNat →
        Refuses nodes outputs (.forwardReference slot read.toNat)
  | absentOperand {slot : Nat} {read : UInt16} :
      Opens nodes outputs → Arrives nodes slot read → read.toNat < slot →
      isPresent nodes read.toNat = false →
        Refuses nodes outputs (.absentOperand slot read.toNat)
  | absentOutput {slot : Nat} :
      Opens nodes outputs → Valid nodes →
      nodes.size - outputs ≤ slot → slot < nodes.size → isPresent nodes slot = false →
      (∀ earlier, nodes.size - outputs ≤ earlier → earlier < slot →
        isPresent nodes earlier = true) →
        Refuses nodes outputs (.absentOutput slot)

/-- An operand is refused exactly when it is not earlier or, being earlier, is absent. -/
theorem check_operand_refused_iff (nodes : Program α) (slot : Nat) (read : UInt16)
    (fault : Fault) :
    checkOperand nodes slot read = .error fault ↔
      (slot ≤ read.toNat ∧ fault = .forwardReference slot read.toNat) ∨
        (read.toNat < slot ∧ isPresent nodes read.toNat = false ∧
          fault = .absentOperand slot read.toNat) := by
  rw [@eq_comm _ fault, @eq_comm _ fault]
  by_cases late : slot ≤ read.toNat
  · simp [checkOperand, late, Nat.not_lt_of_le late]
  · by_cases present : isPresent nodes read.toNat = true
    · simp [checkOperand, late, present]
    · simp [checkOperand, late, present, Nat.lt_of_not_le late]

/-- Validation refuses a program exactly for the first operand that is refused. -/
theorem validate_refused_iff (nodes : Program α) (fault : Fault) :
    validate nodes = .error fault ↔
      ∃ slot read, Arrives nodes slot read ∧ checkOperand nodes slot read = .error fault := by
  rw [validate, Refusal.forM_refused_iff]
  constructor
  · rintro ⟨index, slot, listed, refused, before⟩
    obtain ⟨inside, rfl⟩ : index < nodes.size ∧ index = slot := by
      simpa [List.getElem?_eq_some_iff] using listed
    have sound : ∀ earlier, earlier < index → Sound nodes earlier := fun earlier sooner =>
      (check_slot_ok_iff nodes earlier).mp (before earlier earlier sooner
        (List.getElem?_range (Nat.lt_trans sooner inside)))
    cases held : node? nodes index with
    | none => simp [checkSlot, held] at refused
    | some node =>
      simp only [checkSlot, held, Refusal.forM_refused_iff] at refused
      obtain ⟨place, read, found, cause, passed⟩ := refused
      refine ⟨index, read, ⟨sound, node, place, held, found, ?_⟩, cause⟩
      intro before other sooner given
      exact (check_operand_ok_iff nodes index other).mp (passed before other sooner given)
  · rintro ⟨slot, read, ⟨sound, node, place, held, found, passed⟩, refused⟩
    have inside := node_bound nodes slot node held
    refine ⟨slot, slot, by simp [inside], ?_, ?_⟩
    · simp only [checkSlot, held, Refusal.forM_refused_iff]
      exact ⟨place, read, found, refused, fun before other sooner given =>
        (check_operand_ok_iff nodes slot other).mpr (passed before other sooner given)⟩
    · intro earlier other sooner listed
      obtain ⟨_, rfl⟩ : earlier < nodes.size ∧ earlier = other := by
        simpa [List.getElem?_eq_some_iff] using listed
      exact (check_slot_ok_iff nodes earlier).mpr (sound earlier sooner)

/-- The output slots are refused exactly for the first one that is empty. -/
theorem outputs_refused_iff (nodes : Program α) (outputs : Nat) (enough : outputs ≤ nodes.size)
    (fault : Fault) :
    (List.range' (nodes.size - outputs) outputs).forM (fun index =>
        if isPresent nodes index then Except.ok () else Except.error (Fault.absentOutput index)) =
          .error fault ↔
      ∃ slot, nodes.size - outputs ≤ slot ∧ slot < nodes.size ∧
        isPresent nodes slot = false ∧ fault = .absentOutput slot ∧
        ∀ earlier, nodes.size - outputs ≤ earlier → earlier < slot →
          isPresent nodes earlier = true := by
  rw [Refusal.forM_refused_iff]
  constructor
  · rintro ⟨index, slot, listed, refused, before⟩
    obtain ⟨inside, rfl⟩ : index < outputs ∧ nodes.size - outputs + index = slot := by
      simpa [List.getElem?_eq_some_iff] using listed
    have absent : isPresent nodes (nodes.size - outputs + index) = false :=
      Bool.eq_false_iff.mpr fun present => by simp [present] at refused
    refine ⟨_, by omega, by omega, absent, by simpa [absent, eq_comm] using refused, ?_⟩
    intro earlier above sooner
    have passed := before (earlier - (nodes.size - outputs)) earlier (by omega) (by
      rw [List.getElem?_range' (by omega)]
      simp only [Option.some.injEq]
      omega)
    by_cases present : isPresent nodes earlier = true
    · exact present
    · simp [present] at passed
  · rintro ⟨slot, above, below, absent, rfl, before⟩
    refine ⟨slot - (nodes.size - outputs), slot, ?_, by simp [absent], ?_⟩
    · rw [List.getElem?_range' (by omega)]
      simp only [Option.some.injEq]
      omega
    · intro index earlier sooner listed
      obtain ⟨_, rfl⟩ : index < outputs ∧ nodes.size - outputs + index = earlier := by
        simpa [List.getElem?_eq_some_iff] using listed
      simp [before (nodes.size - outputs + index) (by omega) (by omega)]

/-- When the outputs fit and the leading node is direct, compiling goes on with the operands, the
output slots and the rest, in this order. -/
theorem compile_opened {nodes : Program α} {outputs : Nat} (opens : Opens nodes outputs)
    (mode : Mode) : ∃ rest : Except Fault (Compiled α),
      compile nodes outputs mode = validate nodes >>= fun _ =>
        (List.range' (nodes.size - outputs) outputs).forM (fun index =>
          if isPresent nodes index then Except.ok ()
          else Except.error (Fault.absentOutput index)) >>= fun _ => rest := by
  obtain ⟨positive, enough, leading⟩ := opens
  have counted : ¬ (outputs = 0 ∨ nodes.size < outputs) := by omega
  have leads := (leading_direct_iff nodes).mpr leading
  simp only [compile, counted, leads, if_true, if_false]
  exact ⟨_, rfl⟩

/-- Whatever is wrong is found: a program for which one of the refusals holds does not compile, and
the fault is that one. -/
theorem Refuses.refused {nodes : Program α} {outputs : Nat} {fault : Fault}
    (refuses : Refuses nodes outputs fault) (mode : Mode) :
    compile nodes outputs mode = .error fault := by
  have invalid : ∀ {fault}, Opens nodes outputs → validate nodes = .error fault →
      compile nodes outputs mode = .error fault := by
    intro fault opens refused
    obtain ⟨rest, same⟩ := compile_opened opens mode
    rw [same, refused]
    rfl
  cases refuses with
  | outputCount misfit =>
    simp only [compile, misfit, if_true]
    rfl
  | leadingNode positive enough missing =>
    have counted : ¬ (outputs = 0 ∨ nodes.size < outputs) := by omega
    have leads := mt (leading_direct_iff nodes).mp missing
    simp only [compile, counted, leads, if_false]
    rfl
  | @forwardReference slot read opens arrives late =>
    exact invalid opens ((validate_refused_iff nodes _).mpr ⟨slot, read, arrives,
      (check_operand_refused_iff nodes slot read _).mpr (.inl ⟨late, rfl⟩)⟩)
  | @absentOperand slot read opens arrives earlier absent =>
    exact invalid opens ((validate_refused_iff nodes _).mpr ⟨slot, read, arrives,
      (check_operand_refused_iff nodes slot read _).mpr (.inr ⟨earlier, absent, rfl⟩)⟩)
  | @absentOutput slot opens valid above below absent before =>
    obtain ⟨rest, same⟩ := compile_opened opens mode
    rw [same, (validate_ok_iff nodes).mpr valid, Refusal.ok_bind,
      (outputs_refused_iff nodes outputs opens.enough _).mpr
        ⟨slot, above, below, absent, rfl, before⟩]
    rfl

/-- A program is refused exactly for the first thing that is wrong with it. Lowering has nothing to
refuse, because it only gets ready programs. -/
theorem compile_refused_iff (nodes : Program α) (outputs : Nat) (mode : Mode) (fault : Fault) :
    compile nodes outputs mode = .error fault ↔ Refuses nodes outputs fault := by
  refine ⟨fun refused => ?_, fun refuses => refuses.refused mode⟩
  -- The first refusal that holds is the one that is given, because both are what compiling answers.
  have given : ∀ {cause}, Refuses nodes outputs cause → Refuses nodes outputs fault := by
    intro cause refuses
    obtain rfl := Except.error.inj ((refuses.refused mode).symm.trans refused)
    exact refuses
  by_cases fits : outputs = 0 ∨ nodes.size < outputs
  · exact given (.outputCount fits)
  by_cases leading : ∃ node, node? nodes 0 = some node ∧ node.isDirect = true
  · have opens : Opens nodes outputs := ⟨by omega, by omega, leading⟩
    cases validated : validate nodes with
    | error cause =>
      obtain ⟨slot, read, arrives, checked⟩ := (validate_refused_iff nodes cause).mp validated
      rcases (check_operand_refused_iff nodes slot read cause).mp checked with
        ⟨late, rfl⟩ | ⟨earlier, absent, rfl⟩
      · exact given (.forwardReference opens arrives late)
      · exact given (.absentOperand opens arrives earlier absent)
    | ok _ =>
      have valid := (validate_ok_iff nodes).mp validated
      cases outputsChecked : (List.range' (nodes.size - outputs) outputs).forM (fun index =>
          if isPresent nodes index then Except.ok ()
          else Except.error (Fault.absentOutput index)) with
      | error cause =>
        obtain ⟨slot, above, below, absent, rfl, before⟩ :=
          (outputs_refused_iff nodes outputs opens.enough cause).mp outputsChecked
        exact given (.absentOutput opens valid above below absent before)
      | ok _ =>
        have present := (outputs_present_iff nodes outputs opens.enough).mp outputsChecked
        obtain ⟨program, compiled⟩ :=
          compile_of_ready ⟨opens.positive, opens.enough, leading, valid, present⟩ mode
        rw [compiled] at refused
        cases refused
  · exact given (.leadingNode (by omega) (by omega) leading)

/-- A program has a direct leading node exactly when its slot 0 holds a constant, an argument or
another name. -/
theorem leading_kinds_iff (nodes : Program α) :
    (∃ node, node? nodes 0 = some node ∧ node.isDirect = true) ↔
      (∃ value, node? nodes 0 = some (.constant value)) ∨
        (∃ parameter, node? nodes 0 = some (.argument parameter)) ∨
          ∃ target, node? nodes 0 = some (.move target) := by
  constructor
  · rintro ⟨node, held, direct⟩
    cases node with
    | constant value => exact .inl ⟨value, held⟩
    | argument parameter => exact .inr (.inl ⟨parameter, held⟩)
    | move target => exact .inr (.inr ⟨target, held⟩)
    | binary | conditional | guarded => cases direct
  · rintro (⟨value, held⟩ | ⟨parameter, held⟩ | ⟨target, held⟩)
    · exact ⟨_, held, rfl⟩
    · exact ⟨_, held, rfl⟩
    · exact ⟨_, held, rfl⟩

/-- Compiling succeeds exactly on well-formed programs: there are slots for the outputs, the leading
slot holds a constant, an argument or another name, every operand is present and earlier than its
reader, and the output slots are filled. Any other program is refused for the first of these points
that it violates, so that the number of outputs, the leading node, an operand or an output slot is
blamed and never the compiler itself. Neither verdict depends on how the program is to be checked
and instrumented. -/
theorem compilation_decided_by_shape (nodes : Program α) (outputs : Nat) (mode : Mode) :
    ((∃ program, compile nodes outputs mode = .ok program) ↔
      (1 ≤ outputs ∧ outputs ≤ nodes.size) ∧
      ((∃ value, node? nodes 0 = some (.constant value)) ∨
        (∃ parameter, node? nodes 0 = some (.argument parameter)) ∨
          ∃ target, node? nodes 0 = some (.move target)) ∧
      (∀ slot node, node? nodes slot = some node →
        ∀ read ∈ node.reads, read.toNat < slot ∧ isPresent nodes read.toNat = true) ∧
      ∀ slot, nodes.size - outputs ≤ slot → slot < nodes.size → isPresent nodes slot = true) ∧
    (∀ fault, compile nodes outputs mode = .error fault ↔ Refuses nodes outputs fault) ∧
    ∀ text, compile nodes outputs mode ≠ .error (.internal text) := by
  refine ⟨?_, compile_refused_iff nodes outputs mode, fun text refused => ?_⟩
  · rw [← leading_kinds_iff]
    constructor
    · rintro ⟨program, compiled⟩
      obtain ⟨ready, _⟩ := (compile_ok_iff nodes outputs mode program).mp compiled
      exact ⟨⟨ready.positive, ready.enough⟩, ready.leading, ready.valid, ready.present⟩
    · rintro ⟨⟨positive, enough⟩, leading, valid, present⟩
      exact compile_of_ready ⟨positive, enough, leading, valid, present⟩ mode
  · cases (compile_refused_iff nodes outputs mode _).mp refused

end ProgramSearch.Program
