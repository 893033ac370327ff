import ProgramSearch.Proofs.Program.Checking
import ProgramSearch.Proofs.Program.Inlining

/-!
# Executions with a listener

A caller may hand a listener to an execution. While the execution goes on, the listener is told that
the evaluation of a node begins and that a conditional has selected a side, and it changes a state
of its own. What the listener makes of this is not restricted. It cannot answer, so the execution
does what it does without one, and its last state is what it makes of the events one after another.

The events are those of the code: an evaluation begins at most as often as its node has a place
among the steps, and the reports are the traced ones.
-/

namespace ProgramSearch

/-- What a listener is told: the evaluation of the node in a slot begins, or a conditional reports
the side that it selects. -/
inductive Event where
  | begun (slot : Nat)
  | reported (report : Report)
deriving DecidableEq, Repr

namespace Event

/-- The slot whose evaluation begins. -/
def begun? : Event → Option Nat
  | begun slot => some slot
  | reported _ => none

/-- The report that is made. -/
def report? : Event → Option Report
  | begun _ => none
  | reported report => some report

/-- The slots whose evaluation begins, one after another. -/
def slots (events : List Event) : List Nat := events.filterMap begun?

/-- The reports that are made, one after another. -/
def reports (events : List Event) : List Report := events.filterMap report?

end Event

/-- An execution that tells a listener of every event when it happens. The listener is given by its
state and by how an event changes it. -/
def Narration (β : Type) : Type 1 := (σ : Type) → (σ → Event → σ) → EStateM Halt σ β

namespace Narration

variable {β : Type}

instance : Monad Narration where
  pure value _ _ := pure value
  bind first next σ hear := first σ hear >>= fun value => next value σ hear

/-- Tell the listener of an event. -/
def tell (event : Event) : Narration Unit := fun _ hear state => .ok () (hear state event)

/-- Go on or stop without any event. -/
def ofResult : Except Halt β → Narration β
  | .ok value => pure value
  | .error halt => fun _ _ state => .error halt state

/-- A sequence goes on from the state in which its first part leaves the listener. -/
theorem bind_ended {γ σ : Type} {told : Narration β} {hear : σ → Event → σ} {start final : σ}
    {value : β} (ended : told σ hear start = .ok value final) (next : β → Narration γ) :
    (told >>= next) σ hear start = next value σ hear final := by
  change EStateM.bind (told σ hear) (fun value => next value σ hear) start = _
  rw [EStateM.bind, ended]

/-- A sequence stops where its first part does. -/
theorem bind_stopped {γ σ : Type} {told : Narration β} {hear : σ → Event → σ} {start final : σ}
    {halt : Halt} (stopped : told σ hear start = .error halt final) (next : β → Narration γ) :
    (told >>= next) σ hear start = .error halt final := by
  change EStateM.bind (told σ hear) (fun value => next value σ hear) start = _
  rw [EStateM.bind, stopped]

/-- The outcome of an execution together with the last state of its listener. -/
def outcome {σ : Type} (result : Except Halt β) (state : σ) : EStateM.Result Halt σ β :=
  match result with
  | .ok value => .ok value state
  | .error halt => .error halt state

end Narration

variable {α : Type} [Number α]

namespace Expression

/-- Tell of the selection of the conditional in a slot when it is instrumented. -/
def tellIf (slot : Nat) (profile : Option Nat) (taken : Bool) : Narration Unit :=
  match profile with
  | some block => Narration.tell (.reported ⟨⟨block, UInt16.ofNat slot⟩, taken⟩)
  | none => pure ()

/-- Evaluate in a frame and tell of it. -/
def narrate (frame : Frame α) : Expression α → Narration α
  | value leaf => Narration.ofResult (leaf.read frame)
  | binary slot checked op lhs rhs => do
    Narration.tell (.begun slot)
    let x ← lhs.narrate frame
    let y ← rhs.narrate frame
    Narration.ofResult (operate slot checked op x y).result
  | conditional slot profile x y cond => do
    Narration.tell (.begun slot)
    let z ← cond.narrate frame
    tellIf slot profile (Number.positive z)
    if Number.positive z then x.narrate frame else y.narrate frame
  | guarded slot taken branch cond => do
    Narration.tell (.begun slot)
    let z ← cond.narrate frame
    if Number.positive z == taken then branch.narrate frame
    else Narration.ofResult (.error (.signal .bailout))

end Expression

namespace Compiled

/-- Fill the temporaries from left to right and tell of it. -/
def narrateFill (inputs : Array α) : List (Expression α) → Array α → Narration (Array α)
  | [], temporaries => pure temporaries
  | step :: rest, temporaries => do
    let value ← step.narrate ⟨inputs, temporaries⟩
    narrateFill inputs rest (temporaries.push value)

/-- Run the program on the buffer of a caller with a listener in a given state. The listener keeps
the state that it has reached when the execution stops. -/
def invoke (program : Compiled α) (inputs buffer : Array α) {σ : Type} (hear : σ → Event → σ)
    (start : σ) : (Except Halt Unit × Array α) × σ :=
  match narrateFill inputs program.steps #[] σ hear start with
  | .error halt final => ((.error halt, buffer), final)
  | .ok temporaries final => (store ⟨inputs, temporaries⟩ program.outputs 0 buffer, final)

end Compiled

/-- The account of a narration that does the same as a traced execution: its events do not depend on
the listener, the reports among them are the traced ones, and an evaluation begins, and a conditional
reports, at most as often as the listed slots say. -/
structure Account {β : Type} (told : Narration β) (traced : Traced β) (slots choices : List Nat)
    (events : List Event) : Prop where
  heard : ∀ (σ : Type) (hear : σ → Event → σ) (start : σ),
    told σ hear start = Narration.outcome traced.result (events.foldl hear start)
  reports : Event.reports events = traced.reports
  begun : ∀ slot, (Event.slots events).count slot ≤ slots.count slot
  chosen : ∀ node : UInt16, (traced.reports.map (·.branch.node)).count node ≤
    (choices.map UInt16.ofNat).count node

/-- A narration that has an account. -/
def Accounted {β : Type} (told : Narration β) (traced : Traced β) (slots choices : List Nat) :
    Prop :=
  ∃ events, Account told traced slots choices events

namespace Accounted

variable {β γ : Type} {told : Narration β} {traced : Traced β} {slots choices : List Nat}

/-- Going on or stopping without any event has nothing to account for. -/
theorem silent (result : Except Halt β) :
    Accounted (Narration.ofResult result) (Traced.ofResult result) [] [] := by
  refine ⟨[], ?_, rfl, fun slot => Nat.le_refl 0, fun node => Nat.le_refl 0⟩
  intro σ hear start
  cases result <;> rfl

/-- More slots may be listed than are met. -/
theorem weaken (accounted : Accounted told traced slots choices) {more others : List Nat}
    (within : ∀ slot, slots.count slot ≤ more.count slot)
    (chosen : ∀ node : UInt16,
      (choices.map UInt16.ofNat).count node ≤ (others.map UInt16.ofNat).count node) :
    Accounted told traced more others := by
  obtain ⟨events, account⟩ := accounted
  exact ⟨events, account.heard, account.reports,
    fun slot => Nat.le_trans (account.begun slot) (within slot),
    fun node => Nat.le_trans (account.chosen node) (chosen node)⟩

/-- The events of a sequence are those of its first part and, if that comes to an end, those of the
second part after them. -/
theorem bind {next : β → Narration γ} {rest : β → Traced γ} {more others : List Nat}
    (started : Accounted told traced slots choices)
    (continued : ∀ value, Accounted (next value) (rest value) more others) :
    Accounted (told >>= next) (traced >>= rest) (slots ++ more) (choices ++ others) := by
  obtain ⟨early, account⟩ := started
  obtain ⟨reports, result⟩ := traced
  cases result with
  | error halt =>
    refine ⟨early, fun σ hear start => Narration.bind_stopped (account.heard σ hear start) next,
      account.reports, fun slot => ?_, fun node => ?_⟩
    · rw [List.count_append]
      exact Nat.le_add_right_of_le (account.begun slot)
    · rw [List.map_append, List.count_append]
      exact Nat.le_add_right_of_le (account.chosen node)
  | ok value =>
    obtain ⟨late, goesOn⟩ := continued value
    refine ⟨early ++ late, fun σ hear start => ?_, ?_, fun slot => ?_, fun node => ?_⟩
    · rw [Narration.bind_ended (account.heard σ hear start), List.foldl_append]
      exact goesOn.heard σ hear _
    · rw [Event.reports, List.filterMap_append]
      change Event.reports early ++ Event.reports late = _
      rw [account.reports, goesOn.reports]
      rfl
    · rw [Event.slots, List.filterMap_append, List.count_append, List.count_append]
      exact Nat.add_le_add (account.begun slot) (goesOn.begun slot)
    · change ((reports ++ (rest value).reports).map _).count node ≤ _
      rw [List.map_append, List.map_append, List.count_append, List.count_append]
      exact Nat.add_le_add (account.chosen node) (goesOn.chosen node)

/-- An evaluation that begins is one event more. -/
theorem begin_first (accounted : Accounted told traced slots choices) (slot : Nat) :
    Accounted (Narration.tell (.begun slot) >>= fun _ => told) traced (slot :: slots) choices := by
  obtain ⟨events, account⟩ := accounted
  refine ⟨.begun slot :: events, fun σ hear start => account.heard σ hear _, account.reports,
    fun other => ?_, account.chosen⟩
  have before := account.begun other
  simp only [Event.slots, List.filterMap_cons, Event.begun?, List.count_cons] at before ⊢
  omega

/-- A conditional tells of its selection when it reports it, and otherwise of nothing. -/
theorem selection (slot : Nat) (profile : Option Nat) (taken : Bool) :
    Accounted (Expression.tellIf slot profile taken) (Expression.reportIf slot profile taken) []
      [slot] := by
  cases profile with
  | none => exact weaken (silent (.ok ())) (fun _ => Nat.le_refl _) fun _ => Nat.zero_le _
  | some block =>
    exact ⟨[.reported ⟨⟨block, UInt16.ofNat slot⟩, taken⟩], fun σ hear start => rfl, rfl,
      fun _ => Nat.le_refl 0, fun _ => Nat.le_refl _⟩

end Accounted

/-- Evaluating an expression begins with each of its nodes at most once.

The induction follows the expression. Of a conditional only one side is evaluated, and what begins
there is among what may begin on both. -/
theorem Expression.narrated (frame : Frame α) (expression : Expression α) :
    Accounted (expression.narrate frame) (expression.evaluate frame) expression.slots
      expression.choices := by
  induction expression with
  | value leaf => exact .silent _
  | binary slot checked op lhs rhs left right =>
    have operated : ∀ x y : α, Accounted (Narration.ofResult (operate slot checked op x y).result)
        (operate slot checked op x y) [] [] := by
      intro x y
      have silent : operate slot checked op x y =
          Traced.ofResult (operate slot checked op x y).result := by
        unfold operate
        split <;> rfl
      rw [silent]
      exact .silent _
    have operands := left.bind fun x => right.bind fun y => operated x y
    simp only [List.append_nil] at operands
    exact operands.begin_first slot
  | conditional slot profile x y cond onPositive onOther decided =>
    -- Only one side is evaluated, but both may be: the choice leaves room for either.
    have sides : ∀ z : α, Accounted
        (if Number.positive z then x.narrate frame else y.narrate frame)
        ((if Number.positive z then x else y).evaluate frame) (x.slots ++ y.slots)
        (x.choices ++ y.choices) := by
      intro z
      split
      · exact onPositive.weaken (fun _ => by simp) fun _ => by simp
      · exact onOther.weaken (fun _ => by simp) fun _ => by simp
    rw [evaluate_conditional]
    exact (decided.bind fun z =>
      (Accounted.selection slot profile (Number.positive z)).bind fun _ => sides z).begin_first slot
  | guarded slot taken branch cond continued decided =>
    have goesOn : ∀ z : α, Accounted
        (if Number.positive z == taken then branch.narrate frame
          else Narration.ofResult (.error (.signal .bailout)))
        (if Number.positive z == taken then branch.evaluate frame else Traced.signal .bailout)
        branch.slots branch.choices := by
      intro z
      split
      · exact continued
      · exact (Accounted.silent _).weaken (fun _ => Nat.zero_le _) fun _ => Nat.zero_le _
    exact (decided.bind goesOn).begin_first slot

namespace Compiled

/-- Filling temporaries begins with each node of the steps at most once. -/
theorem fill_narrated (inputs : Array α) (steps : List (Expression α)) (temporaries : Array α) :
    Accounted (narrateFill inputs steps temporaries) (fill inputs steps temporaries)
      (steps.flatMap Expression.slots) (steps.flatMap Expression.choices) := by
  induction steps generalizing temporaries with
  | nil => exact .silent (.ok temporaries)
  | cons step rest inductionHypothesis =>
    exact (step.narrated _).bind fun value => inductionHypothesis _

/-- All reports of a run are made while the temporaries are filled. -/
theorem run_reports (program : Compiled α) (inputs buffer : Array α) :
    (program.run inputs buffer).reports = (fill inputs program.steps #[]).reports := by
  change (Traced.andThen (fill inputs program.steps #[]) _).reports = _
  unfold Traced.andThen
  split
  · rfl
  · rename_i temporaries _
    change _ ++ (Traced.andThen (Traced.ofResult (readAll ⟨inputs, temporaries⟩
      (program.outputs.take buffer.size))) _).reports = _
    cases readAll ⟨inputs, temporaries⟩ (program.outputs.take buffer.size) <;>
      exact List.append_nil _

/-- Whoever listens, a program does on the buffer of its caller what it does without a listener. The
listener is told of the same events, and the reports among them are those of the run. -/
theorem invocation_narrated (program : Compiled α) (inputs buffer : Array α) :
    ∃ events : List Event,
      (∀ (σ : Type) (hear : σ → Event → σ) (start : σ),
        program.invoke inputs buffer hear start =
          (program.call inputs buffer, events.foldl hear start)) ∧
      Event.reports events = (program.run inputs buffer).reports ∧
      (∀ slot, (Event.slots events).count slot ≤
        (program.steps.flatMap Expression.slots).count slot) ∧
      ∀ node : UInt16, ((program.run inputs buffer).reports.map (·.branch.node)).count node ≤
        ((program.steps.flatMap Expression.choices).map UInt16.ofNat).count node := by
  obtain ⟨events, account⟩ := fill_narrated inputs program.steps #[]
  rw [run_reports]
  refine ⟨events, fun σ hear start => ?_, account.reports, account.begun, account.chosen⟩
  rw [invoke, account.heard, call]
  cases (fill inputs program.steps #[]).result <;> rfl

end Compiled

end ProgramSearch
