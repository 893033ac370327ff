import ProgramSearch.Proofs.Random.Draw

/-!
# Requests that agree

Two requests agree when on every stream they take the same words and either fail for the same
reason or have results that are related. Sequences of requests that agree do so as well: what
follows finds the same words on both sides.

Requests that agree in equal results are equal.
-/

namespace ProgramSearch.Draw

/-- Two outcomes leave the same words, and they are failures for the same reason or results that are
related. -/
inductive Matches {β γ : Type} (related : β → γ → Prop) :
    EStateM.Result Failure Stream β → EStateM.Result Failure Stream γ → Prop where
  | drawn {value : β} {other : γ} (rest : Stream) :
      related value other → Matches related (.ok value rest) (.ok other rest)
  | failed (failure : Failure) (rest : Stream) :
      Matches related (.error failure rest) (.error failure rest)

/-- On every stream, two requests have outcomes that match. -/
def Alike {β γ : Type} (related : β → γ → Prop) (request : Draw β) (other : Draw γ) : Prop :=
  ∀ stream, Matches related (request stream) (other stream)

/-- The same value on both sides, and it is as promised. -/
def Shared {β : Type} (promised : β → Prop) (value other : β) : Prop :=
  value = other ∧ promised value

section Rules

variable {β γ δ ε : Type} {related : β → γ → Prop} {request : Draw β} {other : Draw γ}

theorem alike_pure {value : β} {counterpart : γ} (holds : related value counterpart) :
    Alike related (pure value) (pure counterpart) := by
  intro stream
  exact .drawn stream holds

/-- Requests that break off for the same reason agree. -/
theorem alike_throw (failure : Failure) :
    Alike related (throw failure : Draw β) (throw failure : Draw γ) := by
  intro stream
  exact .failed failure stream

/-- Requests in two parts agree when the first parts do, and the second parts do after all results
that the first ones may have. -/
theorem Alike.bind {reached : δ → ε → Prop} {next : β → Draw δ} {following : γ → Draw ε}
    (first : Alike related request other)
    (rest : ∀ value counterpart, related value counterpart →
      Alike reached (next value) (following counterpart)) :
    Alike reached (request >>= next) (other >>= following) := by
  intro stream
  have started := first stream
  change Matches reached (EStateM.bind request next stream) (EStateM.bind other following stream)
  unfold EStateM.bind
  generalize request stream = outcome at started ⊢
  generalize other stream = counterpart at started ⊢
  cases started with
  | drawn stream holds => exact rest _ _ holds stream
  | failed failure stream => exact .failed failure stream

/-- A weaker relation may be asked for. -/
theorem Alike.weaken {final : β → γ → Prop} (alike : Alike related request other)
    (weaker : ∀ value counterpart, related value counterpart → final value counterpart) :
    Alike final request other := by
  intro stream
  have matched := alike stream
  generalize request stream = outcome at matched ⊢
  generalize other stream = counterpart at matched ⊢
  cases matched with
  | drawn rest holds => exact .drawn rest (weaker _ _ holds)
  | failed failure rest => exact .failed failure rest

variable {allowed : Failure → Prop} {promised : β → Prop}

/-- A request agrees with itself in what it ensures. -/
theorem Ensures.shared (ensures : Ensures allowed promised request) :
    Alike (Shared promised) request request := by
  intro stream
  have holds := ensures stream
  generalize request stream = outcome at holds ⊢
  cases outcome with
  | ok value rest => exact .drawn rest ⟨rfl, holds⟩
  | error failure rest => exact .failed failure rest

/-- After the same request, what follows agrees if it does after every result that the request may
have. -/
theorem Ensures.then_alike {reached : δ → ε → Prop} {next : β → Draw δ} {following : β → Draw ε}
    (ensures : Ensures allowed promised request)
    (rest : ∀ value, promised value → Alike reached (next value) (following value)) :
    Alike reached (request >>= next) (request >>= following) := by
  apply ensures.shared.bind
  rintro value _ ⟨rfl, holds⟩
  exact rest value holds

variable {counterpart : Draw β}

/-- Requests that agree in equal results are equal. -/
theorem Alike.same (alike : Alike (Shared promised) request counterpart) :
    request = counterpart := by
  funext stream
  have matched := alike stream
  generalize request stream = outcome at matched ⊢
  generalize counterpart stream = second at matched ⊢
  cases matched with
  | drawn rest shared => rw [shared.1]
  | failed failure rest => rfl

/-- What requests agree in is ensured. -/
theorem Alike.ensures (alike : Alike (Shared promised) request counterpart) :
    Ensures (fun _ => True) promised request := by
  intro stream
  have matched := alike stream
  generalize request stream = outcome at matched ⊢
  generalize counterpart stream = second at matched
  cases matched with
  | drawn rest shared => exact shared.2
  | failed failure rest => exact trivial

end Rules

end ProgramSearch.Draw
