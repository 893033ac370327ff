import ProgramSearch.Random.Draw

/-!
# What a request ensures

A request takes random words and may fail. It ensures a property when it holds of every result,
whatever the words are, and when the request only fails for reasons that are allowed. If no reason
is allowed, then the request always has a result.

A uniform draw ensures that its result lies in the range, unless that is empty.
-/

namespace ProgramSearch.Draw

/-- On every stream, the request has a result as promised or fails for an allowed reason. -/
def Ensures {β : Type} (allowed : Failure → Prop) (promised : β → Prop) (request : Draw β) :
    Prop :=
  ∀ stream, match request stream with
    | .ok value _ => promised value
    | .error failure _ => allowed failure

section Rules

variable {β γ : Type} {allowed : Failure → Prop} {promised final : β → Prop}
  {request : Draw β}

theorem ensures_pure {value : β} (holds : promised value) :
    Ensures allowed promised (pure value) := by
  intro stream
  exact holds

/-- Breaking off for an allowed reason is no harm. -/
theorem ensures_throw {failure : Failure} (permitted : allowed failure) :
    Ensures allowed promised (throw failure : Draw β) := by
  intro stream
  exact permitted

/-- A request in two parts goes on with the result of the first one. -/
theorem bind_drawn {stream rest : Stream} {value : β} (drawn : request stream = .ok value rest)
    (next : β → Draw γ) : (request >>= next) stream = next value rest := by
  change EStateM.bind request next stream = _
  rw [EStateM.bind, drawn]

/-- A request in two parts fails where the first one does. -/
theorem bind_failed {stream rest : Stream} {failure : Failure}
    (failed : request stream = .error failure rest) (next : β → Draw γ) :
    (request >>= next) stream = .error failure rest := by
  change EStateM.bind request next stream = _
  rw [EStateM.bind, failed]

/-- A request in two parts has a result where its second part has one after a result of the first
one. -/
theorem bind_drawn_iff {stream rest : Stream} {result : γ} (next : β → Draw γ) :
    (request >>= next) stream = .ok result rest ↔
      ∃ value later, request stream = .ok value later ∧ next value later = .ok result rest := by
  constructor
  · intro ended
    cases drawn : request stream with
    | ok value later =>
      rw [bind_drawn drawn] at ended
      exact ⟨value, later, rfl, ended⟩
    | error failure later =>
      rw [bind_failed drawn] at ended
      cases ended
  · rintro ⟨value, later, drawn, ended⟩
    rw [bind_drawn drawn, ended]

/-- A request in two parts ensures what the second part ensures of every result that the first one
may have. -/
theorem Ensures.bind {next : β → Draw γ} {reached : γ → Prop}
    (first : Ensures allowed promised request)
    (rest : ∀ value, promised value → Ensures allowed reached (next value)) :
    Ensures allowed reached (request >>= next) := by
  intro stream
  have started := first stream
  cases drawn : request stream with
  | ok value later =>
    rw [drawn] at started
    rw [bind_drawn drawn]
    exact rest value started later
  | error failure later =>
    rw [drawn] at started
    rw [bind_failed drawn]
    exact started

/-- What follows from the promise is ensured as well. -/
theorem Ensures.weaken (ensures : Ensures allowed promised request)
    (weaker : ∀ value, promised value → final value) : Ensures allowed final request := by
  intro stream
  have holds := ensures stream
  cases drawn : request stream with
  | ok value _ =>
    rw [drawn] at holds
    exact weaker value holds
  | error failure _ =>
    rw [drawn] at holds
    exact holds

/-- A request may be allowed to fail for more reasons. -/
theorem Ensures.permit {wider : Failure → Prop} (ensures : Ensures allowed promised request)
    (permits : ∀ failure, allowed failure → wider failure) : Ensures wider promised request := by
  intro stream
  have holds := ensures stream
  cases drawn : request stream with
  | ok value _ =>
    rw [drawn] at holds
    exact holds
  | error failure _ =>
    rw [drawn] at holds
    exact permits failure holds

/-- If nothing is promised and any failure is allowed, nothing is asked of a request. -/
theorem ensures_any (request : Draw β) : Ensures (fun _ => True) (fun _ => True) request := by
  intro stream
  cases request stream <;> exact trivial

/-- A result is as promised, whatever failures are allowed. -/
theorem Ensures.drawn (ensures : Ensures allowed promised request)
    {stream rest : Stream} {value : β} (drawn : request stream = .ok value rest) :
    promised value := by
  have holds := ensures stream
  rw [drawn] at holds
  exact holds

/-- A result of a request that is allowed no failure is as promised. -/
theorem Ensures.result (ensures : Ensures (fun _ => False) promised request)
    {stream rest : Stream} {value : β} (drawn : request stream = .ok value rest) :
    promised value :=
  ensures.drawn drawn

/-- A request that is allowed no failure always has a result. -/
theorem Ensures.total (ensures : Ensures (fun _ => False) promised request) (stream : Stream) :
    ∃ value rest, request stream = .ok value rest ∧ promised value := by
  have holds := ensures stream
  cases drawn : request stream with
  | ok value rest =>
    rw [drawn] at holds
    exact ⟨value, rest, rfl, holds⟩
  | error failure rest =>
    rw [drawn] at holds
    exact holds.elim

/-- A request ensures that its result is one that it draws. -/
theorem ensures_drawn (request : Draw β) :
    Ensures (fun _ => True) (fun value => ∃ stream rest, request stream = .ok value rest)
      request := by
  intro stream
  cases drawn : request stream with
  | ok value rest => exact ⟨stream, rest, drawn⟩
  | error failure rest => trivial

/-- Whether a result is drawn that passes a test. -/
def isDrawn (request : Draw β) (stream : Stream) (test : β → Bool) : Bool :=
  match request stream with
  | .ok value _ => test value
  | .error .. => false

/-- The failure with which a request breaks off on a stream, if it does. -/
def failure? (request : Draw β) (stream : Stream) : Option Failure :=
  match request stream with
  | .ok .. => none
  | .error failure _ => some failure

/-- A result that is drawn and passes a test exists. -/
theorem drawn_of_test {stream : Stream} {test : β → Bool}
    (passes : isDrawn request stream test = true) :
    ∃ value rest, request stream = .ok value rest ∧ test value = true := by
  unfold isDrawn at passes
  cases drawn : request stream with
  | ok value rest =>
    rw [drawn] at passes
    exact ⟨value, rest, rfl, passes⟩
  | error failure rest =>
    rw [drawn] at passes
    cases passes

/-- A result that is drawn is the one that is tested. -/
theorem test_of_drawn {stream rest : Stream} {test : β → Bool} {value : β}
    (passes : isDrawn request stream test = true) (drawn : request stream = .ok value rest) :
    test value = true := by
  rwa [isDrawn, drawn] at passes

/-- An answer that is known without words is drawn at once. -/
theorem ensures_of_except {answer : Except Fault β} {value : β} (known : answer = .ok value)
    (holds : promised value) : Ensures allowed promised (ofExcept answer) := by
  subst known
  exact ensures_pure holds

/-- What is drawn from an answer is the answer, or fails for the reason for which that is refused. -/
theorem answer_ensures {answer : Except Fault β}
    (refused : ∀ cause, answer = .error cause → allowed (.fault cause)) :
    Ensures allowed (answer = .ok ·) (ofExcept answer) := by
  cases answer with
  | ok value => exact ensures_pure rfl
  | error cause => exact ensures_throw (refused cause rfl)

/-- What is drawn from an answer is the answer, whatever it may be refused for. -/
theorem of_except_ensures (answer : Except Fault β) :
    Ensures (fun _ => True) (answer = .ok ·) (ofExcept answer) :=
  answer_ensures fun _ _ => trivial

/-- A result that is drawn from an answer is the answer, and takes no words. -/
theorem of_except_drawn {answer : Except Fault β} {stream rest : Stream} {value : β}
    (drawn : ofExcept answer stream = .ok value rest) : answer = .ok value ∧ stream = rest := by
  cases answer with
  | ok known =>
    cases drawn
    exact ⟨rfl, rfl⟩
  | error cause => cases drawn

end Rules

section Ranges

variable {allowed : Failure → Prop}

/-- A single word is below its number of values. -/
theorem word_ensures : Ensures allowed (· < 2 ^ 32) wordNat :=
  fun stream => UInt32.toNat_lt stream.next.1

/-- A double word is below its number of values. -/
theorem wide_ensures : Ensures allowed (· < 2 ^ 64) wideNat :=
  fun stream => UInt64.toNat_lt stream.nextWide.1

/-- The upper half of the product of a word and the size of a range lies in the range. -/
theorem scaled_word {bits word size : Nat} (positive : 0 < size) (inside : word < 2 ^ bits) :
    word * size / 2 ^ bits < size := by
  apply Nat.div_lt_of_lt_mul
  exact Nat.mul_lt_mul_of_pos_right inside positive

/-- However many words are thrown away, the result lies in the range. -/
theorem scaled_ensures {bits size : Nat} {take : Draw Nat} (limit fuel : Nat) (positive : 0 < size)
    (words : Ensures allowed (· < 2 ^ bits) take) :
    Ensures allowed (· < size) (scaled bits take size limit fuel) := by
  induction fuel with
  | zero => exact words.bind fun word inside => ensures_pure (scaled_word positive inside)
  | succ fuel inductionHypothesis =>
    apply words.bind
    intro word inside
    dsimp only
    split
    · exact ensures_pure (scaled_word positive inside)
    · exact inductionHypothesis

/-- A draw from a range that is not empty lies in it. -/
theorem below_wide_ensures {size : Nat} (positive : 0 < size) :
    Ensures allowed (· < size) (belowWide size) := by
  rw [belowWide, if_neg (Nat.ne_of_gt positive)]
  exact scaled_ensures _ _ positive wide_ensures

/-- A draw from a range that is not empty lies in it. -/
theorem below_shifted_ensures {size : Nat} (positive : 0 < size) :
    Ensures allowed (· < size) (belowShifted size) := by
  rw [belowShifted, if_neg (Nat.ne_of_gt positive)]
  exact scaled_ensures _ _ positive word_ensures

/-- A draw from a range that is not empty lies in it. -/
theorem below_multiple_ensures {size : Nat} (positive : 0 < size) :
    Ensures allowed (· < size) (belowMultiple size) := by
  rw [belowMultiple, if_neg (Nat.ne_of_gt positive)]
  exact scaled_ensures _ _ positive word_ensures

/-- The position that a choice falls on is one of the list, if there is any. -/
theorem position_inside (choice before : UInt32) (weights : List UInt32)
    (filled : weights ≠ []) : weighted.position choice before weights < weights.length := by
  induction weights generalizing before with
  | nil => exact absurd rfl filled
  | cons weight rest inductionHypothesis =>
    cases rest with
    | nil => exact Nat.one_pos
    | cons second others =>
      simp only [weighted.position]
      split
      · exact Nat.succ_pos _
      · exact Nat.succ_lt_succ (inductionHypothesis _ (List.cons_ne_nil _ _))

/-- If the weights do not add up to zero, a position of the list is drawn. -/
theorem weighted_ensures {weights : List UInt32} (positive : total weights ≠ 0) :
    Ensures allowed (· < weights.length) (weighted weights) := by
  have filled : weights ≠ [] := by
    rintro rfl
    exact positive rfl
  have some : (total weights).toNat ≠ 0 := fun none => positive (UInt32.toNat_inj.mp none)
  apply (below_multiple_ensures (Nat.pos_of_ne_zero some)).bind
  intro choice _
  exact ensures_pure (position_inside _ _ weights filled)

/-- An event whose probability is between zero and one can be drawn. -/
theorem chance_ensures {probability : Float}
    (proper : (0.0 ≤ probability && probability ≤ 1.0) = true) :
    Ensures allowed (fun _ => True) (chance probability) := by
  by_cases certain : (probability == 1.0) = true
  · rw [chance, if_pos certain]
    exact ensures_pure trivial
  · rw [chance, if_neg certain, if_pos proper]
    exact wide_ensures.bind fun word _ => ensures_pure trivial

end Ranges

end ProgramSearch.Draw
