/-!
# Requests that can be refused

Checks and compilers answer with a result or with the fault that refuses the request. The laws
here say what an accepted request establishes: every part of it was accepted, in turn. They
hold of any kind of fault.
-/

namespace ProgramSearch.Refusal

variable {ε β γ : Type}

/-- A request in two parts is accepted exactly when the first part is and then the second. -/
theorem bind_ok_iff (first : Except ε β) (next : β → Except ε γ) (result : γ) :
    first >>= next = .ok result ↔ ∃ value, first = .ok value ∧ next value = .ok result := by
  cases first <;> simp [bind, Except.bind]

/-- A request that starts with a check is accepted exactly when the check passes and the rest is
accepted. -/
theorem check_ok_iff (check : Except ε Unit) (next : Except ε γ) (result : γ) :
    (check >>= fun _ => next) = .ok result ↔ check = .ok () ∧ next = .ok result := by
  cases check <;> simp [bind, Except.bind]

/-- A request that is refused under a condition is accepted exactly when the condition does not hold
and the rest is accepted. -/
theorem refuse_ok_iff {condition : Prop} [Decidable condition] (cause : ε)
    (next : Unit → Except ε γ) (result : γ) :
    (if condition then throw cause >>= next else next ()) = .ok result ↔
      ¬ condition ∧ next () = .ok result := by
  by_cases holds : condition
  · simp [holds, throw, throwThe, MonadExceptOf.throw, bind, Except.bind]
  · simp [holds]

theorem ok_bind (value : β) (next : β → Except ε γ) :
    (Except.ok value : Except ε β) >>= next = next value := rfl

/-- A result that is changed afterwards was accepted before. -/
theorem map_ok_iff (first : Except ε β) (change : β → γ) (result : γ) :
    first.map change = .ok result ↔ ∃ value, first = .ok value ∧ change value = result := by
  cases first <;> simp [Except.map]

/-- A list of checks passes exactly when every single check does. -/
theorem forM_ok_iff (check : β → Except ε Unit) (items : List β) :
    items.forM check = .ok () ↔ ∀ item ∈ items, check item = .ok () := by
  induction items with
  | nil => simp [pure, Except.pure]
  | cons item rest inductionHypothesis =>
    change check item >>= (fun _ => rest.forM check) = .ok () ↔ _
    rw [bind_ok_iff]
    simp only [inductionHypothesis, List.mem_cons, forall_eq_or_imp]
    constructor
    · rintro ⟨⟨⟩, passed, remaining⟩
      exact ⟨passed, remaining⟩
    · rintro ⟨passed, remaining⟩
      exact ⟨(), passed, remaining⟩

/-- A request in two parts is refused by its first part or, when that is accepted, by the second. -/
theorem bind_refused_iff (first : Except ε β) (next : β → Except ε γ) (cause : ε) :
    first >>= next = .error cause ↔
      first = .error cause ∨ ∃ value, first = .ok value ∧ next value = .error cause := by
  cases first <;> simp [bind, Except.bind]

/-- A list of checks refuses for the reason of the first item that does not pass. -/
theorem forM_refused_iff (check : β → Except ε Unit) (items : List β) (cause : ε) :
    items.forM check = .error cause ↔ ∃ (index : Nat) (item : β), items[index]? = some item ∧
      check item = .error cause ∧
        ∀ (earlier : Nat) (other : β), earlier < index → items[earlier]? = some other →
          check other = .ok () := by
  induction items with
  | nil => simp [pure, Except.pure]
  | cons item rest inductionHypothesis =>
    change check item >>= (fun _ => rest.forM check) = .error cause ↔ _
    rw [bind_refused_iff]
    constructor
    · rintro (refused | ⟨⟨⟩, passed, others⟩)
      · exact ⟨0, item, rfl, refused, fun earlier other sooner _ => by omega⟩
      · obtain ⟨index, found, listed, refused, before⟩ := inductionHypothesis.mp others
        refine ⟨index + 1, found, listed, refused, ?_⟩
        rintro (_ | earlier) other sooner given
        · exact Option.some.inj given ▸ passed
        · exact before earlier other (by omega) given
    · rintro ⟨index, found, listed, refused, before⟩
      cases index with
      | zero => exact .inl (Option.some.inj listed ▸ refused)
      | succ index =>
        refine .inr ⟨(), before 0 item (by omega) rfl, inductionHypothesis.mpr ?_⟩
        exact ⟨index, found, listed, refused, fun earlier other sooner given =>
          before (earlier + 1) other (by omega) given⟩

/-- An optional part is accepted when it is missing, and otherwise exactly when it is accepted
by itself. -/
theorem mapM_ok_iff (request : β → Except ε γ) (part : Option β) (result : Option γ) :
    part.mapM request = .ok result ↔
      match part with
      | none => result = none
      | some given => ∃ value, request given = .ok value ∧ result = some value := by
  cases part with
  | none => simp [pure, Except.pure, eq_comm]
  | some given =>
    change request given >>= (fun value => pure (some value)) = .ok result ↔ _
    rw [bind_ok_iff]
    simp [pure, Except.pure, eq_comm]

end ProgramSearch.Refusal
