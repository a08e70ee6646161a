import Trellis.Compile

/-!
# Outcomes and calls of work that asks a tokenizer

Work is known by two things: how it ends and which calls it makes on the way.  Both pass through a
sequence of two pieces of work; the calls of the second are made only when the first succeeds.
-/

namespace Trellis.Asking

variable {ε ε' α β : Type}

/-- How the work ends. -/
def outcome (x : Asking ε α) : Except ε α := x.run.value

/-- The calls that the work makes, in order. -/
def calls (x : Asking ε α) : List Call := x.run.calls

@[simp] theorem outcome_pure (a : α) : outcome (pure a : Asking ε α) = .ok a := rfl

@[simp] theorem calls_pure (a : α) : calls (pure a : Asking ε α) = [] := rfl

@[simp] theorem outcome_throw (e : ε) : outcome (throw e : Asking ε α) = .error e := rfl

@[simp] theorem calls_throw (e : ε) : calls (throw e : Asking ε α) = [] := rfl

@[simp] theorem outcome_ofExcept (o : Except ε α) : outcome (ofExcept o) = o := rfl

@[simp] theorem calls_ofExcept (o : Except ε α) : calls (ofExcept o) = [] := rfl

@[simp] theorem outcome_ofCall (context : ρ → ε) (call : Metered (Except ρ α)) :
    outcome (ofCall context call) = call.value.mapError context := rfl

@[simp] theorem calls_ofCall (context : ρ → ε) (call : Metered (Except ρ α)) :
    calls (ofCall context call) = call.calls := List.append_nil _

@[simp] theorem mapError_ok (f : ε → ε') (a : α) :
    (Except.ok a : Except ε α).mapError f = .ok a := rfl

@[simp] theorem mapError_error (f : ε → ε') (e : ε) :
    (Except.error e : Except ε α).mapError f = .error (f e) := rfl

@[simp] theorem outcome_adapt (f : ε → ε') (x : Asking ε α) :
    outcome (x.adapt f) = (outcome x).mapError f := rfl

theorem mapError_eq_ok_iff {f : ε → ε'} {o : Except ε α} {a : α} :
    o.mapError f = .ok a ↔ o = .ok a := by
  cases o <;> simp

theorem outcome_bind (x : Asking ε α) (f : α → Asking ε β) :
    outcome (x >>= f) = (outcome x).bind fun a => outcome (f a) := by
  obtain ⟨(e | a), c⟩ := x <;> rfl

/-- Work stops at a failure: what would come behind it makes no call. -/
theorem calls_bind (x : Asking ε α) (f : α → Asking ε β) :
    calls (x >>= f) = calls x ++ match outcome x with
      | .ok a => calls (f a)
      | .error _ => [] := by
  obtain ⟨(e | a), c⟩ := x <;> rfl

/-- What is only computed from the result makes no call. -/
theorem calls_bind_pure (x : Asking ε α) (f : α → β) :
    calls (x >>= fun a => pure (f a)) = calls x := by
  rw [calls_bind]
  cases outcome x <;> simp

theorem outcome_bind_pure (x : Asking ε α) (f : α → β) :
    outcome (x >>= fun a => pure (f a)) = (outcome x).map f := by
  rw [outcome_bind]
  cases outcome x <;> rfl

theorem outcome_bind_eq_ok {x : Asking ε α} {f : α → Asking ε β} {b : β} :
    outcome (x >>= f) = .ok b ↔ ∃ a, outcome x = .ok a ∧ outcome (f a) = .ok b := by
  rw [outcome_bind]
  cases outcome x with
  | error e => simp [Except.bind]
  | ok a => simp [Except.bind]

end Trellis.Asking
