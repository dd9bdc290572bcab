/-!
# Steps that can fail

How a chain of steps in `Except` comes out, one step at a time. An operation
written with `do` is taken apart by these equations and never by unfolding
the monad.
-/

namespace NginxConfig

section Chain

variable {ε α β : Type}

@[simp] theorem ok_bind (a : α) (f : α → Except ε β) : (Except.ok a >>= f) = f a := rfl

@[simp] theorem error_bind (e : ε) (f : α → Except ε β) : (Except.error e >>= f) = .error e := rfl

@[simp] theorem pure_eq_ok (a : α) : (pure a : Except ε α) = .ok a := rfl

@[simp] theorem throw_eq_error (e : ε) : (throw e : Except ε α) = .error e := rfl

theorem bind_eq_ok {x : Except ε α} {f : α → Except ε β} {b : β} :
    (x >>= f) = .ok b ↔ ∃ a, x = .ok a ∧ f a = .ok b := by
  cases x with
  | error e => simp
  | ok a => simp

theorem bind_eq_error {x : Except ε α} {f : α → Except ε β} {e : ε} :
    (x >>= f) = .error e ↔ x = .error e ∨ ∃ a, x = .ok a ∧ f a = .error e := by
  cases x with
  | error e' => simp
  | ok a => simp

/-- The error of two steps is that of the first one that has an error. -/
theorem bind_eq_error_iff_orElse {x : Except ε α} {f : α → Except ε β} {r r' : Option ε} {e : ε}
    (hfirst : ∀ e, x = .error e ↔ r = some e)
    (hnext : ∀ a, x = .ok a → (f a = .error e ↔ r' = some e)) :
    (x >>= f) = .error e ↔ (r <|> r') = some e := by
  cases x with
  | error e' =>
      rw [(hfirst e').mp rfl]
      simp
  | ok a =>
      cases r with
      | none => simpa using hnext a rfl
      | some e' => cases (hfirst e').mpr rfl

theorem bind_pure_eq_error {x : Except ε α} {f : α → β} {e : ε} :
    (x >>= fun a => pure (f a)) = .error e ↔ x = .error e := by
  cases x <;> simp

theorem map_eq_ok {x : Except ε α} {f : α → β} {b : β} :
    x.map f = .ok b ↔ ∃ a, x = .ok a ∧ f a = b := by
  cases x with
  | error e => simp [Except.map]
  | ok a => simp [Except.map]

end Chain

end NginxConfig
