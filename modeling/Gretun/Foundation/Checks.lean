import Mathlib.Logic.Basic

/-!
# Chains of checks

A function that checks its input in steps, each of which may end it with an error,
returns a result exactly when every step lets it pass. The rules below say so for each
way in which a step is written, so that `simp` turns the text of such a function into
the conjunction of its checks.
-/

namespace Foundation

namespace Checks

variable {ε α β : Type}

theorem bind_eq_ok {x : Except ε α} {f : α → Except ε β} {b : β} :
    (x >>= f) = .ok b ↔ ∃ a, x = .ok a ∧ f a = .ok b := by
  cases x with
  | error err => simp [bind, Except.bind]
  | ok a => simp [bind, Except.bind]

@[simp] theorem mapError_error {ε' : Type} (g : ε → ε') (err : ε) :
    (Except.error err : Except ε α).mapError g = .error (g err) := rfl

@[simp] theorem mapError_ok {ε' : Type} (g : ε → ε') (a : α) :
    (Except.ok a : Except ε α).mapError g = .ok a := rfl

theorem mapError_eq_ok {ε' : Type} {g : ε → ε'} {x : Except ε α} {a : α} :
    x.mapError g = .ok a ↔ x = .ok a := by
  cases x <;> simp

/-- A check that throws lets a computation go on when it fails to apply. -/
theorem ite_throw_eq_ok {p : Prop} [Decidable p] {err : ε} {g : PUnit → Except ε β}
    {x : Except ε β} {b : β} :
    (if p then (throw err >>= g) else x) = .ok b ↔ ¬ p ∧ x = .ok b := by
  by_cases hp : p
  · simp [hp, throw, throwThe, MonadExceptOf.throw, bind, Except.bind]
  · simp [hp]

theorem elim_eq_ok {o : Option α} {err : ε} {a : α} :
    o.elim (throw err : Except ε α) pure = .ok a ↔ o = some a := by
  cases o <;> simp [throw, throwThe, MonadExceptOf.throw, pure, Except.pure]

theorem elim_throw_eq_ok {o : Option α} {g : α → ε} {b c : β} :
    o.elim (pure b : Except ε β) (throw ∘ g) = .ok c ↔ o = none ∧ b = c := by
  cases o <;> simp [throw, throwThe, MonadExceptOf.throw, pure, Except.pure]

end Checks

end Foundation
