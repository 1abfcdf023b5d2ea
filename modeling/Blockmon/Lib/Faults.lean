import Mathlib.Algebra.Order.Ring.Int
import Mathlib.Order.Defs.Unbundled

/-!
# Calculations that may fail

A calculation has a value or a fault. `Only P r` says which faults there may be; for a sequence of two it is enough to look at each, and the second
only for the values that the first has.
-/

namespace Faults

variable {ε α β : Type} {P : ε → Prop} {r : Except ε α} {f : α → Except ε β}

@[simp] theorem ok_bind (a : α) (f : α → Except ε β) : (Except.ok a >>= f) = f a := rfl

@[simp] theorem error_bind (e : ε) (f : α → Except ε β) : (Except.error e >>= f) = .error e := rfl

/-- A calculation of two has a value when both have. -/
theorem bind_eq_ok_iff {b : β} : (r >>= f) = .ok b ↔ ∃ a, r = .ok a ∧ f a = .ok b := by
  cases r with
  | ok a => simp
  | error e => simp

/-- There is no fault but of this kind. -/
def Only (P : ε → Prop) (r : Except ε α) : Prop := ∀ e, r = .error e → P e

@[simp] theorem only_ok (P : ε → Prop) (a : α) : Only P (.ok a : Except ε α) := by
  intro e h
  cases h

@[simp] theorem only_pure (P : ε → Prop) (a : α) : Only P (pure a : Except ε α) := only_ok P a

/-- A fault is one of those allowed. -/
@[simp] theorem only_error {e : ε} : Only P (.error e : Except ε α) ↔ P e := by
  constructor
  · exact fun h => h e rfl
  · rintro h _ ⟨⟩
    exact h

/-- Of two calculations, the second matters for the values of the first only. -/
theorem only_bind_iff : Only P (r >>= f) ↔ Only P r ∧ ∀ a, r = .ok a → Only P (f a) := by
  cases r with
  | ok a =>
    constructor
    · intro h
      refine ⟨only_ok P a, ?_⟩
      rintro _ ⟨⟩
      exact h
    · exact fun h => h.2 a rfl
  | error e =>
    constructor
    · intro h
      refine ⟨only_error.mpr (only_error.mp h), ?_⟩
      rintro _ ⟨⟩
    · exact fun h => only_error.mpr (only_error.mp h.1)

/-- It is enough that it has no other faults for any value. -/
theorem Only.bind (hr : Only P r) (hf : ∀ a, Only P (f a)) : Only P (r >>= f) := only_bind_iff.mpr ⟨hr, fun a _ => hf a⟩

end Faults
