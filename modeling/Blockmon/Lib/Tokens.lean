import Mathlib.Data.List.Nodup
import Mathlib.Logic.Function.Basic
import Mathlib.Algebra.Order.Ring.Int

/-!
# Tokens that are each in one place

A system keeps tokens in places, each place holding a list of them. `Placed held loc` says that every token is where `loc` says
and nowhere else, and there once. A token may be put into a place when it is nowhere, moved from one place to another, or taken
out; the order in which a place lists its tokens does not matter.
-/

namespace Tokens

variable {π τ : Type*} {held held' : π → List τ} {loc : τ → Option π} {p q : π} {x : τ}

structure Placed (held : π → List τ) (loc : τ → Option π) : Prop where
  nodup : ∀ p, (held p).Nodup
  mem_iff : ∀ p x, x ∈ held p ↔ loc x = some p

/-- The same tokens in the same places. -/
theorem Placed.congr (h : Placed held loc) (hsame : ∀ p, (held' p).Perm (held p)) : Placed held' loc :=
  ⟨fun p => (hsame p).symm.nodup (h.nodup p), fun p x => (hsame p).mem_iff.trans (h.mem_iff p x)⟩

/-- A token is in one place only. -/
theorem Placed.unique (h : Placed held loc) (hp : x ∈ held p) (hq : x ∈ held q) : q = p :=
  Option.some.inj (((h.mem_iff q x).mp hq).symm.trans ((h.mem_iff p x).mp hp))

theorem Placed.existsUnique_iff (h : Placed held loc) : (∃! p, x ∈ held p) ↔ loc x ≠ none := by
  constructor
  · rintro ⟨p, hp, -⟩ hnone
    rw [(h.mem_iff p x).mp hp] at hnone
    cases hnone
  · intro hsome
    obtain ⟨p, hp⟩ := Option.ne_none_iff_exists'.mp hsome
    exact ⟨p, (h.mem_iff p x).mpr hp, fun q hq => h.unique ((h.mem_iff p x).mpr hp) hq⟩

variable [DecidableEq τ]

/-- A token that was nowhere is put into a place. -/
theorem Placed.put (h : Placed held loc) (hnew : loc x = none) (hp : (held' p).Perm (x :: held p))
    (hother : ∀ q, q ≠ p → (held' q).Perm (held q)) : Placed held' (Function.update loc x (some p)) := by
  have hout : ∀ q, x ∉ held q := fun q hq => by
    rw [(h.mem_iff q x).mp hq] at hnew
    cases hnew
  refine ⟨fun q => ?_, fun q y => ?_⟩
  · by_cases hqp : q = p
    · subst hqp
      exact hp.symm.nodup (List.nodup_cons.mpr ⟨hout q, h.nodup q⟩)
    · exact (hother q hqp).symm.nodup (h.nodup q)
  · by_cases hyx : y = x
    · subst hyx
      rw [Function.update_self]
      by_cases hqp : q = p
      · subst hqp
        exact iff_of_true (hp.mem_iff.mpr List.mem_cons_self) rfl
      · refine iff_of_false (fun hmem => hout q ((hother q hqp).mem_iff.mp hmem)) fun heq => hqp (Option.some.inj heq).symm
    · rw [Function.update_of_ne hyx, ← h.mem_iff]
      by_cases hqp : q = p
      · subst hqp
        rw [hp.mem_iff, List.mem_cons, or_iff_right hyx]
      · exact (hother q hqp).mem_iff

/-- A token is taken out of its place. -/
theorem Placed.take (h : Placed held loc) (hp : (held p).Perm (x :: held' p)) (hother : ∀ q, q ≠ p → (held' q).Perm (held q)) :
    Placed held' (Function.update loc x none) := by
  have hnodup : x ∉ held' p ∧ (held' p).Nodup := List.nodup_cons.mp (hp.nodup (h.nodup p))
  have hx : x ∈ held p := hp.mem_iff.mpr List.mem_cons_self
  refine ⟨fun q => ?_, fun q y => ?_⟩
  · by_cases hqp : q = p
    · subst hqp
      exact hnodup.2
    · exact (hother q hqp).symm.nodup (h.nodup q)
  · by_cases hyx : y = x
    · subst hyx
      rw [Function.update_self]
      refine iff_of_false (fun hmem => ?_) nofun
      by_cases hqp : q = p
      · subst hqp
        exact hnodup.1 hmem
      · exact hqp (h.unique hx ((hother q hqp).mem_iff.mp hmem))
    · rw [Function.update_of_ne hyx, ← h.mem_iff]
      by_cases hqp : q = p
      · subst hqp
        rw [hp.mem_iff, List.mem_cons, or_iff_right hyx]
      · exact (hother q hqp).mem_iff

/-- A token is moved from one place to another. -/
theorem Placed.move [DecidableEq π] (h : Placed held loc) (hpq : q ≠ p) (hp : (held p).Perm (x :: held' p))
    (hq : (held' q).Perm (x :: held q)) (hother : ∀ r, r ≠ p → r ≠ q → (held' r).Perm (held r)) :
    Placed held' (Function.update loc x (some q)) := by
  -- through the system in which the token is nowhere
  have htaken : Placed (Function.update held p (held' p)) (Function.update loc x none) := by
    refine h.take (p := p) (by rw [Function.update_self]; exact hp) fun r hr => ?_
    rw [Function.update_of_ne hr]
  have hnext : (held' q).Perm (x :: Function.update held p (held' p) q) := by rwa [Function.update_of_ne hpq]
  have hput := htaken.put (Function.update_self ..) hnext fun r hr => by
    by_cases hrp : r = p
    · subst hrp
      rw [Function.update_self]
    · rw [Function.update_of_ne hrp]
      exact hother r hrp hr
  rwa [Function.update_idem] at hput

end Tokens
