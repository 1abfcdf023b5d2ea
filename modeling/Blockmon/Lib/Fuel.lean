import Mathlib.Order.Basic
import Mathlib.Data.Nat.Basic
import Mathlib.Algebra.Order.Ring.Int

/-!
# Loops with fuel

A loop that may go on for any number of passes is a function of a bound on them, its fuel: `none` says that the bound was too small.
`Ends f a` says that `f` ends with `a`, given enough fuel. `Returns f a` says the same of a function that may also throw, for which the
fault of the last unit is one exception among others.
-/

namespace Fuel

variable {α β : Type*}

/-- The calculation ends with the value, from some fuel on. -/
def Ends (f : Nat → Option α) (a : α) : Prop := ∃ n, ∀ m, n ≤ m → f m = some a

/-- It ends with one value. -/
theorem Ends.unique {f : Nat → Option α} {a b : α} (h : Ends f a) (h' : Ends f b) : a = b := by
  obtain ⟨n, hn⟩ := h
  obtain ⟨k, hk⟩ := h'
  exact Option.some.inj ((hn (max n k) (le_max_left n k)).symm.trans (hk (max n k) (le_max_right n k)))

/-- A pass of the loop takes one unit. -/
theorem Ends.pass {f g : Nat → Option α} {a : α} (h : Ends g a) (hf : ∀ n, f (n + 1) = g n) : Ends f a := by
  obtain ⟨n, hn⟩ := h
  refine ⟨n + 1, fun m hm => ?_⟩
  obtain ⟨k, rfl⟩ := Nat.exists_eq_add_of_le' hm
  rw [← Nat.add_assoc, hf]
  exact hn (k + n) (Nat.le_add_left n k)

/-- One loop after the other, on the same bound. -/
theorem Ends.bind {f : Nat → Option α} {g : α → Nat → Option β} {a : α} {b : β} (h : Ends f a) (hg : Ends (g a) b) :
    Ends (fun n => (f n).bind fun x => g x n) b := by
  obtain ⟨n, hn⟩ := h
  obtain ⟨k, hk⟩ := hg
  refine ⟨max n k, fun m hm => ?_⟩
  simp only [hn m (le_trans (le_max_left n k) hm), Option.bind_some]
  exact hk m (le_trans (le_max_right n k) hm)

/-- A value needs no fuel. -/
theorem ends_const (a : α) : Ends (fun _ => some a) a := ⟨0, fun _ _ => rfl⟩

/-! ## Functions that throw -/

variable {ε : Type*}

/-- The calculation returns the value, from some fuel on. -/
def Returns (f : Nat → Except ε α) (a : α) : Prop := ∃ n, ∀ m, n ≤ m → f m = .ok a

/-- A result needs no fuel. -/
theorem returns_const (x : Except ε α) {a : α} (h : x = .ok a) : Returns (fun _ => x) a := ⟨0, fun _ _ => h⟩

/-- Two calculations return one after the other. -/
theorem Returns.bind {f : Nat → Except ε α} {g : Nat → α → Except ε β} {a : α} {b : β} (h : Returns f a)
    (hg : Returns (fun n => g n a) b) : Returns (fun n => (f n).bind (g n)) b := by
  obtain ⟨n, hn⟩ := h
  obtain ⟨k, hk⟩ := hg
  refine ⟨max n k, fun m hm => ?_⟩
  dsimp only
  rw [hn m (le_trans (le_max_left n k) hm)]
  exact hk m (le_trans (le_max_right n k) hm)

/-- It returns one value. -/
theorem Returns.unique {f : Nat → Except ε α} {a b : α} (h : Returns f a) (h' : Returns f b) : a = b := by
  obtain ⟨n, hn⟩ := h
  obtain ⟨k, hk⟩ := h'
  exact Except.ok.inj ((hn (max n k) (le_max_left n k)).symm.trans (hk (max n k) (le_max_right n k)))

/-- There is fuel with which it returns. -/
theorem Returns.exists {f : Nat → Except ε α} {a : α} (h : Returns f a) : ∃ n, f n = .ok a := by
  obtain ⟨n, hn⟩ := h
  exact ⟨n, hn n le_rfl⟩

/-- What the function returns for some fuel it returns for all that is more. -/
def Settled (f : Nat → Except ε α) : Prop := ∀ n a, f n = .ok a → Returns f a

/-- A result does not depend on fuel. -/
theorem settled_const (x : Except ε α) : Settled fun _ => x := fun _ _ h => returns_const x h

/-- Two settled calculations one after the other. -/
theorem Settled.bind {f : Nat → Except ε α} {g : Nat → α → Except ε β} (hf : Settled f) (hg : ∀ a, Settled fun n => g n a) :
    Settled fun n => (f n).bind (g n) := by
  intro n b h
  cases hfn : f n with
  | error e =>
    simp only [hfn] at h
    cases h
  | ok a =>
    simp only [hfn] at h
    exact (hf n a hfn).bind (hg a n b h)

/-- What is returned with any fuel is the value. -/
theorem Settled.eq {f : Nat → Except ε α} (hf : Settled f) {n : Nat} {a b : α} (h : f n = .ok a) (h' : Returns f b) : a = b :=
  (hf n a h).unique h'

end Fuel
