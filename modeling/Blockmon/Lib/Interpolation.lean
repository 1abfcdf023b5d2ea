import Mathlib.Algebra.Order.Field.Basic
import Mathlib.Algebra.Order.Ring.Int
import Mathlib.Order.Bounds.Basic
import Mathlib.Tactic.Linarith

/-!
# Linear interpolation

Straight lines continue a sequence between its places. The segment that begins at `k` has the places from `k` to `k + 1`; where two segments meet,
their lines do. What lies before the first place or behind the last one that counts has the value there. The values of an increasing sequence
increase with the place (`ValueAt.mono`), and so they are between the first one and the last (`ValueAt.first_le`, `ValueAt.le_last`).
-/

namespace Interpolation

section Lines

variable {K : Type*} [Field K]

/-- The line through two neighbours, at a place. -/
def lineAt (v : ℕ → K) (k : ℕ) (x : K) : K := v k + (x - k) * (v (k + 1) - v k)

/-- The line begins at the left neighbour. -/
@[simp] theorem lineAt_left (v : ℕ → K) (k : ℕ) : lineAt v k k = v k := by simp [lineAt]

/-- The line ends at the right neighbour. -/
@[simp] theorem lineAt_right (v : ℕ → K) (k : ℕ) : lineAt v k (k + 1) = v (k + 1) := by simp [lineAt]

variable [LinearOrder K]

/-- The place is between the two. -/
def OnSegment (k : ℕ) (x : K) : Prop := (k : K) ≤ x ∧ x ≤ k + 1

/-- The place itself, or the nearest of those from 0 to `last`. -/
def clamp (last : ℕ) (x : K) : K := max 0 (min x last)

/-- `y` is the value at the place `x`. -/
def ValueAt (v : ℕ → K) (last : ℕ) (x y : K) : Prop := ∃ k, OnSegment k (clamp last x) ∧ y = lineAt v k (clamp last x)

variable {v : ℕ → K} {k k' last : ℕ} {x x' y y' : K}

/-- A later place is clamped to a later one. -/
theorem clamp_mono (h : x ≤ x') : clamp last x ≤ clamp last x' := max_le_max (le_refl 0) (min_le_min h (le_refl _))

/-- A place inside is its own. -/
theorem clamp_eq_self (h0 : 0 ≤ x) (hlast : x ≤ last) : clamp last x = x := by
  rw [clamp, min_eq_left hlast, max_eq_right h0]

/-- A place before the first is the first. -/
theorem clamp_of_nonpos (h : x ≤ 0) : clamp last x = (0 : ℕ) := by
  rw [clamp, max_eq_left ((min_le_left x _).trans h), Nat.cast_zero]

/-- A clamped place is not before the first. -/
theorem clamp_nonneg (last : ℕ) (x : K) : ((0 : ℕ) : K) ≤ clamp last x := by
  rw [Nat.cast_zero]
  exact le_max_left 0 _

variable [IsStrictOrderedRing K]

/-- A number is on its segment. -/
theorem onSegment_self (k : ℕ) : OnSegment k (k : K) := ⟨le_refl _, le_add_of_nonneg_right zero_le_one⟩

/-- A place behind the last is the last. -/
theorem clamp_of_last (h : last ≤ x) : clamp last x = last := by
  rw [clamp, min_eq_right h, max_eq_right (Nat.cast_nonneg last)]

/-- A clamped place is not behind the last. -/
theorem clamp_le_last (last : ℕ) (x : K) : clamp last x ≤ last := max_le (Nat.cast_nonneg last) (min_le_right x _)

/-! ### The value at a place -/

variable (v)

/-- Before the first place the value is the first. -/
theorem valueAt_first (last : ℕ) (h : x ≤ 0) : ValueAt v last x (v 0) := by
  refine ⟨0, ?_, ?_⟩
  · rw [clamp_of_nonpos h]
    exact onSegment_self 0
  · rw [clamp_of_nonpos h, lineAt_left]

/-- Behind the last place the value is the last. -/
theorem valueAt_last (h : last ≤ x) : ValueAt v last x (v last) := by
  refine ⟨last, ?_, ?_⟩
  · rw [clamp_of_last h]
    exact onSegment_self last
  · rw [clamp_of_last h, lineAt_left]

/-- Between two places the value is on their line. -/
theorem OnSegment.valueAt (hk : OnSegment k x) (hlast : x ≤ last) : ValueAt v last x (lineAt v k x) := by
  have hclamp : clamp last x = x := clamp_eq_self ((Nat.cast_nonneg k).trans hk.1) hlast
  refine ⟨k, ?_, ?_⟩
  · rw [hclamp]
    exact hk
  · rw [hclamp]

/-! ### Increasing sequences -/

variable {v} (hv : Monotone v)

include hv

/-- The line grows with the place. -/
theorem lineAt_mono (h : x ≤ x') : lineAt v k x ≤ lineAt v k x' := by
  have hrise : 0 ≤ v (k + 1) - v k := sub_nonneg.mpr (hv (Nat.le_succ k))
  exact add_le_add_right (mul_le_mul_of_nonneg_right (sub_le_sub_right h _) hrise) _

/-- On its segment the line is not below the left neighbour. -/
theorem OnSegment.le_lineAt (h : OnSegment k x) : v k ≤ lineAt v k x := by
  rw [← lineAt_left v k]
  exact lineAt_mono hv h.1

/-- On its segment the line is not above the right neighbour. -/
theorem OnSegment.lineAt_le (h : OnSegment k x) : lineAt v k x ≤ v (k + 1) := by
  rw [← lineAt_right v k]
  exact lineAt_mono hv h.2

/-- Whatever segments the places are taken on. -/
theorem OnSegment.mono (hk : OnSegment k x) (hk' : OnSegment k' x') (h : x ≤ x') : lineAt v k x ≤ lineAt v k' x' := by
  rcases Nat.lt_trichotomy k k' with hlt | rfl | hlt
  · calc lineAt v k x ≤ v (k + 1) := hk.lineAt_le hv
      _ ≤ v k' := hv hlt
      _ ≤ lineAt v k' x' := hk'.le_lineAt hv
  · exact lineAt_mono hv h
  · -- both places are where the segment of the later one ends and that of the other one begins
    have hcast : ((k' + 1 : ℕ) : K) ≤ k := Nat.cast_le.mpr hlt
    rw [Nat.cast_add, Nat.cast_one] at hcast
    have hx' : x' = k' + 1 := le_antisymm hk'.2 (hcast.trans (hk.1.trans h))
    have hx : x = k := le_antisymm (h.trans (hx'.le.trans hcast)) hk.1
    have hmeet : (k : K) = ((k' + 1 : ℕ) : K) := by
      rw [Nat.cast_add, Nat.cast_one]
      exact le_antisymm (hx ▸ hx' ▸ h) hcast
    rw [hx, hx', lineAt_left, lineAt_right, Nat.cast_injective hmeet]

/-- The values grow with the place. -/
theorem ValueAt.mono (hy : ValueAt v last x y) (hy' : ValueAt v last x' y') (h : x ≤ x') : y ≤ y' := by
  obtain ⟨k, hk, rfl⟩ := hy
  obtain ⟨k', hk', rfl⟩ := hy'
  exact hk.mono hv hk' (clamp_mono h)

/-- No value is below the first. -/
theorem ValueAt.first_le (hy : ValueAt v last x y) : v 0 ≤ y := by
  obtain ⟨k, hk, rfl⟩ := hy
  rw [← lineAt_left v 0]
  exact (onSegment_self 0).mono hv hk (clamp_nonneg last x)

/-- No value is above the last. -/
theorem ValueAt.le_last (hy : ValueAt v last x y) : y ≤ v last := by
  obtain ⟨k, hk, rfl⟩ := hy
  rw [← lineAt_left v last]
  exact hk.mono hv (onSegment_self last) (clamp_le_last last x)

end Lines

/-! ## Sorted lists -/

section Sorted

variable {α : Type*} (d : α) {l : List α} {a : α} {i : ℕ}

/-- The elements of a list, and then its last one over and over. -/
def stretch (l : List α) (i : ℕ) : α := l.getD (min i (l.length - 1)) d

/-- Inside of the list the values are its own. -/
theorem stretch_of_getElem? (h : l[i]? = some a) : stretch d l i = a := by
  have hi : i < l.length := (List.getElem?_eq_some_iff.mp h).1
  rw [stretch, min_eq_left (by omega), List.getD_eq_getElem?_getD, h, Option.getD_some]

/-- All values are of the list. -/
theorem stretch_mem (hne : l ≠ []) (i : ℕ) : stretch d l i ∈ l := by
  have hpos : 0 < l.length := List.length_pos_iff.mpr hne
  have hi : min i (l.length - 1) < l.length := by omega
  rw [stretch, List.getD_eq_getElem?_getD, List.getElem?_eq_getElem hi, Option.getD_some]
  exact List.getElem_mem hi

variable [LinearOrder α] (hl : l.Pairwise (· ≤ ·))

include hl

/-- The values of a sorted list grow. -/
theorem stretch_mono : Monotone (stretch d l) := by
  intro i j hij
  rcases eq_or_ne l [] with rfl | hne
  · exact le_refl d
  · have hpos : 0 < l.length := List.length_pos_iff.mpr hne
    have hi : min i (l.length - 1) < l.length := by omega
    have hj : min j (l.length - 1) < l.length := by omega
    rw [stretch, stretch, List.getD_eq_getElem?_getD, List.getD_eq_getElem?_getD, List.getElem?_eq_getElem hi, List.getElem?_eq_getElem hj,
      Option.getD_some, Option.getD_some]
    rcases Nat.eq_or_lt_of_le (show min i (l.length - 1) ≤ min j (l.length - 1) by omega) with heq | hlt
    · simp only [heq, le_refl]
    · exact List.pairwise_iff_getElem.mp hl _ _ hi hj hlt

/-- The first value of a sorted list is the least. -/
theorem isLeast_stretch (hne : l ≠ []) : IsLeast { a | a ∈ l } (stretch d l 0) := by
  refine ⟨stretch_mem d hne 0, fun a ha => ?_⟩
  obtain ⟨i, hi⟩ := List.mem_iff_getElem?.mp ha
  rw [← stretch_of_getElem? d hi]
  exact stretch_mono d hl (Nat.zero_le i)

/-- The last value of a sorted list is the greatest. -/
theorem isGreatest_stretch (hne : l ≠ []) : IsGreatest { a | a ∈ l } (stretch d l (l.length - 1)) := by
  refine ⟨stretch_mem d hne _, fun a ha => ?_⟩
  obtain ⟨i, hi⟩ := List.mem_iff_getElem?.mp ha
  have hlt : i < l.length := (List.getElem?_eq_some_iff.mp hi).1
  rw [← stretch_of_getElem? d hi]
  exact stretch_mono d hl (by omega)

end Sorted

end Interpolation
