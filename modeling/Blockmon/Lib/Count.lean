import Mathlib.Algebra.BigOperators.Group.Finset.Piecewise
import Mathlib.Algebra.Order.BigOperators.Group.Finset
import Mathlib.Algebra.Order.Ring.Int
import Mathlib.Data.List.Count
import Mathlib.Data.List.Range

/-!
# Counting

How the number of indices below `n` that satisfy a test changes when the test changes at one index. The classes of a list together have as many
elements as the list; counters that wrap around add up to it exactly if none of them wraps.
-/

namespace Count

variable {n w : Nat} {p p' : Nat → Bool}

/-- Predicates that agree below a number count the same. -/
theorem countP_range_congr (h : ∀ j, j < n → p' j = p j) : (List.range n).countP p' = (List.range n).countP p := by
  apply List.countP_congr
  intro j hj
  rw [h j (List.mem_range.mp hj)]

/-- The test changed at `w` only. -/
theorem countP_range_update (p p' : Nat → Bool) (hw : w < n) (h : ∀ j, j ≠ w → p' j = p j) :
    (List.range n).countP p' + (p w).toNat = (List.range n).countP p + (p' w).toNat := by
  induction n with
  | zero => omega
  | succ n ih =>
    simp only [List.range_succ, List.countP_append, List.countP_singleton]
    by_cases hn : w = n
    · subst hn
      have hlt : (List.range w).countP p' = (List.range w).countP p := countP_range_congr fun j hj => h j (by omega)
      rw [hlt]
      cases p w <;> cases p' w <;> simp
    · have := ih (by omega)
      rw [h n (fun e => hn e.symm)]
      omega

/-- The count is positive exactly when the test holds somewhere below the bound. -/
theorem countP_range_pos : 0 < (List.range n).countP p ↔ ∃ j, j < n ∧ p j = true := by
  rw [List.countP_pos_iff]
  simp only [List.mem_range]

/-- The test holds at two places at least. -/
theorem two_le_countP_range {w' : Nat} (hw : w < n) (hw' : w' < n) (hne : w' ≠ w) (h : p w = true) (h' : p w' = true) :
    2 ≤ (List.range n).countP p := by
  have hupd := countP_range_update p (Function.update p w false) hw (fun j hj => Function.update_of_ne hj ..)
  have hpos : 0 < (List.range n).countP (Function.update p w false) :=
    countP_range_pos.mpr ⟨w', hw', by rw [Function.update_of_ne hne, h']⟩
  rw [h, Function.update_self, Bool.toNat_true, Bool.toNat_false] at hupd
  omega

/-! ## Classes -/

/-- The counts of the classes are the elements. -/
theorem sum_countP_class {α : Type} {xs : List α} {cls : α → Nat} (h : ∀ x ∈ xs, cls x < n) :
    ∑ i ∈ Finset.range n, (xs.countP fun x => cls x = i) = xs.length := by
  induction xs with
  | nil => simp
  | cons x xs ih =>
    obtain ⟨hx, hxs⟩ := List.forall_mem_cons.mp h
    simp only [List.countP_cons, Finset.sum_add_distrib, ih hxs, List.length_cons, decide_eq_true_eq]
    rw [Finset.sum_ite_eq, if_pos (Finset.mem_range.mpr hx)]

/-- The remainders add up to the numbers just when each is one. -/
theorem sum_mod_eq_iff {c : Nat → Nat} {m : Nat} (hm : 0 < m) :
    ∑ i ∈ Finset.range n, c i % m = ∑ i ∈ Finset.range n, c i ↔ ∀ i, i < n → c i < m := by
  rw [Finset.sum_eq_sum_iff_of_le fun i _ => Nat.mod_le (c i) m]
  simp only [Finset.mem_range]
  exact forall₂_congr fun i _ => ⟨fun h => h ▸ Nat.mod_lt _ hm, Nat.mod_eq_of_lt⟩

end Count
