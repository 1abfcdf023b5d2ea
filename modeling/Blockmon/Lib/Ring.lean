import Mathlib.Data.List.Range
import Mathlib.Data.Int.ModEq
import Mathlib.Logic.Function.Basic
import Mathlib.Tactic.SplitIfs
import Mathlib.Algebra.Order.Ring.Int

/-!
# Circular buffers

A circular buffer of `n` cells is a function from indices with a head and a tail below `n`; it is empty when they are equal and
holds at most `n - 1` values. `window` lists what it holds, the oldest first. The two operations on the indices and cells are the
ones a program performs; the lemmas say what they do to the list.
-/

namespace Ring

variable {α : Type*} {n head tail : Nat} {buf : Nat → α}

/-- The number of values held. -/
def size (n head tail : Nat) : Nat := (tail + n - head) % n

/-- The values held, the oldest first. -/
def window (n : Nat) (buf : Nat → α) (head tail : Nat) : List α :=
  (List.range (size n head tail)).map fun i => buf ((head + i) % n)

@[simp] theorem length_window : (window n buf head tail).length = size n head tail := by
  simp [window]

/-- A ring is never full of elements. -/
theorem size_lt (head tail : Nat) (hn : 0 < n) : size n head tail < n := Nat.mod_lt _ hn

/-- The next index, going round. -/
theorem succ_mod_eq {i : Nat} (hi : i < n) : (i + 1) % n = if i + 1 = n then 0 else i + 1 := by
  split
  · next h => rw [h, Nat.mod_self]
  · exact Nat.mod_eq_of_lt (by omega)

/-- The size from the head to the tail. -/
theorem size_eq (hh : head < n) (ht : tail < n) :
    size n head tail = if head ≤ tail then tail - head else tail + n - head := by
  unfold size
  split
  · have : tail + n - head = tail - head + n := by omega
    rw [this, Nat.add_mod_right]
    exact Nat.mod_eq_of_lt (by omega)
  · exact Nat.mod_eq_of_lt (by omega)

/-- The window is empty where the head is the tail. -/
theorem window_self (hh : head < n) : window n buf head head = [] := by
  have : size n head head = 0 := by
    rw [size_eq hh hh]
    simp
  rw [window, this]
  rfl

/-- The buffer is empty exactly when the indices are equal. -/
theorem window_eq_nil (hh : head < n) (ht : tail < n) : window n buf head tail = [] ↔ head = tail := by
  constructor
  · intro h
    have hlen := congrArg List.length h
    rw [length_window, size_eq hh ht, List.length_nil] at hlen
    split at hlen <;> omega
  · rintro rfl
    exact window_self hh

/-- Two offsets below the number of cells lead to the same cell only if they are the same. -/
theorem offset_inj (head : Nat) {i j : Nat} (hi : i < n) (hj : j < n) (h : (head + i) % n = (head + j) % n) : i = j := by
  have hmod := Nat.ModEq.add_left_cancel' head h
  rwa [Nat.ModEq, Nat.mod_eq_of_lt hi, Nat.mod_eq_of_lt hj] at hmod

/-- Removing at the head; what the program leaves in the cell does not matter. -/
theorem window_pop (hh : head < n) (ht : tail < n) (hne : head ≠ tail) (x : α) :
    window n buf head tail = buf head :: window n (Function.update buf head x) ((head + 1) % n) tail := by
  have hsize : size n head tail = size n ((head + 1) % n) tail + 1 := by
    rw [size_eq hh ht, size_eq (Nat.mod_lt _ (by omega)) ht, succ_mod_eq hh]
    split_ifs <;> omega
  have hlt := size_lt head tail (show 0 < n by omega)
  rw [window, window, hsize, List.range_succ_eq_map, List.map_cons, List.map_map, Nat.add_zero, Nat.mod_eq_of_lt hh]
  refine congrArg (buf head :: ·) (List.map_congr_left fun i hi => ?_)
  rw [List.mem_range] at hi
  have hcell : ((head + 1) % n + i) % n = (head + (i + 1)) % n := by
    rw [Nat.mod_add_mod]
    congr 1
    omega
  have hother : (head + (i + 1)) % n ≠ head := by
    intro heq
    have : i + 1 = 0 := offset_inj head (show i + 1 < n by omega) (by omega) (by rw [heq, Nat.add_zero, Nat.mod_eq_of_lt hh])
    omega
  rw [Function.comp_apply, hcell, Function.update_of_ne hother]

/-- Adding at the tail, into a buffer that is not full. -/
theorem window_push (hh : head < n) (ht : tail < n) (hfull : (tail + 1) % n ≠ head) (x : α) :
    window n (Function.update buf tail x) head ((tail + 1) % n) = window n buf head tail ++ [x] := by
  have hsize : size n head ((tail + 1) % n) = size n head tail + 1 := by
    rw [succ_mod_eq ht] at hfull
    rw [size_eq hh (Nat.mod_lt _ (by omega)), size_eq hh ht, succ_mod_eq ht]
    split_ifs at hfull ⊢ <;> omega
  have hlast : (head + size n head tail) % n = tail := by
    rw [size_eq hh ht]
    split
    · rw [Nat.add_sub_cancel' (by assumption), Nat.mod_eq_of_lt ht]
    · rw [Nat.add_sub_cancel' (by omega), Nat.add_mod_right, Nat.mod_eq_of_lt ht]
  rw [window, hsize, List.range_succ, List.map_append, List.map_singleton, hlast, Function.update_self]
  refine congrArg (· ++ [x]) (List.map_congr_left fun i hi => ?_)
  rw [List.mem_range] at hi
  have hne : (head + i) % n ≠ tail := by
    rw [← hlast]
    intro heq
    have hlt := size_lt head tail (show 0 < n by omega)
    have := offset_inj head (by omega) hlt heq
    omega
  rw [Function.update_of_ne hne]

/-- The buffer is full exactly when it holds one value less than it has cells. -/
theorem full_iff (hh : head < n) (ht : tail < n) : (tail + 1) % n = head ↔ size n head tail + 1 = n := by
  rw [succ_mod_eq ht, size_eq hh ht]
  split_ifs <;> omega

end Ring
