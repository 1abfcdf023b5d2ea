import Mathlib.Data.List.DropRight
import Mathlib.Algebra.Order.Ring.Int

/-!
# Arrays whose places are overwritten in turn

An array of `n` places is filled from the first place on, and then overwritten from the first place on again. What it holds, the oldest value
first, are the last `n` of the values that were written to it.
-/

namespace LastValues

variable {α : Type*} {n : Nat}

/-- What the array holds, when the next place to be written is `index` and `count` places have been written. -/
def held (n : Nat) (buf : List α) (index count : Nat) : List α :=
  if count < n then buf.take count else buf.drop index ++ buf.take index

/-- The state of the array after `values`. -/
structure Holds (n : Nat) (buf : List α) (index count : Nat) (values : List α) : Prop where
  length_eq : buf.length = n
  index_eq : index = values.length % n
  count_eq : count = min values.length n
  held_eq : held n buf index count = values.rtake n

/-- A short list is its own end. -/
theorem rtake_of_length_le {values : List α} (h : values.length ≤ n) : values.rtake n = values := by
  rw [List.rtake, Nat.sub_eq_zero_of_le h, List.drop_zero]

/-- One more value, as long as there is room. -/
theorem rtake_snoc_of_lt {values : List α} (h : values.length < n) (v : α) : (values ++ [v]).rtake n = values.rtake n ++ [v] := by
  rw [rtake_of_length_le (Nat.le_of_lt h), rtake_of_length_le (by simp; omega)]

/-- A value that comes to `n` others makes the oldest of them go. -/
theorem rtake_snoc_of_le {values : List α} (h : n ≤ values.length) (hn : 0 < n) (v : α) :
    (values ++ [v]).rtake n = (values.rtake n).tail ++ [v] := by
  obtain ⟨m, rfl⟩ := Nat.exists_eq_succ_of_ne_zero (Nat.ne_of_gt hn)
  have hdrop : values.length - m = values.length - (m + 1) + 1 := by omega
  rw [List.rtake_concat_succ, List.rtake, List.rtake, List.tail_drop, hdrop]

/-- As many values are taken, if there are. -/
theorem length_rtake (values : List α) : (values.rtake n).length = min values.length n := by
  rw [List.rtake, List.length_drop]
  omega

namespace Holds

variable {buf : List α} {index count : Nat} {values : List α}

/-- An empty buffer holds no values. -/
theorem nil (hlen : buf.length = n) : Holds n buf 0 0 [] where
  length_eq := hlen
  index_eq := (Nat.zero_mod n).symm
  count_eq := (Nat.zero_min n).symm
  held_eq := by
    rw [held, List.rtake_nil]
    split
    · simp
    · have hnil : buf = [] := List.length_eq_zero_iff.mp (by omega)
      simp [hnil]

/-- The index is inside of the buffer. -/
theorem index_lt (h : Holds n buf index count values) (hn : 0 < n) : index < n := by
  rw [h.index_eq]
  exact Nat.mod_lt _ hn

/-- In some order, the places that have been written hold the last values. -/
theorem perm (h : Holds n buf index count values) : (buf.take count).Perm (values.rtake n) := by
  rw [← h.held_eq, held]
  split
  · exact List.Perm.refl _
  · have hcount := h.count_eq
    rw [List.take_of_length_le (by rw [h.length_eq]; omega)]
    have hsplit : buf.Perm (buf.take index ++ buf.drop index) := by rw [List.take_append_drop]
    exact hsplit.trans List.perm_append_comm

/-- Writing the next value. -/
theorem write (h : Holds n buf index count values) (hn : 0 < n) (v : α) :
    Holds n (buf.set index v) ((index + 1) % n) (min (count + 1) n) (values ++ [v]) := by
  have hlen := h.length_eq
  have hlt := h.index_lt hn
  obtain ⟨-, hindex, hcount, hheld⟩ := h
  refine ⟨by simp [hlen], ?_, ?_, ?_⟩
  · rw [hindex, List.length_append, List.length_singleton, Nat.mod_add_mod]
  · rw [hcount, List.length_append, List.length_singleton]
    omega
  · have hset : buf.set index v = buf.take index ++ v :: buf.drop (index + 1) := List.set_eq_take_append_cons_drop ▸ if_pos (by omega)
    have htake : (buf.take index).length = index := by
      rw [List.length_take]
      omega
    rcases Nat.lt_or_ge values.length n with hroom | hfull
    · -- the places behind have not been written
      have hat : index = values.length := hindex.trans (Nat.mod_eq_of_lt hroom)
      have hprefix : buf.take index = values := by
        have hcount' : index = count := by omega
        rw [held, if_pos (by omega), rtake_of_length_le (Nat.le_of_lt hroom)] at hheld
        rw [hcount', hheld]
      rw [rtake_snoc_of_lt hroom, rtake_of_length_le (Nat.le_of_lt hroom), held, hset, hprefix]
      split
      · have hnext : min (count + 1) n = (values ++ [v]).length := by
          rw [List.length_append, List.length_singleton]
          omega
        rw [hnext, List.append_cons values v (buf.drop (index + 1)), List.take_left]
      · have hlast : index + 1 = n := by omega
        have hnone : buf.drop (index + 1) = [] := List.drop_eq_nil_of_le (by omega)
        rw [hnone, hlast, Nat.mod_self]
        simp
    · have hnone : ¬min (count + 1) n < n := by omega
      rw [held, if_neg (by omega)] at hheld
      rw [rtake_snoc_of_le hfull hn, ← hheld, held, if_neg hnone, hset]
      have hcons : buf.drop index = buf[index] :: buf.drop (index + 1) := List.drop_eq_getElem_cons (by omega)
      rw [hcons, List.cons_append, List.tail_cons]
      rcases Nat.lt_or_ge (index + 1) n with hnext | hend
      · have hmod : (index + 1) % n = (buf.take index ++ [v]).length := by
          rw [Nat.mod_eq_of_lt hnext, List.length_append, htake]
          rfl
        rw [List.append_cons, hmod, List.drop_left, List.take_left, List.append_assoc]
      · have hlast : index + 1 = n := by omega
        have hempty : buf.drop (index + 1) = [] := List.drop_eq_nil_of_le (by omega)
        rw [hempty, hlast, Nat.mod_self]
        simp

end Holds

end LastValues
