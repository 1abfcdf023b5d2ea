import Mathlib.Data.Finset.Card
import Mathlib.Data.Finset.Range
import Mathlib.Data.Nat.Bitwise
import Mathlib.Algebra.Order.Ring.Int

/-!
# Bits packed in bytes

Bit `n` of a list of bytes is bit `n % 8` of byte `n / 8`.
-/

namespace Bitmap

/-- The byte with one bit. -/
def mask (t : Nat) : UInt8 := 1 <<< UInt8.ofNat t

/-- The bit at a position. -/
def test (m : List UInt8) (n : Nat) : Bool := (m.getD (n / 8) 0).toNat.testBit (n % 8)

/-- The bitmap with the bit set. -/
def set (m : List UInt8) (n : Nat) : List UInt8 := m.set (n / 8) (m.getD (n / 8) 0 ||| mask (n % 8))

/-- The bits that are set. -/
def ones (m : List UInt8) : Finset Nat := (Finset.range (8 * m.length)).filter fun n => test m n

/-- The mask of a bit. -/
theorem toNat_mask {t : Nat} (ht : t < 8) : (mask t).toNat = 2 ^ t := by
  have h : ∀ t < 8, (mask t).toNat = 2 ^ t := by decide
  exact h t ht

/-- The mask tests its bit. -/
theorem and_mask_eq_zero_iff (b : UInt8) {t : Nat} (ht : t < 8) : b &&& mask t = 0 ↔ b.toNat.testBit t = false := by
  have hzero : (0 : UInt8).toNat = 0 := rfl
  rw [← UInt8.toNat_inj, UInt8.toNat_and, toNat_mask ht, hzero, Nat.and_two_pow]
  cases b.toNat.testBit t with
  | false => simp
  | true => simp

/-- The mask sets its bit. -/
theorem testBit_or_mask (b : UInt8) {t : Nat} (ht : t < 8) (i : Nat) :
    (b ||| mask t).toNat.testBit i = (b.toNat.testBit i || decide (t = i)) := by
  rw [UInt8.toNat_or, toNat_mask ht, Nat.testBit_or, Nat.testBit_two_pow]

section Set

variable {m : List UInt8} {n : Nat}

@[simp] theorem length_set (m : List UInt8) (n : Nat) : (set m n).length = m.length := List.length_set

/-- A bit that is set lies in the list. -/
theorem lt_of_test (h : test m n = true) : n < 8 * m.length := by
  by_contra hge
  rw [test, List.getD_eq_default _ _ (by omega)] at h
  simp at h

/-- The positions of the bits that are set. -/
theorem mem_ones : n ∈ ones m ↔ test m n = true := by
  rw [ones, Finset.mem_filter, Finset.mem_range]
  exact ⟨fun h => h.2, fun h => ⟨lt_of_test h, h⟩⟩

/-- A bit that a mask finds. -/
theorem and_mask_iff_notMem (m : List UInt8) (n : Nat) : m.getD (n / 8) 0 &&& mask (n % 8) = 0 ↔ n ∉ ones m := by
  rw [and_mask_eq_zero_iff _ (Nat.mod_lt n (by decide)), mem_ones, test, Bool.not_eq_true]

/-- A bit that is set is tested, and the others are as they were. -/
theorem test_set (hn : n < 8 * m.length) (i : Nat) : test (set m n) i = (test m i || decide (n = i)) := by
  have hbyte : n / 8 < m.length := by omega
  rw [test, set, List.getD_eq_getElem?_getD, List.getElem?_set]
  by_cases hi : n / 8 = i / 8
  · rw [if_pos hi, if_pos hbyte, Option.getD_some, testBit_or_mask _ (Nat.mod_lt n (by decide)), test, ← hi]
    congr 1
    rw [decide_eq_decide]
    omega
  · have hne : n ≠ i := fun h => hi (by rw [h])
    rw [if_neg hi, test, List.getD_eq_getElem?_getD, decide_eq_false hne, Bool.or_false]

/-- One more bit is set. -/
theorem ones_set (hn : n < 8 * m.length) : ones (set m n) = insert n (ones m) := by
  ext i
  rw [mem_ones, test_set hn, Finset.mem_insert, mem_ones, Bool.or_eq_true, decide_eq_true_iff, or_comm, eq_comm]

/-- In zeros no bit is set. -/
theorem ones_replicate (k : Nat) : ones (List.replicate k 0) = ∅ := by
  refine Finset.eq_empty_of_forall_notMem fun n hn => ?_
  have hbyte : (List.replicate k (0 : UInt8)).getD (n / 8) 0 = 0 := by
    rw [List.getD_eq_getElem?_getD, List.getElem?_replicate]
    split <;> rfl
  rw [mem_ones, test, hbyte] at hn
  simp at hn

end Set

end Bitmap
