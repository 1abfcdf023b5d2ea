import Mathlib.Data.Nat.Bitwise
import Mathlib.Order.MinMax
import Mathlib.Algebra.Order.Ring.Int

/-!
# Windows of a stream of bits

A stream gives each place a bit. A window is the number that the bits from a place on make, the first of them being the lowest.
`bitsOf w W` is the stream of the numbers `W 0`, `W 1` and so on, each of `w` bits, in this order.
-/

namespace BitWindow

section Window

variable {b b' : Nat → Bool} {m s t : Nat}

/-- The `s` bits from the place `m` on. -/
def window (b : Nat → Bool) (m s : Nat) : Nat := Nat.ofBits fun j : Fin s => b (m + j)

@[simp] theorem testBit_window (b : Nat → Bool) (m s j : Nat) : (window b m s).testBit j = (decide (j < s) && b (m + j)) := by
  rw [window, Nat.testBit_ofBits]
  by_cases h : j < s <;> simp [h]

/-- A window is below the power. -/
theorem window_lt (b : Nat → Bool) (m s : Nat) : window b m s < 2 ^ s := Nat.ofBits_lt_two_pow _

/-- A window depends on its bits only. -/
theorem window_congr (h : ∀ j < s, b (m + j) = b' (m + j)) : window b m s = window b' m s := by
  refine Nat.eq_of_testBit_eq fun j => ?_
  by_cases hj : j < s
  · simp [hj, h j hj]
  · simp [hj]

/-- The lower bits of a window. -/
theorem window_mod (b : Nat → Bool) (m s t : Nat) : window b m s % 2 ^ t = window b m (min t s) := by
  refine Nat.eq_of_testBit_eq fun j => ?_
  simp [Bool.and_assoc]

/-- The upper bits of a window. -/
theorem window_shiftRight (h : t ≤ s) : window b m s >>> t = window b (m + t) (s - t) := by
  refine Nat.eq_of_testBit_eq fun j => ?_
  have hlt : t + j < s ↔ j < s - t := by omega
  simp [hlt, Nat.add_assoc]

/-- Two windows, one behind the other. -/
theorem window_or_shiftLeft (b : Nat → Bool) (m s t : Nat) : window b m s ||| window b (m + s) t <<< s = window b m (s + t) := by
  refine Nat.eq_of_testBit_eq fun j => ?_
  rw [Nat.testBit_or, Nat.testBit_shiftLeft]
  by_cases hj : j < s
  · have hlt : j < s + t := by omega
    simp [hj, hlt]
  · have hge : s ≤ j := by omega
    have hlt : j - s < t ↔ j < s + t := by omega
    have hplace : m + s + (j - s) = m + j := by omega
    simp [hj, hge, hlt, hplace]

/-- Of a window that is moved to the end of a word, the word keeps the lower bits. -/
theorem window_shiftLeft_mod {w : Nat} (b : Nat → Bool) (m s : Nat) (h : t ≤ w) :
    window b m s <<< (w - t) % 2 ^ w = window b m (min t s) <<< (w - t) := by
  refine Nat.eq_of_testBit_eq fun j => ?_
  rw [Nat.testBit_mod_two_pow, Nat.testBit_shiftLeft, Nat.testBit_shiftLeft]
  by_cases hj : w - t ≤ j
  · have hlt : j - (w - t) < t ↔ j < w := by omega
    simp [hj, hlt, Bool.and_assoc]
  · simp [hj]

end Window

/-! ## A stream of numbers -/

/-- The bits of words, one word after the other. -/
def bitsOf (w : Nat) (W : Nat → Nat) : Nat → Bool := fun m => (W (m / w)).testBit (m % w)

/-- The numbers are the windows they make. -/
theorem window_bitsOf {w : Nat} {W : Nat → Nat} {g : Nat} (hW : W g < 2 ^ w) : window (bitsOf w W) (w * g) w = W g := by
  refine Nat.eq_of_testBit_eq fun j => ?_
  rw [testBit_window, bitsOf]
  by_cases hj : j < w
  · have hpos : 0 < w := by omega
    rw [Nat.mul_add_div hpos, Nat.div_eq_of_lt hj, Nat.mul_add_mod, Nat.mod_eq_of_lt hj]
    simp [hj]
  · have hbig : W g < 2 ^ j := Nat.lt_of_lt_of_le hW (Nat.pow_le_pow_right (by decide) (Nat.le_of_not_lt hj))
    rw [Nat.testBit_lt_two_pow hbig]
    simp [hj]

/-! ## Words -/

/-- Bits that are moved up and stay in the word. -/
theorem toNat_shiftLeft_of_lt {w : UInt32} {lo hi : Nat} (hw : w.toNat < 2 ^ lo) (hhi : hi < 32) (hfit : lo + hi ≤ 32) :
    (w <<< UInt32.ofNat hi).toNat = w.toNat <<< hi := by
  have hmod : (UInt32.ofNat hi).toNat % 32 = hi := by
    rw [UInt32.toNat_ofNat_of_lt' (show hi < 2 ^ 32 by omega), Nat.mod_eq_of_lt hhi]
  have hpow : w.toNat * 2 ^ hi < 2 ^ 32 := by
    calc w.toNat * 2 ^ hi < 2 ^ lo * 2 ^ hi := Nat.mul_lt_mul_of_pos_right hw (Nat.two_pow_pos hi)
      _ = 2 ^ (lo + hi) := (Nat.pow_add 2 lo hi).symm
      _ ≤ 2 ^ 32 := Nat.pow_le_pow_right (by decide) hfit
  rw [UInt32.toNat_shiftLeft, hmod, Nat.mod_eq_of_lt (by rwa [Nat.shiftLeft_eq])]

end BitWindow
