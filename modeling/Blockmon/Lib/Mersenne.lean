import Mathlib.Algebra.Order.Ring.Int
import Mathlib.Data.Nat.ModEq

/-!
# Reduction modulo `2 ^ k - 1`

A number is congruent to the sum of its low `k` bits and of what is above them. A mask that drops some of the bits afterwards keeps the
congruence only where there was nothing to drop.
-/

namespace Mersenne

variable {k m s x : Nat}

/-- What is above the low bits, added to them. -/
def fold (k x : Nat) : Nat := x / 2 ^ k + x % 2 ^ k

/-- A fold keeps the remainder modulo `2^k - 1`. -/
theorem fold_modEq (k x : Nat) : fold k x ≡ x [MOD 2 ^ k - 1] := by
  have hpos := Nat.two_pow_pos k
  have hone : 1 ≡ 2 ^ k [MOD 2 ^ k - 1] := (Nat.modEq_iff_dvd' hpos).mpr (dvd_refl _)
  calc
    fold k x = 1 * (x / 2 ^ k) + x % 2 ^ k := by rw [fold, Nat.one_mul]
    _ ≡ 2 ^ k * (x / 2 ^ k) + x % 2 ^ k [MOD 2 ^ k - 1] := (hone.mul_right _).add_right _
    _ = x := Nat.div_add_mod x (2 ^ k)

/-! ## Masks -/

/-- Two words, by what they have in common. -/
theorem or_add_and (x y : Nat) : (x ||| y) + (x &&& y) = x + y := by
  induction x using Nat.strongRecOn generalizing y with
  | ind x ih =>
    rcases Nat.eq_zero_or_pos x with rfl | hx
    · simp
    · have hhalf := ih (x / 2) (by omega) (y / 2)
      have hlast : (x ||| y) % 2 + (x &&& y) % 2 = x % 2 + y % 2 := by
        have hor := Nat.or_mod_two_pow (a := x) (b := y) (n := 1)
        have hand := Nat.and_mod_two_pow (a := x) (b := y) (n := 1)
        rw [pow_one] at hor hand
        rw [hor, hand]
        rcases Nat.mod_two_eq_zero_or_one x with h | h <;> rcases Nat.mod_two_eq_zero_or_one y with h' | h' <;> simp [h, h']
      rw [← Nat.or_div_two, ← Nat.and_div_two] at hhalf
      omega

/-- A mask of `k` bits does not see the others. -/
theorem mod_land (hm : m < 2 ^ k) (x : Nat) : x % 2 ^ k &&& m = x &&& m := by
  rw [← Nat.mod_eq_of_lt (Nat.and_lt_two_pow x hm), Nat.and_mod_two_pow, Nat.mod_eq_of_lt hm]

/-- The carry of the sum does not reach the mask. -/
theorem shift_add_land (hm : m < 2 ^ k) (x : Nat) : (x / 2 ^ k + x) &&& m = fold k x &&& m := by
  rw [← mod_land hm (x / 2 ^ k + x), ← mod_land hm (fold k x), fold, Nat.add_mod_mod]

/-- A mask takes no more than what it lacks. -/
theorem le_land_add (hs : s < 2 ^ k) (hm : m < 2 ^ k) : s ≤ (s &&& m) + (2 ^ k - 1 - m) := by
  have hsum := or_add_and s m
  have hor := Nat.or_lt_two_pow hs hm
  omega

/-- A mask keeps the remainder just when it changes nothing. -/
theorem land_modEq_iff (hm : m < 2 ^ k) (hs : s / 2 ^ k < m) : (s &&& m) ≡ s [MOD 2 ^ k - 1] ↔ s &&& m = s := by
  constructor
  · intro h
    have hland := mod_land hm s
    have hlow : s % 2 ^ k &&& m ≤ s % 2 ^ k := Nat.and_le_left
    have hlost := le_land_add (Nat.mod_lt s (Nat.two_pow_pos k)) hm
    rw [hland] at hlow hlost
    -- What the mask drops, with the high bits folded, is a multiple of the modulus below the modulus.
    have hdrop : ∀ q, q = s / 2 ^ k → q + s % 2 ^ k - (s &&& m) = 0 := by
      intro q hq
      have hfold : fold k s = q + s % 2 ^ k := by rw [hq, fold]
      have hdvd := (Nat.modEq_iff_dvd' (by omega)).mp (hfold ▸ h.trans (fold_modEq k s).symm)
      refine Nat.eq_zero_of_dvd_of_lt hdvd ?_
      rw [← hq] at hs
      omega
    have hzero := hdrop _ rfl
    have hhigh : s / 2 ^ k = 0 := by
      generalize s / 2 ^ k = q at hzero ⊢
      omega
    have hmod := Nat.mod_eq_of_lt ((Nat.div_eq_zero_iff_lt (Nat.two_pow_pos k)).mp hhigh)
    rw [hhigh, hmod, Nat.zero_add] at hzero
    have hle : s &&& m ≤ s := Nat.and_le_left
    omega
  · intro h
    rw [h]

/-- A mask changes nothing just when it has every bit. -/
theorem land_eq_self_iff : s &&& m = s ↔ ∀ i, s.testBit i = true → m.testBit i = true := by
  constructor
  · intro h i hi
    rw [← h, Nat.testBit_and, Bool.and_eq_true] at hi
    exact hi.2
  · intro h
    refine Nat.eq_of_testBit_eq fun i => ?_
    rw [Nat.testBit_and]
    rcases hi : s.testBit i with _ | _
    · rfl
    · rw [h i hi, Bool.and_self]

end Mersenne
