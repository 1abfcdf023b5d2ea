import Mathlib.Algebra.Order.Ring.Int
import Mathlib.Data.Int.Log
import Mathlib.Data.Rat.Floor
import Mathlib.Tactic.Linarith

/-!
# Rounding to a number of binary digits

The nearest number with `p` binary digits, and of two that are as near the one with the even last digit. Numbers are rational, and their exponents
have no bounds. Whole numbers of `p` digits are kept, and rounding does not carry the quotient of two of them to the next whole number.
-/

namespace Rounding

/-! ## To a whole number -/

/-- The nearest integer, the even one of two. -/
def roundEven (x : ℚ) : ℤ :=
  if 2 * (x - ⌊x⌋) < 1 then ⌊x⌋
  else if 1 < 2 * (x - ⌊x⌋) then ⌊x⌋ + 1
  else if 2 ∣ ⌊x⌋ then ⌊x⌋
  else ⌊x⌋ + 1

/-- It is not below the floor. -/
theorem floor_le_roundEven (x : ℚ) : ⌊x⌋ ≤ roundEven x := by
  unfold roundEven
  split_ifs <;> omega

/-- It is a half above at most. -/
theorem roundEven_le (x : ℚ) : (roundEven x : ℚ) ≤ x + 1 / 2 := by
  have hfloor := Int.floor_le x
  unfold roundEven
  split_ifs with hlow hhigh heven
  · linarith
  · push_cast
    linarith
  · linarith
  · push_cast
    linarith

@[simp] theorem roundEven_intCast (n : ℤ) : roundEven n = n := by simp [roundEven]

/-! ## To `p` digits -/

variable {p : ℕ} {x : ℚ}

/-- The last of the `p` digits of a number. -/
def unit (p : ℕ) (x : ℚ) : ℚ := 2 ^ (Int.log 2 |x| + 1 - p)

/-- The nearest number with `p` binary digits. -/
def round (p : ℕ) (x : ℚ) : ℚ := roundEven (x / unit p x) * unit p x

/-- The unit of the last digit is positive. -/
theorem unit_pos (p : ℕ) (x : ℚ) : 0 < unit p x := zpow_pos (by norm_num) _

@[simp] theorem round_zero (p : ℕ) : round p 0 = 0 := by
  have h := roundEven_intCast 0
  rw [Int.cast_zero] at h
  simp [round, h]

/-- A half of a unit is added at most. -/
theorem round_le (p : ℕ) (x : ℚ) : round p x ≤ x + unit p x / 2 := by
  have hpos := unit_pos p x
  calc
    round p x ≤ (x / unit p x + 1 / 2) * unit p x := mul_le_mul_of_nonneg_right (roundEven_le _) hpos.le
    _ = x + unit p x / 2 := by
      rw [add_mul, div_mul_cancel₀ _ hpos.ne']
      ring

/-- The unit of a number below `2 ^ p` divides 1. -/
theorem exists_mul_unit (hx : x ≠ 0) (hlt : |x| < 2 ^ p) : ∃ n : ℕ, (2 ^ n : ℚ) * unit p x = 1 := by
  have habs := abs_pos.mpr hx
  have hlog := Int.zpow_log_le_self (b := 2) (by decide) habs
  have hexp : Int.log 2 |x| < p := by
    have hlt' : ((2 : ℕ) : ℚ) ^ Int.log 2 |x| < ((2 : ℕ) : ℚ) ^ (p : ℤ) := by
      refine lt_of_le_of_lt hlog ?_
      rw [zpow_natCast]
      exact_mod_cast hlt
    exact (zpow_lt_zpow_iff_right₀ (by norm_num)).mp hlt'
  refine ⟨(p - 1 - Int.log 2 |x|).toNat, ?_⟩
  have hzero : (p : ℤ) - 1 - Int.log 2 |x| + (Int.log 2 |x| + 1 - p) = 0 := by ring
  rw [unit, ← zpow_natCast, ← zpow_add₀ (by norm_num), Int.toNat_of_nonneg (by omega), hzero, zpow_zero]

/-- A multiple of the unit is not rounded, nor is a larger number rounded below it. -/
theorem le_round {m : ℤ} (hx : x ≠ 0) (hlt : |x| < 2 ^ p) (hm : (m : ℚ) ≤ x) : (m : ℚ) ≤ round p x := by
  obtain ⟨n, hn⟩ := exists_mul_unit hx hlt
  have hpos := unit_pos p x
  have hdiv : x / unit p x = x * 2 ^ n := by
    rw [div_eq_iff hpos.ne', mul_assoc, hn, mul_one]
  have hfloor : m * 2 ^ n ≤ ⌊x / unit p x⌋ := by
    rw [Int.le_floor, hdiv]
    push_cast
    exact mul_le_mul_of_nonneg_right hm (by positivity)
  have hround : ((m * 2 ^ n : ℤ) : ℚ) ≤ roundEven (x / unit p x) := by
    exact_mod_cast hfloor.trans (floor_le_roundEven _)
  calc
    (m : ℚ) = (m * 2 ^ n : ℤ) * unit p x := by
      push_cast
      rw [mul_assoc, hn, mul_one]
    _ ≤ round p x := mul_le_mul_of_nonneg_right hround hpos.le

/-- Small integers are exact. -/
theorem round_intCast {m : ℤ} (hlt : |m| < 2 ^ p) : round p m = m := by
  rcases eq_or_ne m 0 with rfl | hm
  · simp
  · have hm' : (m : ℚ) ≠ 0 := by exact_mod_cast hm
    obtain ⟨n, hn⟩ := exists_mul_unit hm' (by exact_mod_cast hlt)
    have hpos := unit_pos p (m : ℚ)
    have hdiv : (m : ℚ) / unit p m = (m * 2 ^ n : ℤ) := by
      rw [div_eq_iff hpos.ne']
      push_cast
      rw [mul_assoc, hn, mul_one]
    rw [round, hdiv, roundEven_intCast]
    push_cast
    rw [mul_assoc, hn, mul_one]

/-- The unit is small against the number. -/
theorem unit_le (hx : 0 < x) : unit p x * 2 ^ p ≤ 2 * x := by
  have hlog := Int.zpow_log_le_self (b := 2) (by decide) hx
  rw [Nat.cast_ofNat] at hlog
  have hunit : unit p x * 2 ^ p = 2 ^ Int.log 2 x * 2 := by
    rw [unit, abs_of_pos hx, ← zpow_natCast, ← zpow_add₀ (by norm_num), sub_add_cancel, zpow_add_one₀ (by norm_num)]
  linarith

/-- The floor of a rounded quotient is the exact one. -/
theorem floor_round_div {a b : ℕ} (ha : a < 2 ^ p) (hb : 0 < b) : ⌊round p (a / b)⌋ = (a / b : ℕ) := by
  rcases Nat.eq_zero_or_pos a with rfl | hpos
  · simp
  · have hb' : (0 : ℚ) < b := by exact_mod_cast hb
    have hb1 : (1 : ℚ) ≤ b := by exact_mod_cast hb
    have ha' : (a : ℚ) < 2 ^ p := by exact_mod_cast ha
    have hx : (0 : ℚ) < a / b := div_pos (by exact_mod_cast hpos) hb'
    have hlt : |(a : ℚ) / b| < 2 ^ p := by
      rw [abs_of_pos hx]
      exact lt_of_le_of_lt (div_le_self (Nat.cast_nonneg a) hb1) ha'
    rw [Int.floor_eq_iff]
    constructor
    · refine le_round hx.ne' hlt ?_
      rw [le_div_iff₀ hb']
      exact_mod_cast Nat.div_mul_le_self a b
    · -- Half a unit is less than what is missing to the next multiple of `1 / b`.
      have hunit : unit p ((a : ℚ) / b) < 2 / b := by
        rw [lt_div_iff₀ hb']
        have hmul : unit p ((a : ℚ) / b) * b * 2 ^ p < 2 * 2 ^ p := by
          calc
            unit p ((a : ℚ) / b) * b * 2 ^ p = unit p ((a : ℚ) / b) * 2 ^ p * b := by ring
            _ ≤ 2 * (a / b) * b := mul_le_mul_of_nonneg_right (unit_le hx) hb'.le
            _ = 2 * a := by
              rw [mul_assoc, div_mul_cancel₀ _ hb'.ne']
            _ < 2 * 2 ^ p := by linarith
        exact lt_of_mul_lt_mul_right hmul (by positivity)
      have hnext : ((a + 1 : ℕ) : ℚ) / b ≤ (a / b : ℕ) + 1 := by
        rw [div_le_iff₀ hb']
        have hnat : a + 1 ≤ (a / b + 1) * b := Nat.lt_mul_of_div_lt (Nat.lt_succ_self _) hb
        exact_mod_cast hnat
      calc
        round p (a / b) ≤ a / b + unit p (a / b) / 2 := round_le p _
        _ < a / b + 2 / b / 2 := by linarith
        _ = (a + 1 : ℕ) / b := by
          push_cast
          ring
        _ ≤ (a / b : ℕ) + 1 := hnext

end Rounding

/-!
## From one unit to another

A number of parts out of `b`, converted to parts out of `a` with what is left over dropped, and back.
-/

namespace FixedPoint

variable {a b m m' : Nat}

/-- A multiplication and a division of integers. -/
def scale (a b m : Nat) : Nat := m * a / b

/-- It is the floor of the exact quotient. -/
theorem floor_scale (a b m : Nat) : ⌊(m : ℚ) * a / b⌋ = scale a b m := by
  have hcast : (m : ℚ) * a / b = ((m * a : ℕ) : ℚ) / (b : ℕ) := by rw [Nat.cast_mul]
  rw [hcast, Rat.floor_natCast_div_natCast, scale, Int.natCast_ediv]

@[simp] theorem scale_zero (a b : Nat) : scale a b 0 = 0 := by simp [scale]

/-- It grows with the number. -/
theorem scale_mono (h : m ≤ m') : scale a b m ≤ scale a b m' := Nat.div_le_div_right (Nat.mul_le_mul_right a h)

/-- A finer unit in between makes no difference. -/
theorem scale_mul_div {c : Nat} (hc : 0 < c) : scale (a * c) b m / c = scale a b m := by
  rw [scale, Nat.div_div_eq_div_mul, ← Nat.mul_assoc, Nat.mul_div_mul_right _ _ hc, scale]

/-- Back and forth it does not grow. -/
theorem scale_scale_le (ha : 0 < a) : scale b a (scale a b m) ≤ m := by
  calc
    scale b a (scale a b m) ≤ m * a / a := Nat.div_le_div_right (Nat.div_mul_le_self (m * a) b)
    _ = m := Nat.mul_div_cancel m ha

/-- If the target has at least as many parts, the way back loses one at most. -/
theorem le_scale_scale (hb : 0 < b) (h : b ≤ a) : m ≤ scale b a (scale a b m) + 1 := by
  have ha : 0 < a := Nat.lt_of_lt_of_le hb h
  have hkept : m * a < m * a / b * b + b := by
    have hmod := Nat.mod_lt (m * a) hb
    have hdiv := Nat.div_add_mod' (m * a) b
    omega
  have hback : m * a / b * b < (scale b a (scale a b m) + 1) * a := Nat.lt_mul_of_div_lt (Nat.lt_succ_self _) ha
  have hlt : m * a < (scale b a (scale a b m) + 1 + 1) * a := by
    calc
      m * a < m * a / b * b + b := hkept
      _ ≤ (scale b a (scale a b m) + 1) * a + a := Nat.add_le_add (Nat.le_of_lt hback) h
      _ = (scale b a (scale a b m) + 1 + 1) * a := (Nat.succ_mul _ a).symm
  exact Nat.le_of_lt_succ (Nat.lt_of_mul_lt_mul_right hlt)

/-- Twice the parts make twice the number, and not the same. -/
theorem scale_lt_scale_two (hb : 0 < b) (h : b ≤ a) (hm : 0 < m) : scale a b m < scale (2 * a) b m := by
  have hone : 1 ≤ scale a b m := (Nat.le_div_iff_mul_le hb).mpr (Nat.mul_le_mul hm h)
  have htwo : 2 * scale a b m ≤ scale (2 * a) b m := by
    rw [scale, scale, Nat.mul_left_comm]
    exact Nat.mul_div_le_mul_div_assoc 2 (m * a) b
  omega

end FixedPoint
