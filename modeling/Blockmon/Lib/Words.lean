import Blockmon.Lib.Bytes

/-!
# Words in wider words

A computation on words of `v` bits can be done in words of `w` bits, with anything in the upper bits, as long as whatever moves bits
down takes the upper bits away first. `BitVec.setWidth v` then carries each operation to that on the narrow words.
-/

namespace Words

variable {v w n : Nat}

/-- The lower bits that a mask leaves. -/
theorem toNat_and_mask (x : BitVec w) (hv : v ≤ w) : (x &&& BitVec.ofNat w (2 ^ v - 1)).toNat = x.toNat % 2 ^ v := by
  have hlt : 2 ^ v - 1 < 2 ^ w := by
    have hpos := Nat.two_pow_pos v
    have hle := Nat.pow_le_pow_right (show 0 < 2 by decide) hv
    omega
  rw [BitVec.toNat_and, BitVec.toNat_ofNat, Nat.mod_eq_of_lt hlt, Nat.and_two_pow_sub_one_eq_mod]

/-- The mask of the low bits cuts them off. -/
theorem and_mask (x : BitVec w) (hv : v ≤ w) : x &&& BitVec.ofNat w (2 ^ v - 1) = (x.setWidth v).setWidth w := by
  refine BitVec.eq_of_toNat_eq ?_
  have hlt : x.toNat % 2 ^ v < 2 ^ w := Nat.lt_of_le_of_lt (Nat.mod_le _ _) x.isLt
  rw [toNat_and_mask x hv, BitVec.toNat_setWidth, BitVec.toNat_setWidth, Nat.mod_eq_of_lt hlt]

/-- A rotation to the left, put together of two shifts. -/
theorem setWidth_rotateLeft (x : BitVec w) (hv : v ≤ w) (hn : n < v) :
    (x <<< n ||| (x &&& BitVec.ofNat w (2 ^ v - 1)) >>> (v - n)).setWidth v = (x.setWidth v).rotateLeft n := by
  rw [and_mask x hv]
  refine BitVec.eq_of_getLsbD_eq fun i hi => ?_
  have hmod : n % v = n := Nat.mod_eq_of_lt hn
  simp only [BitVec.getLsbD_setWidth, BitVec.getLsbD_or, BitVec.getLsbD_shiftLeft, BitVec.getLsbD_ushiftRight,
    BitVec.getLsbD_rotateLeft, hmod]
  by_cases h : i < n
  · have hup : v - n + i < v := by omega
    simp [h, hi, hup]
    omega
  · have hup : ¬ v - n + i < v := by omega
    have hdown : i - n < v := by omega
    have hwide : i < w := by omega
    simp [h, hi, hup, hdown, hwide]

/-- A rotation to the right. -/
theorem setWidth_rotateRight (x : BitVec w) (hv : v ≤ w) (hpos : 0 < n) (hn : n < v) :
    ((x &&& BitVec.ofNat w (2 ^ v - 1)) >>> n ||| x <<< (v - n)).setWidth v = (x.setWidth v).rotateRight n := by
  have hback : v - (v - n) = n := by omega
  have hleft := setWidth_rotateLeft x hv (show v - n < v by omega)
  rw [hback, BitVec.or_comm] at hleft
  rw [hleft, BitVec.rotateLeft_def, BitVec.rotateRight_def, Nat.mod_eq_of_lt hn, Nat.mod_eq_of_lt (by omega), hback, BitVec.or_comm]

/-- A shift to the right. -/
theorem setWidth_ushiftRight (x : BitVec w) (hv : v ≤ w) (n : Nat) :
    ((x &&& BitVec.ofNat w (2 ^ v - 1)) >>> n).setWidth v = x.setWidth v >>> n := by
  rw [and_mask x hv]
  refine BitVec.eq_of_getLsbD_eq fun i hi => ?_
  simp only [BitVec.getLsbD_setWidth, BitVec.getLsbD_ushiftRight]
  by_cases h : n + i < v
  · have hwide : n + i < w := by omega
    simp [hi, h, hwide]
  · simp [h]

/-- The rotation of a word that has no upper bits. -/
theorem rotateRight_eq (x : BitVec w) (hn : n < w) : x >>> n ||| x <<< (w - n) = x.rotateRight n := by
  rw [BitVec.rotateRight_def, Nat.mod_eq_of_lt hn]

/-! ## Selections -/

section Bitwise

variable (x y z : BitVec w)

/-- The bits of `y` where `x` has one, and those of `z` elsewhere. -/
theorem select_eq : z ^^^ (x &&& (y ^^^ z)) = (x &&& y) ^^^ (~~~x &&& z) := by
  refine BitVec.eq_of_getLsbD_eq fun i hi => ?_
  simp only [BitVec.getLsbD_xor, BitVec.getLsbD_and, BitVec.getLsbD_not, hi, decide_true, Bool.true_and]
  cases x.getLsbD i <;> cases y.getLsbD i <;> cases z.getLsbD i <;> rfl

/-- A choice between two words, in two ways. -/
theorem select_or : z ^^^ (x &&& (y ^^^ z)) = (x &&& y) ||| (~~~x &&& z) := by
  refine BitVec.eq_of_getLsbD_eq fun i hi => ?_
  simp only [BitVec.getLsbD_xor, BitVec.getLsbD_and, BitVec.getLsbD_or, BitVec.getLsbD_not, hi, decide_true, Bool.true_and]
  cases x.getLsbD i <;> cases y.getLsbD i <;> cases z.getLsbD i <;> rfl

/-- The bits that two of three words have. -/
theorem majority_or : (x &&& y) ||| (z &&& (x ||| y)) = (x &&& y) ||| (x &&& z) ||| (y &&& z) := by
  refine BitVec.eq_of_getLsbD_eq fun i _ => ?_
  simp only [BitVec.getLsbD_and, BitVec.getLsbD_or]
  cases x.getLsbD i <;> cases y.getLsbD i <;> cases z.getLsbD i <;> rfl

/-- A majority of three words, in two ways. -/
theorem majority_eq : (x &&& y) ||| (z &&& (x ||| y)) = (x &&& y) ^^^ (x &&& z) ^^^ (y &&& z) := by
  refine BitVec.eq_of_getLsbD_eq fun i _ => ?_
  simp only [BitVec.getLsbD_xor, BitVec.getLsbD_and, BitVec.getLsbD_or]
  cases x.getLsbD i <;> cases y.getLsbD i <;> cases z.getLsbD i <;> rfl

end Bitwise

/-! ## Bytes of words -/

/-- The byte that begins at a bit. -/
def byteAt (x : BitVec w) (s : Nat) : UInt8 := UInt8.ofNat (x.toNat >>> s % 256)

/-- A byte of a word. -/
theorem byteAt_eq (x : BitVec w) (k : Nat) : byteAt x (8 * k) = UInt8.ofNat (x.toNat / 256 ^ k % 256) := by
  rw [byteAt, Nat.shiftRight_eq_div_pow, Nat.pow_mul]

/-- A word from its bytes, the highest one first. -/
def ofBytes (w : Nat) (bs : List UInt8) : BitVec w := bs.foldl (fun x b => x <<< 8 ||| BitVec.ofNat w b.toNat) 0#w

/-- One more byte is the lowest one. -/
theorem ofBytes_snoc (w : Nat) (bs : List UInt8) (b : UInt8) : ofBytes w (bs ++ [b]) = ofBytes w bs <<< 8 ||| BitVec.ofNat w b.toNat := by
  rw [ofBytes, List.foldl_append]
  rfl

private theorem toNat_shift_or {x y : BitVec w} (hx : x.toNat * 256 < 2 ^ w) (hy : y.toNat < 256) :
    (x <<< 8 ||| y).toNat = y.toNat + 256 * x.toNat := by
  rw [BitVec.toNat_or, BitVec.toNat_shiftLeft, Nat.shiftLeft_eq, Nat.mod_eq_of_lt hx, ← Nat.shiftLeft_eq x.toNat 8,
    ← Nat.shiftLeft_add_eq_or_of_lt (show y.toNat < 2 ^ 8 from hy), Nat.shiftLeft_eq]
  omega

/-- By induction on the bytes from the last one on. -/
theorem toNat_ofBytes (bs : List UInt8) (h : 8 * bs.length ≤ w) : (ofBytes w bs).toNat = Bytes.decode bs.reverse := by
  induction bs using List.reverseRecOn with
  | nil => simp [ofBytes, Bytes.decode]
  | append_singleton bs b ih =>
    rw [List.length_append, List.length_singleton] at h
    have ih := ih (by omega)
    have hpow : 256 ^ (bs.length + 1) ≤ 2 ^ w := by
      have heq : 256 ^ (bs.length + 1) = 2 ^ (8 * (bs.length + 1)) := (Nat.pow_mul 2 8 (bs.length + 1)).symm
      rw [heq]
      exact Nat.pow_le_pow_right (by decide) h
    have hfront : (ofBytes w bs).toNat < 256 ^ bs.length := by
      have hlt := Bytes.decode_lt bs.reverse
      rwa [List.length_reverse, ← ih] at hlt
    have hb : b.toNat < 256 := b.toNat_lt
    have hbyte : (BitVec.ofNat w b.toNat).toNat = b.toNat := by
      have hone : 256 ≤ 256 ^ (bs.length + 1) := by
        rw [Nat.pow_succ]
        exact Nat.le_mul_of_pos_left _ (Nat.pow_pos (by decide))
      rw [BitVec.toNat_ofNat, Nat.mod_eq_of_lt (by omega)]
    rw [Nat.pow_succ] at hpow
    rw [ofBytes_snoc, toNat_shift_or (by omega) (by rw [hbyte]; exact hb), hbyte, ih, List.reverse_append, List.reverse_singleton,
      List.singleton_append, Bytes.decode]

/-- The order of a disjunction does not matter. -/
theorem or_reverse (a b c d : BitVec w) : a ||| b ||| c ||| d = d ||| c ||| b ||| a := by ac_rfl

/-! ## Rounds in groups -/

/-- `n` groups of `k` rounds each. -/
theorem foldl_range_mul {σ : Type} (f : σ → Nat → σ) (k n : Nat) (s : σ) :
    (List.range (n * k)).foldl f s = (List.range n).foldl (fun s g => (List.range k).foldl (fun s j => f s (k * g + j)) s) s := by
  induction n with
  | zero => rw [Nat.zero_mul, List.range_zero, List.foldl_nil, List.foldl_nil]
  | succ n ih =>
    rw [Nat.add_mul, Nat.one_mul, List.range_add, List.foldl_append, ih, List.range_succ, List.foldl_append, List.foldl_map,
      Nat.mul_comm n k]
    rfl

/-- Two folds over the same numbers that agree under a map of their states. -/
theorem foldl_range_map {σ τ : Type} {f : σ → Nat → σ} {g : τ → Nat → τ} (h : σ → τ) (n : Nat)
    (hstep : ∀ s, ∀ i < n, h (f s i) = g (h s) i) (s : σ) : h ((List.range n).foldl f s) = (List.range n).foldl g (h s) := by
  induction n with
  | zero => rfl
  | succ n ih =>
    have ih := ih fun s i hi => hstep s i (by omega)
    rw [List.range_succ, List.foldl_append, List.foldl_append, List.foldl_cons, List.foldl_nil, List.foldl_cons, List.foldl_nil,
      hstep _ _ (by omega), ih]

end Words
