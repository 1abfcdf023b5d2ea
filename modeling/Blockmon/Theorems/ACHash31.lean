import Blockmon.ACHash31
import Blockmon.Lib.Bytes
import Blockmon.Lib.Mersenne

/-!
# What the affine hash computes

The reduction is one fold of the 64-bit value, with a mask that lacks two of its 31 bits. It is a reduction modulo `2 ^ 31 - 1` exactly for the
values whose fold has no carry and nothing in these bits. The loops over bytes add little-endian words.
-/

namespace Blockmon.ACHash31

/-- The little-endian words of a byte string; the last one may be short. -/
def words : List UInt8 → List Nat
  | b0 :: b1 :: b2 :: b3 :: bytes => Bytes.decode [b0, b1, b2, b3] :: words bytes
  | [] => []
  | bytes => [Bytes.decode bytes]

/-- The value that is hashed. -/
def affine (key a b : UInt32) : Nat := a.toNat * key.toNat + b.toNat

/-- What the header says of `compute(key, a, b)`. -/
def ReducesAt (h : ACHash31) (key a b : UInt32) : Prop :=
  (h.computeWith key a b).toNat ≡ affine key a b [MOD 2 ^ 31 - 1] ∧ (h.computeWith key a b).toNat < 2 ^ 31

/-- The digest of a byte string is the one of the sum of its words. -/
def DigestsWords (h : ACHash31) (bytes : List UInt8) : Prop :=
  h.compute bytes = Bytes.encode 4 (h.computeKey (UInt32.ofNat (words bytes).sum)).toNat

/-! ## The reduction -/

section Reduction

variable (h : ACHash31) (key a b : UInt32)

/-- `a*i+b` does not wrap in 64 bits. -/
theorem affine_lt : affine key a b < 2 ^ 64 := by
  have hkey := key.toNat_lt
  have ha := a.toNat_lt
  have hb := b.toNat_lt
  calc
    affine key a b ≤ (2 ^ 32 - 1) * (2 ^ 32 - 1) + (2 ^ 32 - 1) :=
      Nat.add_le_add (Nat.mul_le_mul (Nat.le_sub_one_of_lt ha) (Nat.le_sub_one_of_lt hkey)) (Nat.le_sub_one_of_lt hb)
    _ < 2 ^ 64 := by decide

/-- One fold leaves less than five times the modulus. -/
theorem fold_lt : Mersenne.fold 31 (affine key a b) < 2 ^ 31 * 5 := by
  have hlt := affine_lt key a b
  rw [Mersenne.fold]
  omega

/-- The 64-bit value is the exact one. -/
theorem toNat_affine : (a.toUInt64 * key.toUInt64 + b.toUInt64).toNat = affine key a b := by
  have hlt := affine_lt key a b
  rw [UInt64.toNat_add, UInt64.toNat_mul, Nat.mod_add_mod]
  exact Nat.mod_eq_of_lt hlt

/-- One fold and the mask; that the addition wraps does not show in the bits of the mask. -/
theorem toNat_computeWith : (h.computeWith key a b).toNat = Mersenne.fold 31 (affine key a b) &&& mod.toNat := by
  have hmask : mod.toNat < 2 ^ 31 := by decide
  have hland := Nat.and_lt_two_pow (Mersenne.fold 31 (affine key a b)) hmask
  have hshift : affine key a b >>> (UInt64.toNat 31 % 64) = affine key a b / 2 ^ 31 := Nat.shiftRight_eq_div_pow _ _
  rw [computeWith, h.SMOD_MOD_eq, UInt64.toNat_toUInt32, UInt64.toNat_and, UInt64.toNat_add, UInt64.toNat_shiftRight, toNat_affine,
    UInt32.toNat_toUInt64, hshift, Mersenne.mod_land (Nat.lt_of_lt_of_le hmask (by decide)), Mersenne.shift_add_land hmask]
  exact Nat.mod_eq_of_lt (Nat.lt_of_lt_of_le hland (by decide))

/-- The value has no bits above the 31st, whatever the mask leaves. -/
theorem computeWith_lt : (h.computeWith key a b).toNat < 2 ^ 31 := by
  rw [toNat_computeWith]
  exact Nat.and_lt_two_pow _ (by decide)

/-- The bits of 31 that the mask lacks. -/
theorem mask_testBit : ∀ i < 31, i ≠ 28 → i ≠ 30 → mod.toNat.testBit i = true := by decide

/-- The mask `0x2FFFFFFF` is `2^31 - 1` without the bits 28 and 30. -/
theorem land_mask_iff (s : Nat) : s &&& mod.toNat = s ↔ s < 2 ^ 31 ∧ s.testBit 28 = false ∧ s.testBit 30 = false := by
  rw [Mersenne.land_eq_self_iff]
  constructor
  · intro hbits
    refine ⟨Nat.lt_pow_two_of_testBit s fun i hi => ?_, ?_, ?_⟩
    · have hmask : mod.toNat.testBit i = false := Nat.testBit_lt_two_pow (Nat.lt_of_lt_of_le (by decide) (Nat.pow_le_pow_right (by decide) hi))
      exact Bool.eq_false_iff.mpr fun hs => by simp [hbits i hs] at hmask
    · exact Bool.eq_false_iff.mpr fun hs => absurd (hbits 28 hs) (by decide)
    · exact Bool.eq_false_iff.mpr fun hs => absurd (hbits 30 hs) (by decide)
  · rintro ⟨hlt, h28, h30⟩ i hi
    refine mask_testBit i (Nat.lt_of_not_le fun hle => ?_) ?_ ?_
    · rw [Nat.testBit_lt_two_pow (Nat.lt_of_lt_of_le hlt (Nat.pow_le_pow_right (by decide) hle))] at hi
      cases hi
    · rintro rfl
      simp [h28] at hi
    · rintro rfl
      simp [h30] at hi

/-- One fold and the mask reduce modulo `2^31 - 1` just when the folded value is below `2^31` and lacks the two bits. -/
theorem reducesAt_iff :
    ReducesAt h key a b ↔ Mersenne.fold 31 (affine key a b) < 2 ^ 31 ∧ (Mersenne.fold 31 (affine key a b)).testBit 28 = false ∧
      (Mersenne.fold 31 (affine key a b)).testBit 30 = false := by
  have hcarry : Mersenne.fold 31 (affine key a b) / 2 ^ 31 < mod.toNat :=
    Nat.lt_trans (Nat.div_lt_of_lt_mul (fold_lt key a b)) (by decide)
  rw [ReducesAt, and_iff_left (computeWith_lt h key a b), toNat_computeWith, ← land_mask_iff,
    ← Mersenne.land_modEq_iff (by decide) hcarry]
  exact ⟨fun hmod => hmod.trans (Mersenne.fold_modEq 31 _).symm, fun hmod => hmod.trans (Mersenne.fold_modEq 31 _)⟩

end Reduction

/-! ## Byte strings -/

namespace KeyInt

/-- What the two sums come to. -/
def total (s : KeyInt) : UInt32 := s.key_int + s.key_int_temp

/-- A byte of the key is added at its place in the current word. -/
theorem total_addByte (s : KeyInt) (i : Nat) (byte : UInt8) :
    (s.addByte i byte).total = s.total + byte.toUInt32 <<< UInt32.ofNat ((i &&& 0x3) <<< 3) := by
  rw [addByte]
  split
  · simp [total]
  · simp [total, UInt32.add_assoc]

/-- The place of a byte in its word, as a factor. -/
theorem toNat_shifted (i : Nat) (byte : UInt8) :
    (byte.toUInt32 <<< UInt32.ofNat ((i &&& 0x3) <<< 3)).toNat = byte.toNat * 256 ^ (i % 4) := by
  have hbyte := byte.toNat_lt
  have hand : i &&& 0x3 = i % 4 := Nat.and_two_pow_sub_one_eq_mod i 2
  rw [hand, UInt32.toNat_shiftLeft, UInt8.toNat_toUInt32, Nat.shiftLeft_eq, Nat.shiftLeft_eq]
  have hlt := Nat.mod_lt i (show 0 < 4 by decide)
  generalize i % 4 = j at hlt ⊢
  have hcases : j = 0 ∨ j = 1 ∨ j = 2 ∨ j = 3 := by omega
  rcases hcases with rfl | rfl | rfl | rfl <;> simp <;> omega

/-- The addition of a byte is one modulo `2^32`. -/
theorem toNat_total_addByte (s : KeyInt) (i : Nat) (byte : UInt8) :
    (s.addByte i byte).total.toNat = (s.total.toNat + byte.toNat * 256 ^ (i % 4)) % 2 ^ 32 := by
  rw [total_addByte, UInt32.toNat_add, toNat_shifted]

/-- From the start of a word on, the passes add the words. -/
theorem toNat_total_addBytes : ∀ (bytes : List UInt8) (i : Nat) (s : KeyInt), i % 4 = 0 →
    (s.addBytes i bytes).total.toNat = (s.total.toNat + (words bytes).sum) % 2 ^ 32
  | [], i, s, _ => by
    have hlt := s.total.toNat_lt
    simp only [addBytes, words, List.sum_nil, Nat.add_zero]
    omega
  | [b0], i, s, hi => by
    simp only [addBytes, words, toNat_total_addByte, hi, Bytes.decode, List.sum_cons, List.sum_nil]
    omega
  | [b0, b1], i, s, hi => by
    have h1 : (i + 1) % 4 = 1 := by omega
    simp only [addBytes, words, toNat_total_addByte, hi, h1, Bytes.decode, List.sum_cons, List.sum_nil]
    omega
  | [b0, b1, b2], i, s, hi => by
    have h1 : (i + 1) % 4 = 1 := by omega
    have h2 : (i + 1 + 1) % 4 = 2 := by omega
    simp only [addBytes, words, toNat_total_addByte, hi, h1, h2, Bytes.decode, List.sum_cons, List.sum_nil]
    omega
  | b0 :: b1 :: b2 :: b3 :: bytes, i, s, hi => by
    have h1 : (i + 1) % 4 = 1 := by omega
    have h2 : (i + 1 + 1) % 4 = 2 := by omega
    have h3 : (i + 1 + 1 + 1) % 4 = 3 := by omega
    simp only [addBytes, words]
    rw [toNat_total_addBytes bytes (i + 1 + 1 + 1 + 1) _ (by omega)]
    simp only [toNat_total_addByte, hi, h1, h2, h3, Bytes.decode, List.sum_cons]
    omega

end KeyInt

/-- The integer of a key is the sum of its words, modulo `2^32`. -/
theorem addKey_eq (key_int : UInt32) (key : List UInt8) : addKey key_int key = UInt32.ofNat (key_int.toNat + (words key).sum) := by
  have htotal := KeyInt.toNat_total_addBytes key 0 ⟨key_int, 0⟩ rfl
  have hstart : (KeyInt.mk key_int 0).total = key_int := UInt32.add_zero key_int
  rw [hstart] at htotal
  refine UInt32.toNat_inj.mp ?_
  rw [UInt32.toNat_ofNat']
  exact htotal

/-- The output is written byte by byte, the lowest first. -/
theorem writeOut_eq (n : Nat) (out : UInt32) : writeOut n out = Bytes.encode n out.toNat := by
  induction n generalizing out with
  | zero => rfl
  | succ n ih =>
    rw [writeOut, ih, Bytes.encode]
    congr 1
    · refine UInt8.toNat_inj.mp ?_
      have hand := Nat.and_two_pow_sub_one_eq_mod (out.toNat % 256) 8
      simpa using hand
    · rw [UInt32.toNat_shiftRight, Nat.shiftRight_eq_div_pow]
      rfl

/-- What is digested is the sum of the words of the bytes. -/
theorem digestsWords (h : ACHash31) (bytes : List UInt8) : DigestsWords h bytes := by
  rw [DigestsWords, compute, addKey_eq, writeOut_eq]
  simp only [UInt32.toNat_zero, Nat.zero_add]
  rfl

/-- The authentication code is the digest of the words of the key and of the input. -/
theorem computeMac_eq (h : ACHash31) (key input : List UInt8) :
    h.computeMac key input = Bytes.encode 4 (h.computeKey (UInt32.ofNat ((words key).sum + (words input).sum))).toNat := by
  have hkey := addKey_eq 0 key
  simp only [UInt32.toNat_zero, Nat.zero_add] at hkey
  rw [computeMac, hkey, addKey_eq, writeOut_eq, UInt32.ofNat_add, UInt32.ofNat_toNat, ← UInt32.ofNat_add]
  rfl

/-! ## The results -/

/-- The class computes `(a*i+b) mod (2^31 - 1)` just for the keys whose folded value passes the mask unchanged. -/
theorem universal_iff (h : ACHash31) (key a b : UInt32) (bytes : List UInt8) :
    (ReducesAt h key a b ∧ DigestsWords h bytes) ↔
      Mersenne.fold 31 (affine key a b) < 2 ^ 31 ∧ (Mersenne.fold 31 (affine key a b)).testBit 28 = false ∧
        (Mersenne.fold 31 (affine key a b)).testBit 30 = false := by
  rw [and_iff_left (digestsWords h bytes), reducesAt_iff]

/-- The key 2 ^ 28, multiplied by one, is hashed to zero. -/
theorem not_reducesAt_bit : ¬ReducesAt (new 1 0) 0x10000000 1 0 := by
  rw [ReducesAt]
  decide

end Blockmon.ACHash31
