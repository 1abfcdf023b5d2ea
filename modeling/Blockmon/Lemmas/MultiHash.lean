import Blockmon.Lib.BitWindow
import Blockmon.Lib.Exn
import Blockmon.MultiHash

/-!
# The words that are read and the bits that are taken

An array of bytes is a stream of bits, of each byte the lowest first. A word that is read is a window of it (`readWord_window`), a pass of the
loop takes the next window (`extract_window`), and the loop is the sequence of its passes (`extractLoop_ok`).
-/

namespace Blockmon.MultiHash

open BitWindow

/-! ## Reading -/

/-- The bits of a list of bytes. -/
def listBits (bytes : List UInt8) : Nat → Bool := bitsOf 8 fun i => (bytes.getD i 0).toNat

section Bytes

variable {n : Nat} (msgdig : Vector UInt8 n)

/-- The bits of a digest. -/
def bits : Nat → Bool := bitsOf 8 fun i => (msgdig.getD i 0).toNat

/-- A byte of the digest is a window of its bits. -/
theorem readByte_window {i : Nat} (h : i < n) : ∃ b, readByte msgdig i = .ok b ∧ b.toNat = window (bits msgdig) (8 * i) 8 := by
  refine ⟨msgdig[i], dif_pos h, ?_⟩
  have hget : msgdig.getD i 0 = msgdig[i] := by simp [Vector.getD, h]
  have hlt : (msgdig.getD i 0).toNat < 2 ^ 8 := UInt8.toNat_lt _
  rw [bits, window_bitsOf (W := fun i => (msgdig.getD i 0).toNat) hlt, hget]

/-- A byte at its place in a word. -/
theorem toNat_byte_shiftLeft (b : UInt8) {k : Nat} (h : k ≤ 24) : (b.toUInt32 <<< UInt32.ofNat k).toNat = b.toNat <<< k := by
  have hlt : b.toUInt32.toNat < 2 ^ 8 := by
    rw [UInt8.toNat_toUInt32]
    exact b.toNat_lt
  rw [toNat_shiftLeft_of_lt hlt (by omega) (by omega), UInt8.toNat_toUInt32]

/-- A word of the digest is a window of its bits. -/
theorem readWord_window {i : Nat} (h : i + 4 ≤ n) : ∃ w, readWord msgdig i = .ok w ∧ w.toNat = window (bits msgdig) (8 * i) 32 := by
  obtain ⟨b0, hread0, hb0⟩ := readByte_window msgdig (i := i) (by omega)
  obtain ⟨b1, hread1, hb1⟩ := readByte_window msgdig (i := i + 1) (by omega)
  obtain ⟨b2, hread2, hb2⟩ := readByte_window msgdig (i := i + 2) (by omega)
  obtain ⟨b3, hread3, hb3⟩ := readByte_window msgdig (i := i + 3) (by omega)
  refine ⟨b0.toUInt32 ||| b1.toUInt32 <<< 8 ||| b2.toUInt32 <<< 16 ||| b3.toUInt32 <<< 24, ?_, ?_⟩
  · rw [readWord, Exn.except_bind_of_ok hread0, Exn.except_bind_of_ok hread1, Exn.except_bind_of_ok hread2,
      Exn.except_bind_of_ok hread3]
  · have h1 : (b1.toUInt32 <<< 8).toNat = window (bits msgdig) (8 * i + 8) 8 <<< 8 := by
      rw [← hb1.trans (congrArg (window (bits msgdig) · 8) (Nat.mul_add 8 i 1))]
      exact toNat_byte_shiftLeft b1 (by decide)
    have h2 : (b2.toUInt32 <<< 16).toNat = window (bits msgdig) (8 * i + 16) 8 <<< 16 := by
      rw [← hb2.trans (congrArg (window (bits msgdig) · 8) (Nat.mul_add 8 i 2))]
      exact toNat_byte_shiftLeft b2 (by decide)
    have h3 : (b3.toUInt32 <<< 24).toNat = window (bits msgdig) (8 * i + 24) 8 <<< 24 := by
      rw [← hb3.trans (congrArg (window (bits msgdig) · 8) (Nat.mul_add 8 i 3))]
      exact toNat_byte_shiftLeft b3 (by decide)
    rw [UInt32.toNat_or, UInt32.toNat_or, UInt32.toNat_or, UInt8.toNat_toUInt32, hb0, h1, h2, h3, window_or_shiftLeft,
      window_or_shiftLeft, window_or_shiftLeft]

/-- Bytes are written where there is room. -/
theorem writeBytes_ok (i : Nat) (bytes : List UInt8) (h : i + bytes.length ≤ n) : ∃ msgdig', writeBytes msgdig i bytes = .ok msgdig' :=
  ⟨_, if_pos h⟩

variable {msgdig} {msgdig' : Vector UInt8 n}

/-- What a write leaves at a place. -/
theorem writeBytes_getD {i : Nat} {bytes : List UInt8} (h : writeBytes msgdig i bytes = .ok msgdig') (j : Nat) :
    msgdig'.getD j 0 = if i ≤ j ∧ j < i + bytes.length then bytes.getD (j - i) 0 else msgdig.getD j 0 := by
  rw [writeBytes] at h
  split at h
  case isFalse => cases h
  case isTrue hroom =>
    cases h
    by_cases hj : j < n
    · have hget : msgdig.getD j 0 = msgdig[j] := by simp [Vector.getD, hj]
      have hget' : (Vector.ofFn fun k : Fin n => if i ≤ k.val then bytes.getD (k - i) msgdig[k] else msgdig[k]).getD j 0 =
          if i ≤ j then bytes.getD (j - i) msgdig[j] else msgdig[j] := by simp [Vector.getD, hj]
      rw [hget', hget]
      by_cases hij : i ≤ j
      · by_cases hin : j < i + bytes.length
        · have hlt : j - i < bytes.length := by omega
          rw [if_pos hij, if_pos ⟨hij, hin⟩, List.getD_eq_getElem _ _ hlt, List.getD_eq_getElem _ _ hlt]
        · have hge : bytes.length ≤ j - i := by omega
          rw [if_pos hij, if_neg fun hand => hin hand.2, List.getD_eq_default _ _ hge]
      · rw [if_neg hij, if_neg fun hand => hij hand.1]
    · have hout : ¬(i ≤ j ∧ j < i + bytes.length) := by omega
      rw [if_neg hout]
      simp [Vector.getD, hj]

/-- As many bytes are read as asked for. -/
theorem readBytes_length {i len : Nat} {key : List UInt8} (h : readBytes msgdig i len = .ok key) : key.length = len := by
  rw [readBytes] at h
  split at h
  case isFalse => cases h
  case isTrue hroom =>
    cases h
    simp
    omega

/-- A key that lies in the array is read as it lies there. -/
theorem readBytes_ok {i : Nat} {key : List UInt8} (hroom : i + key.length ≤ n)
    (hkey : ∀ j < key.length, msgdig.getD (i + j) 0 = key.getD j 0) : readBytes msgdig i key.length = .ok key := by
  have hlist : (msgdig.toList.drop i).take key.length = key := by
    refine List.ext_getElem (by simp; omega) fun j _ hj => ?_
    have hget := hkey j hj
    rw [List.getD_eq_getElem _ _ hj] at hget
    rw [← hget]
    simp [Vector.getD, show i + j < n by omega]
  rw [readBytes, if_pos hroom, hlist]

/-- The bits of an array that begins with these bytes. -/
theorem window_bits {bytes : Nat → UInt8} {count : Nat} (hbegin : ∀ j < count, msgdig.getD j 0 = bytes j) {m s : Nat}
    (hin : m + s ≤ 8 * count) : window (bits msgdig) m s = window (bitsOf 8 fun j => (bytes j).toNat) m s := by
  refine window_congr fun j hj => ?_
  have hbyte : (m + j) / 8 < count := by omega
  rw [bits, bitsOf, bitsOf, hbegin _ hbyte]

end Bytes

/-- An array of zeros has zeros only. -/
theorem getD_replicate_zero (n g : Nat) : (Vector.replicate n (0 : UInt8)).getD g 0 = 0 := by
  by_cases hg : g < n <;> simp [Vector.getD, hg]

/-! ## The constructor -/

/-- The assertion about the number of values. -/
theorem assertEnough_ok {nhash shash : UInt32} {norep : Bool} (h : norep = true → shash < 32 ∧ nhash ≤ 1 <<< shash) :
    assertEnough nhash shash norep = .ok () := by
  rw [assertEnough]
  cases norep with
  | false => rfl
  | true =>
    obtain ⟨hshash, hnhash⟩ := h rfl
    rw [if_pos rfl, if_pos hshash, if_pos hnhash]

section Count

variable {hashdiglen nhash shash : UInt32}

/-- The number of the digests: the whole ones, and one more unless the word in which that is checked takes the bits for those of one digest. -/
theorem toNat_hashesToDoFor (hwidth : 8 * hashdiglen.toNat < 2 ^ 32) (bitneeded : UInt32) :
    (hashesToDoFor hashdiglen bitneeded).toNat =
      if bitneeded.toNat / (8 * hashdiglen.toNat) * bitneeded.toNat % 2 ^ 32 = 8 * hashdiglen.toNat then
        bitneeded.toNat / (8 * hashdiglen.toNat)
      else bitneeded.toNat / (8 * hashdiglen.toNat) + 1 := by
  have hdigest : (hashdiglen <<< 3).toNat = 8 * hashdiglen.toNat := by
    have hshift : (hashdiglen <<< 3).toNat = hashdiglen.toNat * 8 % 2 ^ 32 := by simp [Nat.shiftLeft_eq]
    rw [hshift, Nat.mul_comm, Nat.mod_eq_of_lt hwidth]
  have hdiv : (bitneeded / hashdiglen <<< 3).toNat = bitneeded.toNat / (8 * hashdiglen.toNat) := by
    rw [UInt32.toNat_div, hdigest]
  have hcheck : bitneeded / hashdiglen <<< 3 * bitneeded = hashdiglen <<< 3 ↔
      bitneeded.toNat / (8 * hashdiglen.toNat) * bitneeded.toNat % 2 ^ 32 = 8 * hashdiglen.toNat := by
    rw [← UInt32.toNat_inj, UInt32.toNat_mul, hdiv, hdigest]
  rw [hashesToDoFor]
  split
  · rename_i hne
    have hsmall : bitneeded.toNat / (8 * hashdiglen.toNat) + 1 < 2 ^ 32 := by
      have hlt := bitneeded.toNat_lt
      rcases Nat.eq_zero_or_pos hashdiglen.toNat with hzero | hpos
      · rw [hzero, Nat.mul_zero, Nat.div_zero]
        decide
      · have hdiv_le : bitneeded.toNat / (8 * hashdiglen.toNat) ≤ bitneeded.toNat / 8 := Nat.div_le_div_left (by omega) (by decide)
        omega
    rw [if_neg (mt hcheck.mpr hne), UInt32.toNat_add, hdiv]
    exact Nat.mod_eq_of_lt hsmall
  · rename_i heq
    rw [if_pos (hcheck.mp (not_not.mp heq)), hdiv]

/-- The number of the hashes to do, without a wrap. -/
theorem toNat_hashesToDo (hwidth : 8 * hashdiglen.toNat < 2 ^ 32) (hbits : shash.toNat * nhash.toNat < 2 ^ 32) :
    (hashesToDo hashdiglen nhash shash).toNat =
      if shash.toNat * nhash.toNat / (8 * hashdiglen.toNat) * (shash.toNat * nhash.toNat) % 2 ^ 32 = 8 * hashdiglen.toNat then
        shash.toNat * nhash.toNat / (8 * hashdiglen.toNat)
      else shash.toNat * nhash.toNat / (8 * hashdiglen.toNat) + 1 := by
  have hcount := toNat_hashesToDoFor hwidth (shash * nhash)
  rwa [UInt32.toNat_mul, Nat.mod_eq_of_lt hbits] at hcount

/-- All the bits come from one digest. -/
theorem hashesToDo_one (hpos : 0 < hashdiglen.toNat) (hwidth : 8 * hashdiglen.toNat < 2 ^ 32)
    (hfit : shash.toNat * nhash.toNat ≤ 8 * hashdiglen.toNat) : hashesToDo hashdiglen nhash shash = 1 := by
  rw [← UInt32.toNat_inj, toNat_hashesToDo hwidth (Nat.lt_of_le_of_lt hfit hwidth)]
  rcases Nat.lt_or_eq_of_le hfit with hless | hall
  · -- fewer bits than the digest has
    rw [Nat.div_eq_of_lt hless, Nat.zero_mul, Nat.zero_mod, if_neg (by omega)]
    rfl
  · -- all of them
    rw [hall, Nat.div_self (by omega), Nat.one_mul, Nat.mod_eq_of_lt hwidth, if_pos rfl]
    rfl

end Count

/-- What the constructor makes of its arguments. -/
structure MadeOf (h : KHASH) (hash : HASH) (nhash shash : UInt32) : Prop where
  hash_eq : h.hash = hash
  hashdiglen_eq : h.hashdiglen = hash.msgdigestlen
  nhash_eq : h.nhash = nhash
  shash_eq : h.shash = shash
  hashtodo_eq : h.hashtodo = hashesToDo hash.msgdigestlen nhash shash

/-- What the constructor makes. -/
theorem madeOf_khash {memory : Nat → UInt32} {hash : HASH} {nhash shash : UInt32} {norep : Bool} {h : KHASH}
    (hok : khash memory hash nhash shash norep = .ok h) : MadeOf h hash nhash shash := by
  rw [khash] at hok
  split at hok
  · obtain ⟨u, -, hok⟩ := Exn.except_bind_eq_ok.mp hok
    cases hok
    exact ⟨rfl, rfl, rfl, rfl, rfl⟩
  · cases hok

/-- What the constructor has checked. -/
theorem assert_of_khash {memory : Nat → UInt32} {hash : HASH} {nhash shash : UInt32} {norep : Bool} {h : KHASH}
    (hok : khash memory hash nhash shash norep = .ok h) : shash ≤ hash.getDigestLength * 8 := by
  rw [khash] at hok
  split at hok
  · rename_i hassert
    exact hassert.2.1
  · cases hok

/-- The constructor asserts that a digest has a byte. -/
theorem digestlen_pos (hash : HASH) {shash : UInt32} (hassert : shash ≤ 32 ∧ shash ≤ hash.getDigestLength * 8 ∧ 0 < shash) :
    0 < hash.msgdigestlen.toNat := by
  refine Nat.pos_of_ne_zero fun hzero => ?_
  have hlen : hash.getDigestLength = 0 := UInt32.toNat_inj.mp hzero
  rw [hlen, UInt32.zero_mul] at hassert
  exact absurd (UInt32.lt_of_lt_of_le hassert.2.2 hassert.2.1) (UInt32.lt_irrefl 0)

/-- The constructor returns where its assertions hold. -/
theorem khash_returns (memory : Nat → UInt32) {hash : HASH} {nhash shash : UInt32} {norep : Bool}
    (hassert : shash ≤ 32 ∧ shash ≤ hash.getDigestLength * 8 ∧ 0 < shash)
    (henough : norep = true → shash < 32 ∧ nhash ≤ 1 <<< shash) : ∃ h, khash memory hash nhash shash norep = .ok h := by
  rw [khash, dif_pos hassert, Exn.except_bind_of_ok (assertEnough_ok henough)]
  exact ⟨_, rfl⟩

/-! ## Offsets -/

/-- The next number does not wrap below a bound. -/
theorem toNat_succ {i : UInt32} {k : UInt32} (h : i.toNat < k.toNat) : (i + 1).toNat = i.toNat + 1 := by
  have hlt := k.toNat_lt
  rw [UInt32.toNat_add, UInt32.toNat_one, Nat.mod_eq_of_lt (by omega)]

/-- The number before a successor. -/
theorem toNat_pred {i : UInt32} {i' : Nat} (h : i.toNat = i' + 1) : (i - 1).toNat = i' := by
  have hle : (1 : UInt32) ≤ i := by
    rw [UInt32.le_iff_toNat_le, UInt32.toNat_one]
    omega
  rw [UInt32.toNat_sub_of_le _ _ hle, UInt32.toNat_one]
  omega

/-- The byte of an offset. -/
theorem toNat_shiftRight_three (offset : UInt32) : (offset >>> 3).toNat = offset.toNat / 8 := by
  simp [Nat.shiftRight_eq_div_pow]

/-- The bit within the byte. -/
theorem toNat_and_seven (offset : UInt32) : (offset &&& 7).toNat = offset.toNat % 8 := by
  have hmask : (7 : UInt32).toNat = 2 ^ 3 - 1 := rfl
  rw [UInt32.toNat_and, hmask, Nat.and_two_pow_sub_one_eq_mod]

/-- The mask has as many bits as a hash. -/
theorem toNat_mask {shash : UInt32} (hpos : 0 < shash) (hle : shash ≤ 32) :
    ((0xFFFFFFFF : UInt32) >>> (32 - shash)).toNat = 2 ^ shash.toNat - 1 := by
  have hall : ∀ s ≤ 32, 0 < s → ((0xFFFFFFFF : UInt32) >>> (32 - UInt32.ofNat s)).toNat = 2 ^ s - 1 := by decide
  have hmask := hall shash.toNat (UInt32.le_iff_toNat_le.mp hle) (UInt32.lt_iff_toNat_lt.mp hpos)
  rwa [UInt32.ofNat_toNat] at hmask

namespace KHASH

variable (h : KHASH)

/-- A hash has a bit. -/
theorem toNat_shash_pos : 0 < h.shash.toNat := UInt32.lt_iff_toNat_lt.mp h.shash_pos

/-- A hash has 32 bits at most. -/
theorem toNat_shash_le : h.shash.toNat ≤ 32 := UInt32.le_iff_toNat_le.mp h.shash_le

/-! ## A pass of the loop -/

section Pass

variable {n : Nat} (msgdig : Vector UInt8 n)

/-- The bits do not end in the word at a place that is not the start of a byte. -/
theorem straddles_iff (startoffset : UInt32) : 32 < h.shash + (startoffset &&& 7) ↔ 32 < h.shash.toNat + startoffset.toNat % 8 := by
  have hle := h.toNat_shash_le
  rw [UInt32.lt_iff_toNat_lt, UInt32.toNat_add, toNat_and_seven, Nat.mod_eq_of_lt (by omega)]
  rfl

/-- The bits that the word begins with, and with them those of the fifth byte if the bits end there. -/
theorem completeFrom_window {startoffset endoffset r : UInt32} (hr : r.toNat = window (bits msgdig) startoffset.toNat (32 - startoffset.toNat % 8))
    (hend : 32 < h.shash.toNat + startoffset.toNat % 8 → endoffset.toNat = startoffset.toNat + h.shash.toNat ∧ endoffset.toNat / 8 < n) :
    ∃ r', h.completeFrom msgdig (startoffset &&& 7) endoffset r = .ok r' ∧
      r'.toNat % 2 ^ h.shash.toNat = window (bits msgdig) startoffset.toNat h.shash.toNat := by
  have hle := h.toNat_shash_le
  rw [completeFrom]
  by_cases hstraddles : 32 < h.shash + (startoffset &&& 7)
  · have hlong := (h.straddles_iff startoffset).mp hstraddles
    obtain ⟨hsum, hin⟩ := hend hlong
    obtain ⟨b, hread, hb⟩ := readByte_window msgdig hin
    rw [if_pos hstraddles, toNat_shiftRight_three, Exn.except_bind_of_ok hread]
    refine ⟨_, rfl, ?_⟩
    have hshift : (h.shash - (endoffset &&& 7)).toNat = 32 - startoffset.toNat % 8 := by
      have hle' : endoffset &&& 7 ≤ h.shash := by
        rw [UInt32.le_iff_toNat_le, toNat_and_seven]
        omega
      rw [UInt32.toNat_sub_of_le _ _ hle', toNat_and_seven]
      omega
    have hplace : 8 * (endoffset.toNat / 8) = startoffset.toNat + (32 - startoffset.toNat % 8) := by omega
    have hhigh : (b.toUInt32 <<< (h.shash - (endoffset &&& 7))).toNat =
        window (bits msgdig) (startoffset.toNat + (32 - startoffset.toNat % 8)) (startoffset.toNat % 8) <<< (32 - startoffset.toNat % 8) := by
      rw [UInt32.toNat_shiftLeft, hshift, Nat.mod_eq_of_lt (show 32 - startoffset.toNat % 8 < 32 by omega), UInt8.toNat_toUInt32, hb, hplace,
        window_shiftLeft_mod _ _ _ (by omega), Nat.min_eq_left (by omega)]
    have hwidth : 32 - startoffset.toNat % 8 + startoffset.toNat % 8 = 32 := by omega
    rw [UInt32.toNat_or, hr, hhigh, window_or_shiftLeft, hwidth, window_mod, Nat.min_eq_left hle]
  · have hshort : h.shash.toNat ≤ 32 - startoffset.toNat % 8 := by
      have := mt (h.straddles_iff startoffset).mpr hstraddles
      omega
    rw [if_neg hstraddles]
    exact ⟨r, rfl, by rw [hr, window_mod, Nat.min_eq_left hshort]⟩

/-- A pass takes the bits from its offset on. -/
theorem extract_window (startoffset endoffset : UInt32) (hword : startoffset.toNat / 8 + 4 ≤ n)
    (hend : 32 < h.shash.toNat + startoffset.toNat % 8 → endoffset.toNat = startoffset.toNat + h.shash.toNat ∧ endoffset.toNat / 8 < n) :
    ∃ r, h.extract msgdig startoffset endoffset = .ok r ∧ r.toNat = window (bits msgdig) startoffset.toNat h.shash.toNat := by
  obtain ⟨w, hread, hw⟩ := readWord_window msgdig hword
  have hlow : (w >>> (startoffset &&& 7)).toNat = window (bits msgdig) startoffset.toNat (32 - startoffset.toNat % 8) := by
    rw [UInt32.toNat_shiftRight, toNat_and_seven, Nat.mod_eq_of_lt (show startoffset.toNat % 8 < 32 by omega), hw,
      window_shiftRight (by omega), Nat.div_add_mod]
  obtain ⟨r, hcomplete, hr⟩ := h.completeFrom_window msgdig hlow hend
  refine ⟨r &&& 0xFFFFFFFF >>> (32 - h.shash), ?_, ?_⟩
  · rw [extract, toNat_shiftRight_three, Exn.except_bind_of_ok hread, Exn.except_bind_of_ok hcomplete]
  · rw [UInt32.toNat_and, toNat_mask h.shash_pos h.shash_le, Nat.and_two_pow_sub_one_eq_mod, hr]

/-- A pass that reads in range returns. -/
theorem extract_ok (startoffset endoffset : UInt32) (hword : startoffset.toNat / 8 + 4 ≤ n) (hend : endoffset.toNat / 8 < n) :
    ∃ r, h.extract msgdig startoffset endoffset = .ok r := by
  obtain ⟨w, hread, -⟩ := readWord_window msgdig hword
  obtain ⟨b, hbyte, -⟩ := readByte_window msgdig hend
  obtain ⟨r, hcomplete⟩ : ∃ r, h.completeFrom msgdig (startoffset &&& 7) endoffset (w >>> (startoffset &&& 7)) = .ok r := by
    rw [completeFrom]
    split
    · rw [toNat_shiftRight_three, Exn.except_bind_of_ok hbyte]
      exact ⟨_, rfl⟩
    · exact ⟨_, rfl⟩
  exact ⟨_, by rw [extract, toNat_shiftRight_three, Exn.except_bind_of_ok hread, Exn.except_bind_of_ok hcomplete]⟩

end Pass

/-! ## The loop -/

/-- The offset that the loop has come to. -/
def offset (i : Nat) : UInt32 := UInt32.ofNat (i * h.shash.toNat)

/-- The next offset is a hash further. -/
theorem offset_succ (i : Nat) : h.offset (i + 1) = h.offset i + h.shash := by
  rw [offset, offset, Nat.succ_mul, UInt32.ofNat_add, UInt32.ofNat_toNat]

section Counted

variable {h} (hbits : h.shash.toNat * h.nhash.toNat < 2 ^ 32)

include hbits

/-- No offset that the loop comes to wraps if the word counts all the bits. -/
theorem toNat_offset {i : Nat} (hi : i ≤ h.nhash.toNat) : (h.offset i).toNat = i * h.shash.toNat := by
  have hle := Nat.mul_le_mul_left h.shash.toNat hi
  rw [offset, UInt32.toNat_ofNat_of_lt' (show i * h.shash.toNat < 2 ^ 32 by rw [Nat.mul_comm]; omega)]

/-- The next offset does not wrap below the last. -/
theorem toNat_offset_succ {i : Nat} (hi : i < h.nhash.toNat) :
    (h.offset (i + 1)).toNat = (h.offset i).toNat + h.shash.toNat ∧ (h.offset (i + 1)).toNat ≤ h.shash.toNat * h.nhash.toNat := by
  rw [toNat_offset hbits hi, toNat_offset hbits (Nat.le_of_lt hi), Nat.mul_comm h.shash.toNat]
  exact ⟨Nat.succ_mul i _, Nat.mul_le_mul_right _ hi⟩

end Counted

/-- What each pass of a loop that returns has put in its place. -/
theorem extractLoop_eq_ok {n : Nat} {msgdig : Vector UInt8 n} (passes i : Nat) {res res' : Vector UInt32 h.nhash.toNat}
    (hok : h.extractLoop msgdig passes i (h.offset i) (h.offset (i + 1)) res = .ok res') :
    ∀ j, (hj : j < h.nhash.toNat) → (j < i → res'[j] = res[j]) ∧
      (i ≤ j → j < i + passes → h.extract msgdig (h.offset j) (h.offset (j + 1)) = .ok res'[j]) := by
  induction passes generalizing i res with
  | zero =>
    cases hok
    exact fun j hj => ⟨fun _ => rfl, fun hij hji => absurd hji (Nat.not_lt_of_le hij)⟩
  | succ passes ih =>
    rw [extractLoop, ← offset_succ, ← offset_succ] at hok
    obtain ⟨r, hextract, hloop⟩ := Exn.except_bind_eq_ok.mp hok
    intro j hj
    obtain ⟨hbefore, hfrom⟩ := ih (i + 1) hloop j hj
    rw [Vector.getElem_setIfInBounds] at hbefore
    refine ⟨fun hji => ?_, fun hij hji => ?_⟩
    · rw [hbefore (by omega), if_neg (by omega)]
    · rcases Nat.eq_or_lt_of_le hij with rfl | hlt
      · rw [hbefore (Nat.lt_succ_self i), if_pos rfl]
        exact hextract
      · exact hfrom hlt (by omega)

/-- Each pass fills its place. -/
theorem extractLoop_ok {n : Nat} {msgdig : Vector UInt8 n} {P : Nat → UInt32 → Prop} (passes i : Nat)
    (res : Vector UInt32 h.nhash.toNat)
    (hpass : ∀ j, i ≤ j → j < i + passes → ∃ r, h.extract msgdig (h.offset j) (h.offset (j + 1)) = .ok r ∧ P j r) :
    ∃ res', h.extractLoop msgdig passes i (h.offset i) (h.offset (i + 1)) res = .ok res' ∧
      ∀ j, (hj : j < h.nhash.toNat) → (j < i → res'[j] = res[j]) ∧ (i ≤ j → j < i + passes → P j res'[j]) := by
  have hreturns : ∃ res', h.extractLoop msgdig passes i (h.offset i) (h.offset (i + 1)) res = .ok res' := by
    induction passes generalizing i res with
    | zero => exact ⟨res, rfl⟩
    | succ passes ih =>
      obtain ⟨r, hextract, -⟩ := hpass i (Nat.le_refl i) (by omega)
      obtain ⟨res', hloop⟩ := ih (i + 1) (res.setIfInBounds i r) fun j hij hj => hpass j (by omega) (by omega)
      refine ⟨res', ?_⟩
      rw [extractLoop, Exn.except_bind_of_ok hextract, ← offset_succ, ← offset_succ]
      exact hloop
  obtain ⟨res', hloop⟩ := hreturns
  refine ⟨res', hloop, fun j hj => ?_⟩
  obtain ⟨hbefore, hfrom⟩ := extractLoop_eq_ok h passes i hloop j hj
  refine ⟨hbefore, fun hij hji => ?_⟩
  obtain ⟨r, hextract, hr⟩ := hpass j hij hji
  rw [hfrom hij hji] at hextract
  cases hextract
  exact hr

end KHASH

/-! ## The chain of the digests -/

namespace HASH

/-- The first digest is that of the key, and each other that of the digest before it. -/
def chain (hash : HASH) (key : List UInt8) : Nat → List UInt8
  | 0 => hash.compute key
  | i + 1 => hash.compute (hash.chain key i)

variable (hash : HASH) (key : List UInt8)

/-- A digest of the chain has its length. -/
theorem length_chain (i : Nat) : (hash.chain key i).length = hash.msgdigestlen.toNat := by
  cases i <;> exact hash.length_compute _

/-- The bytes of the digests, one digest behind the other. -/
def chainByte (j : Nat) : UInt8 := (hash.chain key (j / hash.msgdigestlen.toNat)).getD (j % hash.msgdigestlen.toNat) 0

/-- Their bits, of each byte the lowest first. -/
def chainBits : Nat → Bool := bitsOf 8 fun j => (hash.chainByte key j).toNat

/-- A byte of the chain, in its digest. -/
theorem chainByte_add (i : Nat) {j : Nat} (hj : j < hash.msgdigestlen.toNat) :
    hash.chainByte key (i * hash.msgdigestlen.toNat + j) = (hash.chain key i).getD j 0 := by
  have hdiv : (i * hash.msgdigestlen.toNat + j) / hash.msgdigestlen.toNat = i := by
    rw [Nat.mul_comm, Nat.mul_add_div (by omega), Nat.div_eq_of_lt hj, Nat.add_zero]
  have hmod : (i * hash.msgdigestlen.toNat + j) % hash.msgdigestlen.toNat = j := by
    rw [Nat.mul_comm, Nat.mul_add_mod, Nat.mod_eq_of_lt hj]
  rw [chainByte, hdiv, hmod]

/-- The bits of the first digest. -/
theorem window_chainBits {m s : Nat} (hin : m + s ≤ 8 * hash.msgdigestlen.toNat) :
    window (hash.chainBits key) m s = window (listBits (hash.compute key)) m s := by
  refine window_congr fun j hj => ?_
  have hbyte := hash.chainByte_add key 0 (show (m + j) / 8 < hash.msgdigestlen.toNat by omega)
  rw [Nat.zero_mul, Nat.zero_add] at hbyte
  rw [chainBits, listBits, bitsOf, bitsOf, hbyte]
  rfl

end HASH

namespace KHASH

variable {h : KHASH}

/-- The word in which the class counts the bytes of the digests counts them all. -/
structure Sized (h : KHASH) : Prop where
  hashdiglen_eq : h.hashdiglen = h.hash.msgdigestlen
  room : h.hashtodo.toNat * h.hashdiglen.toNat + 4 < 2 ^ 32

namespace Sized

/-- The size of the array does not wrap. -/
theorem toNat_size (hsized : Sized h) : (h.hashtodo * h.hashdiglen + 4).toNat = h.hashtodo.toNat * h.hashdiglen.toNat + 4 := by
  have hroom := hsized.room
  have h4 : (4 : UInt32).toNat = 4 := rfl
  rw [UInt32.toNat_add, UInt32.toNat_mul, h4, Nat.mod_eq_of_lt (show h.hashtodo.toNat * h.hashdiglen.toNat < 2 ^ 32 by omega),
    Nat.mod_eq_of_lt hroom]

/-- The place of a digest. -/
theorem toNat_place (hsized : Sized h) {i : UInt32} (hi : i.toNat ≤ h.hashtodo.toNat) :
    (i * h.hashdiglen).toNat = i.toNat * h.hashdiglen.toNat := by
  have hroom := hsized.room
  have hle := Nat.mul_le_mul_right h.hashdiglen.toNat hi
  rw [UInt32.toNat_mul, Nat.mod_eq_of_lt (by omega)]

/-- A digest that is to be computed has its place. -/
theorem place_le (hsized : Sized h) {i : Nat} (hi : i < h.hashtodo.toNat) :
    i * h.hashdiglen.toNat + h.hash.msgdigestlen.toNat ≤ h.hashtodo.toNat * h.hashdiglen.toNat := by
  rw [← hsized.hashdiglen_eq, ← Nat.succ_mul]
  exact Nat.mul_le_mul_right _ hi

/-- If the key is as long as a digest, the loop that hashes each digest again makes the chain. -/
theorem rehashLoop_chain (hsized : Sized h) {key : List UInt8} (hkey : key.length = h.hash.msgdigestlen.toNat) (passes : Nat) (i : UInt32)
    {msgdig : Vector UInt8 (h.hashtodo * h.hashdiglen + 4).toNat} (hi : 0 < i.toNat) (hle : i.toNat + passes ≤ h.hashtodo.toNat)
    (hbegin : ∀ j < i.toNat * h.hashdiglen.toNat, msgdig.getD j 0 = h.hash.chainByte key j) :
    ∃ msgdig', h.rehashLoop key.length passes i msgdig = .ok msgdig' ∧
      ∀ j < (i.toNat + passes) * h.hashdiglen.toNat, msgdig'.getD j 0 = h.hash.chainByte key j := by
  induction passes generalizing i msgdig with
  | zero => exact ⟨msgdig, rfl, hbegin⟩
  | succ passes ih =>
    have hlen := hsized.hashdiglen_eq
    have hbytes : h.hashdiglen.toNat = h.hash.msgdigestlen.toNat := congrArg UInt32.toNat hlen
    have hsize := hsized.toNat_size
    obtain ⟨i', hi'⟩ := Nat.exists_eq_succ_of_ne_zero (Nat.ne_of_gt hi)
    have hbefore : (i - 1).toNat = i' := toNat_pred hi'
    have hafter : (i + 1).toNat = i.toNat + 1 := toNat_succ (k := h.hashtodo) (by omega)
    have hfrom := hsized.place_le (i := i') (by omega)
    have hto := hsized.place_le (i := i.toNat) (by omega)
    have hdigest := h.hash.length_chain key i'
    have hread : readBytes msgdig ((i - 1) * h.hashdiglen).toNat key.length = .ok (h.hash.chain key i') := by
      rw [hsized.toNat_place (by omega), hbefore, hkey, ← hdigest]
      refine readBytes_ok (by omega) fun j hj => ?_
      rw [hbegin _ (by rw [hi', Nat.succ_mul]; omega), hlen, h.hash.chainByte_add key i' (by omega)]
    have hnext := h.hash.length_compute (h.hash.chain key i')
    have hplace := hsized.toNat_place (i := i) (by omega)
    obtain ⟨msgdig₁, hwrite⟩ := writeBytes_ok msgdig (i * h.hashdiglen).toNat (h.hash.compute (h.hash.chain key i')) (by omega)
    have hbegin₁ : ∀ j < (i + 1).toNat * h.hashdiglen.toNat, msgdig₁.getD j 0 = h.hash.chainByte key j := by
      intro j hj
      rw [hafter, Nat.succ_mul] at hj
      rw [writeBytes_getD hwrite, hplace]
      by_cases hin : i.toNat * h.hashdiglen.toNat ≤ j
      · rw [if_pos ⟨hin, by rw [hnext, ← hlen]; exact hj⟩]
        obtain ⟨d, rfl⟩ := Nat.exists_eq_add_of_le hin
        rw [Nat.add_sub_cancel_left, hlen, h.hash.chainByte_add key i.toNat (by omega), hi']
        rfl
      · rw [if_neg fun hand => hin hand.1]
        exact hbegin j (Nat.lt_of_not_le hin)
    obtain ⟨msgdig', hloop, hmsgdig'⟩ := ih (i + 1) (by omega) (by omega) hbegin₁
    refine ⟨msgdig', ?_, fun j hj => hmsgdig' j ?_⟩
    · rw [rehashLoop, Exn.except_bind_of_ok hread, Exn.except_bind_of_ok hwrite, hloop]
    · rwa [hafter, Nat.add_right_comm]

/-! ## A call -/

/-- A call that needs one digest only, or has a key as long as a digest, takes the bits of the chain from their offsets on. -/
theorem compute_chain (hsized : Sized h) (key : List UInt8) (htodo : 0 < h.hashtodo.toNat)
    (hkey : h.hashtodo.toNat = 1 ∨ key.length = h.hash.msgdigestlen.toNat)
    (hin : ∀ i < h.nhash.toNat, (h.offset i).toNat + h.shash.toNat ≤ 8 * (h.hashtodo.toNat * h.hashdiglen.toNat))
    (hend : ∀ i < h.nhash.toNat, 32 < h.shash.toNat + (h.offset i).toNat % 8 → (h.offset (i + 1)).toNat = (h.offset i).toNat + h.shash.toNat) :
    ∃ res msgdig, h.compute key = .ok { h with res := res, msgdig := msgdig } ∧
      ∀ i, (hi : i < h.nhash.toNat) → res[i].toNat = window (h.hash.chainBits key) (h.offset i).toNat h.shash.toNat := by
  have hsize := hsized.toNat_size
  have hlen : h.hashdiglen.toNat = h.hash.msgdigestlen.toNat := congrArg UInt32.toNat hsized.hashdiglen_eq
  have hfirst := hsized.place_le htodo
  have hbytes := h.hash.length_compute key
  rw [Nat.zero_mul, Nat.zero_add] at hfirst
  obtain ⟨msgdig₁, hwrite⟩ := writeBytes_ok h.msgdig 0 (h.hash.compute key) (by omega)
  have hbegin : ∀ j < (1 : UInt32).toNat * h.hashdiglen.toNat, msgdig₁.getD j 0 = h.hash.chainByte key j := by
    intro j hj
    have hbyte := h.hash.chainByte_add key 0 (j := j)
    rw [Nat.zero_mul, Nat.zero_add] at hbyte
    rw [UInt32.toNat_one, Nat.one_mul, hlen] at hj
    rw [writeBytes_getD hwrite, if_pos ⟨Nat.zero_le j, by omega⟩, Nat.sub_zero, hbyte hj]
    rfl
  have hrehash : ∃ msgdig, h.rehashLoop key.length (h.hashtodo.toNat - 1) 1 msgdig₁ = .ok msgdig ∧
      ∀ j < h.hashtodo.toNat * h.hashdiglen.toNat, msgdig.getD j 0 = h.hash.chainByte key j := by
    rcases hkey with hone | hkey
    · rw [hone]
      exact ⟨msgdig₁, rfl, hbegin⟩
    · obtain ⟨msgdig, hloop, hmsgdig⟩ := hsized.rehashLoop_chain hkey (h.hashtodo.toNat - 1) 1 (by decide)
        (by rw [UInt32.toNat_one]; omega) hbegin
      refine ⟨msgdig, hloop, fun j hj => hmsgdig j ?_⟩
      rwa [UInt32.toNat_one, Nat.add_sub_cancel' htodo]
  obtain ⟨msgdig, hloop, hmsgdig⟩ := hrehash
  have hpass : ∀ i, 0 ≤ i → i < 0 + h.nhash.toNat → ∃ r, h.extract msgdig (h.offset i) (h.offset (i + 1)) = .ok r ∧
      r.toNat = window (h.hash.chainBits key) (h.offset i).toNat h.shash.toNat := by
    intro i _ hi
    rw [Nat.zero_add] at hi
    have hpos := h.toNat_shash_pos
    have hle := hin i hi
    have hfifth : 32 < h.shash.toNat + (h.offset i).toNat % 8 →
        (h.offset (i + 1)).toNat = (h.offset i).toNat + h.shash.toNat ∧
          (h.offset (i + 1)).toNat / 8 < (h.hashtodo * h.hashdiglen + 4).toNat := by
      intro hlong
      have hsum := hend i hi hlong
      exact ⟨hsum, by omega⟩
    obtain ⟨r, hr, hwindow⟩ := h.extract_window msgdig (h.offset i) (h.offset (i + 1)) (by omega) hfifth
    exact ⟨r, hr, by rw [hwindow, window_bits hmsgdig hle, HASH.chainBits]⟩
  obtain ⟨res, hextract, hres⟩ := h.extractLoop_ok h.nhash.toNat 0 h.res hpass
  have hzero : h.offset 0 = 0 := by simp [offset]
  have hone : h.offset 1 = h.shash := by simp [offset]
  rw [Nat.zero_add, hzero, hone] at hextract
  refine ⟨res, msgdig, ?_, fun i hi => (hres i hi).2 (Nat.zero_le i) (by omega)⟩
  rw [compute, Exn.except_bind_of_ok hwrite, Exn.except_bind_of_ok hloop, Exn.except_bind_of_ok hextract]

end Sized

/-- A call that needs one digest of the key only: its passes take the bits of the digest from their offsets on. -/
theorem compute_windows (key : List UInt8) (hlen : h.hashdiglen = h.hash.msgdigestlen) (htodo : h.hashtodo = 1)
    (hroom : h.hashdiglen.toNat + 4 < 2 ^ 32)
    (hin : ∀ i < h.nhash.toNat, (h.offset i).toNat + h.shash.toNat ≤ 8 * h.hashdiglen.toNat)
    (hend : ∀ i < h.nhash.toNat, 32 < h.shash.toNat + (h.offset i).toNat % 8 → (h.offset (i + 1)).toNat = (h.offset i).toNat + h.shash.toNat) :
    ∃ res msgdig, h.compute key = .ok { h with res := res, msgdig := msgdig } ∧
      ∀ i, (hi : i < h.nhash.toNat) → res[i].toNat = window (listBits (h.hash.compute key)) (h.offset i).toNat h.shash.toNat := by
  have hone : h.hashtodo.toNat = 1 := by
    rw [htodo]
    rfl
  have hsized : Sized h := ⟨hlen, by rw [hone, Nat.one_mul]; exact hroom⟩
  obtain ⟨res, msgdig, hcompute, hres⟩ := hsized.compute_chain key (by omega) (Or.inl hone)
    (fun i hi => by rw [hone, Nat.one_mul]; exact hin i hi) hend
  refine ⟨res, msgdig, hcompute, fun i hi => ?_⟩
  rw [hres i hi, h.hash.window_chainBits key (by rw [← hlen]; exact hin i hi)]

end KHASH

end Blockmon.MultiHash
