import Blockmon.Lemmas.MultiHash

/-!
# The hashes are windows of the digest

`compute` takes its hashes from one digest, one behind the other. The places are counted in bits, in a word of 32 bits: where the bits of the
digest are too many for the word, the places begin again.
-/

namespace Blockmon.MultiHash

open BitWindow

namespace KHASH

variable {h : KHASH} {hash : HASH} {nhash shash : UInt32}

/-- An object that needs one digest only, and whose places fit the word. -/
structure Narrow (h : KHASH) (hash : HASH) (nhash shash : UInt32) : Prop extends MadeOf h hash nhash shash where
  fit : shash.toNat * nhash.toNat ≤ 8 * hash.msgdigestlen.toNat
  width : 8 * hash.msgdigestlen.toNat < 2 ^ 32
  bytes_pos : 0 < hash.msgdigestlen.toNat

/-- A call on such an object returns such an object, and the hashes of the key. -/
theorem Narrow.compute (hnarrow : Narrow h hash nhash shash) (key : List UInt8) :
    ∃ h', h.compute key = .ok h' ∧ Narrow h' hash nhash shash ∧ ∀ k < nhash, ∃ r, h'.H k = .ok r ∧
      r.toNat = window (listBits (hash.compute key)) (k.toNat * shash.toNat) shash.toNat := by
  obtain ⟨hhash, hlen, hnhash, hshash, htodo⟩ := hnarrow.toMadeOf
  have hfit := hnarrow.fit
  have hwidth := hnarrow.width
  have hbytes := hnarrow.bytes_pos
  have hone : h.hashtodo = 1 := by rw [htodo, hashesToDo_one hbytes hwidth hfit]
  have hbits : h.shash.toNat * h.nhash.toNat ≤ 8 * h.hashdiglen.toNat := by rwa [hshash, hnhash, hlen]
  have hcounted : h.shash.toNat * h.nhash.toNat < 2 ^ 32 := by
    rw [hshash, hnhash]
    exact Nat.lt_of_le_of_lt hfit hwidth
  have hin : ∀ i < h.nhash.toNat, (h.offset i).toNat + h.shash.toNat ≤ 8 * h.hashdiglen.toNat := by
    intro i hi
    obtain ⟨hsum, hle⟩ := toNat_offset_succ hcounted hi
    omega
  obtain ⟨res, msgdig, hcompute, hres⟩ := h.compute_windows key (by rw [hlen, hhash]) hone (by rw [hlen]; omega) hin
    fun i hi _ => (toNat_offset_succ hcounted hi).1
  refine ⟨_, hcompute, ⟨⟨hhash, hlen, hnhash, hshash, htodo⟩, hfit, hwidth, hbytes⟩, fun k hk => ?_⟩
  have hk' : k.toNat < h.nhash.toNat := by
    rw [hnhash]
    exact UInt32.lt_iff_toNat_lt.mp hk
  refine ⟨res[k.toNat], dif_pos hk', ?_⟩
  rw [hres k.toNat hk', hhash, toNat_offset hcounted (Nat.le_of_lt hk'), hshash]

/-- So does a sequence of calls. -/
theorem Narrow.foldlM (hnarrow : Narrow h hash nhash shash) (keys : List (List UInt8)) :
    ∃ h', keys.foldlM KHASH.compute h = .ok h' ∧ Narrow h' hash nhash shash := by
  induction keys generalizing h with
  | nil => exact ⟨h, rfl, hnarrow⟩
  | cons key keys ih =>
    obtain ⟨h₁, hcompute, hnarrow₁, -⟩ := hnarrow.compute key
    obtain ⟨h₂, hrun, hnarrow₂⟩ := ih hnarrow₁
    exact ⟨h₂, by rw [List.foldlM_cons, Exn.except_bind_of_ok hcompute, hrun], hnarrow₂⟩

end KHASH

/-- The number of the bits of a digest fits the word. Then the constructor accepts what the digest has enough bits for; of what it makes, `msgdig`
has room for the digests and four bytes, and whatever was computed before, a call reads and writes in range. The hashes it leaves are the
windows of the digest, of its bytes the lowest bits first. -/
theorem khash_windows (memory : Nat → UInt32) (hash : HASH) (nhash shash : UInt32) (hpos : 0 < shash) (hle : shash ≤ 32)
    (hfit : shash.toNat * nhash.toNat ≤ 8 * hash.msgdigestlen.toNat) (hwidth : 8 * hash.msgdigestlen.toNat < 2 ^ 32) :
    (∀ norep, 0 < nhash → (norep = true → shash < 32 ∧ nhash ≤ 1 <<< shash) → ∃ h, khash memory hash nhash shash norep = .ok h) ∧
    ∀ norep h, khash memory hash nhash shash norep = .ok h →
      (h.hashtodo * h.hashdiglen + 4).toNat = h.hashtodo.toNat * hash.msgdigestlen.toNat + 4 ∧
      ∀ keys key, ∃ h', (keys ++ [key]).foldlM KHASH.compute h = .ok h' ∧ ∀ k < nhash, ∃ r, h'.H k = .ok r ∧
        r.toNat = window (listBits (hash.compute key)) (k.toNat * shash.toNat) shash.toNat := by
  have hbits : (hash.getDigestLength * 8).toNat = 8 * hash.msgdigestlen.toNat := by
    have hmul : (hash.getDigestLength * 8).toNat = hash.msgdigestlen.toNat * 8 % 2 ^ 32 := UInt32.toNat_mul _ _
    rw [hmul, Nat.mul_comm, Nat.mod_eq_of_lt hwidth]
  refine ⟨fun norep hnhash henough => ?_, fun norep h hok => ?_⟩
  · refine khash_returns memory ⟨hle, ?_, hpos⟩ henough
    rw [UInt32.le_iff_toNat_le, hbits]
    exact Nat.le_trans (Nat.le_mul_of_pos_right _ (UInt32.lt_iff_toNat_lt.mp hnhash)) hfit
  · have hmade := madeOf_khash hok
    have hbytes : 0 < hash.msgdigestlen.toNat := by
      have hassert := UInt32.le_iff_toNat_le.mp (assert_of_khash hok)
      have := UInt32.lt_iff_toNat_lt.mp hpos
      rw [hbits] at hassert
      have hzero : (0 : UInt32).toNat = 0 := rfl
      omega
    have hnarrow : h.Narrow hash nhash shash := ⟨hmade, hfit, hwidth, hbytes⟩
    refine ⟨?_, fun keys key => ?_⟩
    · have hone := hashesToDo_one hbytes hwidth hfit
      rw [hmade.hashtodo_eq, hmade.hashdiglen_eq, hone, UInt32.one_mul, UInt32.toNat_add]
      have h1 : (1 : UInt32).toNat = 1 := rfl
      have h4 : (4 : UInt32).toNat = 4 := rfl
      rw [h1, h4, Nat.one_mul, Nat.mod_eq_of_lt (by omega)]
    · obtain ⟨h₁, hrun, hnarrow₁⟩ := hnarrow.foldlM keys
      obtain ⟨h', hcompute, -, hwindows⟩ := hnarrow₁.compute key
      refine ⟨h', ?_, hwindows⟩
      rw [List.foldlM_append, Exn.except_bind_of_ok hrun, List.foldlM_cons, Exn.except_bind_of_ok hcompute]
      rfl

/-- A digest of eight bytes. The second of two hashes of 29 bits begins in the fourth byte and ends in the eighth. -/
def eightBytes : HASH :=
  { msgdigestlen := 8, compute := fun _ => [0x11, 0x22, 0x33, 0x44, 0x55, 0x66, 0x77, 0x88], length_compute := fun _ => rfl }

/-- A window of a digest of eight bytes. -/
theorem khash_windows_eightBytes :
    ∃ h, khash (fun _ => 0) eightBytes 2 29 false = .ok h ∧ ∃ h', h.compute [7] = .ok h' ∧ h'.H 1 = .ok 0x03bb32aa := by
  obtain ⟨hmade, hwindows⟩ := khash_windows (fun _ => 0) eightBytes 2 29 (by decide) (by decide) (by decide) (by decide)
  obtain ⟨h, hok⟩ := hmade false (by decide) (by decide)
  obtain ⟨h', hrun, hres⟩ := (hwindows false h hok).2 [] [7]
  obtain ⟨r, hr, hwindow⟩ := hres 1 (by decide)
  have hval : window (listBits (eightBytes.compute [7])) (1 * 29) 29 = 0x03bb32aa := by decide +kernel
  have heq : r = 0x03bb32aa := UInt32.toNat_inj.mp (hwindow.trans hval)
  obtain ⟨h₁, hcompute, hrest⟩ := Exn.except_bind_eq_ok.mp hrun
  cases hrest
  exact ⟨h, hok, h', hcompute, heq ▸ hr⟩

/-! ## More places than the word counts -/

/-- A digest of one byte more than the word has places for. Of its bits the first is set. -/
def wide : HASH :=
  { msgdigestlen := 0x20000001, compute := fun _ => 1 :: List.replicate 0x20000000 0, length_compute := fun _ => by
      rw [List.length_cons, List.length_replicate]
      rfl }

/-- Behind the first byte the wide digest is zero. -/
theorem window_wide (key : List UInt8) {g : Nat} (hg : 0 < g) : window (listBits (wide.compute key)) (8 * g) 8 = 0 := by
  have hbyte : (wide.compute key).getD g 0 = 0 := by
    obtain ⟨g', rfl⟩ := Nat.exists_eq_succ_of_ne_zero (Nat.ne_of_gt hg)
    change (List.replicate 0x20000000 (0 : UInt8)).getD g' 0 = 0
    rw [List.getD_eq_getElem?_getD, List.getElem?_replicate]
    split <;> rfl
  have hlt : ((wide.compute key).getD g 0).toNat < 2 ^ 8 := UInt8.toNat_lt _
  rw [listBits, window_bitsOf (W := fun i => ((wide.compute key).getD i 0).toNat) hlt, hbyte]
  rfl

/-- The hash behind the last place that the word counts is taken from the first byte again. -/
theorem khash_windows_wrap :
    (8 : UInt32).toNat * (0x20000001 : UInt32).toNat ≤ 8 * wide.msgdigestlen.toNat ∧
    ∃ h, khash (fun _ => 0) wide 0x20000001 8 false = .ok h ∧ ∃ h', h.compute [] = .ok h' ∧ h'.H 0x20000000 = .ok 1 ∧
      window (listBits (wide.compute [])) (0x20000000 * 8) 8 = 0 := by
  have hreturns : ∃ h, khash (fun _ => 0) wide 0x20000001 8 false = .ok h := khash_returns _ (by decide) nofun
  obtain ⟨h, hok⟩ := hreturns
  obtain ⟨hhash, hlen, hnhash, hshash, htodo⟩ := madeOf_khash hok
  have hone : h.hashtodo = 1 := by
    rw [htodo]
    decide
  have hlen' : h.hashdiglen.toNat = 0x20000001 := by
    rw [hlen]
    rfl
  have height : h.shash.toNat = 8 := by
    rw [hshash]
    rfl
  have hoffset : ∀ i, (h.offset i).toNat = i * 8 % 2 ^ 32 := by
    intro i
    rw [KHASH.offset, height]
    exact UInt32.toNat_ofNat'
  obtain ⟨res, msgdig, hcompute, hres⟩ := h.compute_windows [] (by rw [hlen, hhash]) hone (by rw [hlen']; decide)
    (fun i _ => by rw [hoffset, height, hlen']; omega) (fun i _ hlong => by rw [hoffset, height] at hlong; omega)
  have hk : (0x20000000 : UInt32).toNat < h.nhash.toNat := by
    rw [hnhash]
    decide
  refine ⟨by decide, h, hok, _, hcompute, ?_, ?_⟩
  · have hfirst : res[(0x20000000 : UInt32).toNat].toNat = 1 := by
      rw [hres _ hk, hoffset, hhash, height]
      have hzero : (0x20000000 : UInt32).toNat * 8 % 2 ^ 32 = 8 * 0 := by decide
      rw [hzero, listBits, window_bitsOf (W := fun i => ((wide.compute []).getD i 0).toNat) (UInt8.toNat_lt _)]
      rfl
    rw [KHASH.H, dif_pos hk]
    exact congrArg Except.ok (UInt32.toNat_inj.mp hfirst)
  · have hplace : 0x20000000 * 8 = 8 * 0x20000000 := by decide
    rw [hplace]
    exact window_wide [] (by decide)

end Blockmon.MultiHash
