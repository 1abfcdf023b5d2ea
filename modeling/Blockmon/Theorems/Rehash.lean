import Blockmon.Lemmas.Rehash

/-!
# The hashes are windows of the chain of digests

Where one digest has too few bits, each digest is hashed again, with the length of the key in place of its own. So the hashes are those of the
chain for keys that are as long as a digest, and for the others only if one digest is enough.
-/

namespace Blockmon.MultiHash

open BitWindow

/-! ## A hash function that tells the keys by their length -/

/-- Every bit of the digest of a key as long as a digest is set, and no bit of another one. -/
def lengthHash (digestlen : UInt32) : HASH :=
  { msgdigestlen := digestlen
    compute := fun key => List.replicate digestlen.toNat (if key.length = digestlen.toNat then 0xFF else 0)
    length_compute := fun _ => List.length_replicate }

section LengthHash

variable {digestlen : UInt32} {key : List UInt8}

/-- A byte of the digest that tells the length. -/
theorem getD_lengthHash {j : Nat} (hj : j < digestlen.toNat) :
    ((lengthHash digestlen).compute key).getD j 0 = if key.length = digestlen.toNat then 0xFF else 0 := by
  have hlen : j < ((lengthHash digestlen).compute key).length := by rwa [(lengthHash digestlen).length_compute]
  rw [List.getD_eq_getElem _ _ hlen]
  exact List.getElem_replicate _

/-- All digests behind the first are those of keys as long as a digest. -/
theorem chainByte_lengthHash (hpos : 0 < digestlen.toNat) {g : Nat} (hg : digestlen.toNat ≤ g) :
    (lengthHash digestlen).chainByte key g = 0xFF := by
  have hmod := Nat.mod_lt g hpos
  obtain ⟨i, hi⟩ : ∃ i, g / digestlen.toNat = i + 1 := Nat.exists_eq_add_of_le' (Nat.div_pos hg hpos)
  have hlen : ((lengthHash digestlen).chain key i).length = digestlen.toNat := (lengthHash digestlen).length_chain key i
  have hbyte : (lengthHash digestlen).chainByte key g = ((lengthHash digestlen).compute ((lengthHash digestlen).chain key i)).getD (g % digestlen.toNat) 0 := by
    rw [HASH.chainByte]
    change ((lengthHash digestlen).chain key (g / digestlen.toNat)).getD (g % digestlen.toNat) 0 = _
    rw [hi]
    rfl
  rw [hbyte, getD_lengthHash hmod, if_pos hlen]

/-- The bits of this digest, key after key. -/
theorem chainBits_lengthHash (hpos : 0 < digestlen.toNat) {g : Nat} (hg : digestlen.toNat ≤ g) :
    (lengthHash digestlen).chainBits key (8 * g) = true := by
  rw [HASH.chainBits, bitsOf, Nat.mul_div_cancel_left _ (by decide), Nat.mul_mod_right, chainByte_lengthHash hpos hg]
  decide

end LengthHash

/-- Against the condition some bit of a hash is lost. -/
theorem lost_of_not_rehashable {h h' : KHASH} {digestlen nhash shash : UInt32} {key : List UInt8}
    (hmade : MadeOf h (lengthHash digestlen) nhash shash) (hcounted : Counted digestlen nhash shash) (hpadded : h.Padded)
    (hnot : ¬Rehashable digestlen nhash shash key) (hok : h.compute key = .ok h') :
    ∃ k < nhash, ∀ r, h'.H k = .ok r →
      r.toNat ≠ window ((lengthHash digestlen).chainBits key) (k.toNat * shash.toNat) shash.toNat := by
  have hpos := hcounted.pos
  have hsized := hmade.sized hcounted
  have htodo : 0 < h.hashtodo.toNat := by
    rw [hmade.hashtodo_eq]
    exact hashesToDo_pos hcounted
  have hlost : ∃ g, digestlen.toNat ≤ g ∧ g ≤ h.hashtodo.toNat * h.hashdiglen.toNat ∧ 8 * g < shash.toNat * nhash.toNat ∧
      h'.msgdig.getD g 0 = 0 := by
    by_cases hleft : LastLeftOut digestlen nhash shash
    · -- the first byte behind the digests
      have hfew := mt (bits_le_iff hcounted).mp (not_not_intro hleft)
      have hplace : h.hashtodo.toNat * h.hashdiglen.toNat = (hashesToDo digestlen nhash shash).toNat * digestlen.toNat := by
        rw [hmade.hashtodo_eq, hmade.hashdiglen_eq]
        rfl
      refine ⟨h.hashtodo.toNat * h.hashdiglen.toNat, ?_, Nat.le_refl _, by omega, ?_⟩
      · rw [hplace]
        exact Nat.le_mul_of_pos_left _ (hashesToDo_pos hcounted)
      · have hmade' := hmade.compute hok
        refine hpadded.compute hsized htodo hok _ (Nat.le_of_eq ?_)
        rw [hmade'.hashtodo_eq, hmade'.hashdiglen_eq, hmade.hashtodo_eq, hmade.hashdiglen_eq]
    · -- the first byte of the second digest, which is that of a key that is not as long as a digest
      obtain ⟨hmany, hlen⟩ : 8 * digestlen.toNat < shash.toNat * nhash.toNat ∧ key.length ≠ digestlen.toNat := by
        rw [Rehashable, not_and_not_right] at hnot
        refine ⟨Nat.lt_of_not_le fun hfit => hleft (hnot (Or.inl hfit)), fun hlen => hleft (hnot (Or.inr hlen))⟩
      have htwo : 1 < h.hashtodo.toNat := by
        rw [hmade.hashtodo_eq]
        exact hashesToDo_two hcounted hmany
      have hdiglen : h.hashdiglen.toNat = digestlen.toNat := by
        rw [hmade.hashdiglen_eq]
        rfl
      have hunset : KHASH.Sized.Unset h key.length digestlen.toNat := by
        intro i hi key' hkey' hle hlt
        rw [hmade.hash_eq] at hlt ⊢
        rw [getD_lengthHash (by change _ < _ + digestlen.toNat at hlt; omega), hkey', if_neg hlen]
      refine ⟨digestlen.toNat, Nat.le_refl _, ?_, hmany, ?_⟩
      · rw [hdiglen]
        exact Nat.le_mul_of_pos_left _ htodo
      · refine hsized.compute_byte hunset htodo hok (Or.inr ⟨htwo, Nat.le_of_eq hdiglen, ?_⟩)
        rw [hmade.hash_eq, hdiglen]
        change digestlen.toNat < digestlen.toNat + digestlen.toNat
        omega
  obtain ⟨g, hbehind, hplace, hneeded, hzero⟩ := hlost
  obtain ⟨k, hk, hlost⟩ := hsized.lost_bit hok hplace (by rw [hmade.shash_eq, hmade.nhash_eq]; exact hcounted.bits)
    (by rw [hmade.shash_eq, hmade.nhash_eq]; exact hneeded) hzero
  rw [hmade.nhash_eq] at hk
  rw [hmade.shash_eq] at hlost
  exact ⟨k, hk, fun r hr => hlost r hr _ (chainBits_lengthHash hpos hbehind)⟩

/-- The word counts the bits. Then, for every hash function with digests of this length and in every sequence of calls, each call returns and leaves
the windows of the chain of its key, if and only if every call has a key that can be hashed again. -/
theorem khash_chain (digestlen nhash shash : UInt32) (hassert : 0 < shash ∧ shash ≤ 32 ∧ shash ≤ digestlen * 8)
    (hwidth : 8 * digestlen.toNat < 2 ^ 32) (hbits : shash.toNat * nhash.toNat < 2 ^ 32) (keys : List (List UInt8)) :
    (∀ memory hash norep h, hash.msgdigestlen = digestlen → khash memory hash nhash shash norep = .ok h →
      ∀ earlier key, earlier ++ [key] <+: keys → ∃ h', (earlier ++ [key]).foldlM KHASH.compute h = .ok h' ∧
        ∀ k < nhash, ∃ r, h'.H k = .ok r ∧ r.toNat = window (hash.chainBits key) (k.toNat * shash.toNat) shash.toNat) ↔
    ∀ key ∈ keys, Rehashable digestlen nhash shash key := by
  obtain ⟨hpos, hle, hroom⟩ := hassert
  have hcounted : Counted digestlen nhash shash := ⟨digestlen_pos (lengthHash digestlen) ⟨hle, hroom, hpos⟩, hwidth, hbits⟩
  constructor
  · intro hwindows key hkey
    by_contra hnot
    obtain ⟨earlier, later, rfl⟩ := List.append_of_mem hkey
    obtain ⟨h, hok⟩ : ∃ h, khash (fun _ => 0) (lengthHash digestlen) nhash shash false = .ok h :=
      khash_returns _ ⟨hle, hroom, hpos⟩ (by simp)
    obtain ⟨h', hrun, hres⟩ := hwindows _ _ _ h rfl hok earlier key ⟨later, by rw [List.append_assoc]; rfl⟩
    rw [List.foldlM_append] at hrun
    obtain ⟨h₁, hearlier, hcompute⟩ := Exn.except_bind_eq_ok.mp hrun
    obtain ⟨h₂, hcompute, hlast⟩ := Exn.except_bind_eq_ok.mp hcompute
    cases hlast
    obtain ⟨hmade₁, hpadded₁⟩ := KHASH.foldlM_padded (madeOf_khash hok) (KHASH.padded_khash hok) hcounted earlier hearlier
    obtain ⟨k, hk, hlost⟩ := lost_of_not_rehashable hmade₁ hcounted hpadded₁ hnot hcompute
    obtain ⟨r, hr, hwindow⟩ := hres k hk
    exact hlost r hr hwindow
  · rintro hkeys memory hash norep h rfl hok earlier key ⟨later, rfl⟩
    obtain ⟨h₁, hrun⟩ := KHASH.foldlM_rehashable (madeOf_khash hok) hcounted earlier
      fun key' hkey' => hkeys key' (List.mem_append_left _ (List.mem_append_left _ hkey'))
    have hmade₁ := (KHASH.foldlM_padded (madeOf_khash hok) (KHASH.padded_khash hok) hcounted earlier hrun).1
    obtain ⟨h', hcompute, hres⟩ := KHASH.compute_rehashable hmade₁ hcounted (hkeys key (by simp))
    refine ⟨h', ?_, hres⟩
    rw [List.foldlM_append, Exn.except_bind_of_ok hrun, List.foldlM_cons, Exn.except_bind_of_ok hcompute]
    rfl

/-- A digest of two bytes, from the sum of the bytes of the key. -/
def sumHash : HASH := { msgdigestlen := 2, compute := fun key => [key.foldr (· + ·) 0, 3 * key.foldr (· + ·) 0 + 1], length_compute := fun _ => rfl }

/-- Two keys, of which the second is hashed anew. -/
theorem khash_chain_sumHash :
    ∃ h, khash (fun _ => 0) sumHash 3 8 false = .ok h ∧ ∃ h', [[9, 9], [1, 2]].foldlM KHASH.compute h = .ok h' ∧ h'.H 2 = .ok 13 := by
  obtain ⟨h, hok⟩ : ∃ h, khash (fun _ => 0) sumHash 3 8 false = .ok h := khash_returns _ (by decide) (by simp)
  have hkeys : ∀ key ∈ [[9, 9], [1, 2]], Rehashable 2 3 8 key := by
    intro key hkey
    refine ⟨Or.inr ?_, by decide⟩
    simp only [List.mem_cons, List.not_mem_nil, or_false] at hkey
    rcases hkey with rfl | rfl <;> rfl
  obtain ⟨h', hrun, hres⟩ := (khash_chain 2 3 8 (by decide) (by decide) (by decide) [[9, 9], [1, 2]]).mpr hkeys
    _ _ _ h rfl hok [[9, 9]] [1, 2] (List.prefix_refl _)
  obtain ⟨r, hr, hwindow⟩ := hres 2 (by decide)
  have hval : window (sumHash.chainBits [1, 2]) (2 * 8) 8 = 13 := by decide +kernel
  have heq : r = 13 := UInt32.toNat_inj.mp (hwindow.trans hval)
  exact ⟨h, hok, h', hrun, heq ▸ hr⟩

/-- The third hash of the same key is another one the second time, since the hash function reads a byte of the digest that the first time left. -/
theorem khash_chain_threeBytes :
    (khash (fun _ => 0) sumHash 3 8 false >>= fun h => [[1, 2, 4]].foldlM KHASH.compute h >>= fun h' => h'.H 2) = .ok 29 ∧
    (khash (fun _ => 0) sumHash 3 8 false >>= fun h => [[1, 2, 4], [1, 2, 4]].foldlM KHASH.compute h >>= fun h' => h'.H 2) = .ok 58 ∧
    window (sumHash.chainBits [1, 2, 4]) (2 * 8) 8 = 29 := by
  refine ⟨rfl, rfl, by decide +kernel⟩

end Blockmon.MultiHash
