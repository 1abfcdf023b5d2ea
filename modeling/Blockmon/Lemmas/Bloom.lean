import Blockmon.Lemmas.Khash
import Blockmon.Lib.Bitmap

/-!
# The bits of a Bloom filter

The array stands for the set of its bits. A digest of the key is the number of a bit of it, so `insert` adds the digests to the set and `check`
asks whether they are in it.
-/

namespace Blockmon.Bloom

open Bitmap

/-! ## One bit -/

section Bits

variable {h : Khash} {res : List UInt32} {i : Nat}

/-- The number of the bits. -/
theorem toNat_mmax (h : Khash) : (mmax h).toNat = 2 ^ h.shash := toNat_one_shiftLeft h.shash_lt

/-- There are bits for all digests. -/
theorem two_pow_le_bits (h : Khash) : 2 ^ h.shash ≤ 8 * (mmaxArr h).toNat := by
  have hlt := h.shash_lt
  rw [mmaxArr]
  by_cases hsmall : h.shash < 3
  · rw [if_pos hsmall]
    have hpow : 2 ^ h.shash ≤ 2 ^ 3 := Nat.pow_le_pow_right (by decide) (Nat.le_of_lt hsmall)
    exact hpow
  · rw [if_neg hsmall, toNat_one_shiftLeft (by omega)]
    have hsum : 2 ^ (3 + (h.shash - 3)) = 2 ^ 3 * 2 ^ (h.shash - 3) := Nat.pow_add 2 3 (h.shash - 3)
    have hexp : 3 + (h.shash - 3) = h.shash := by omega
    rw [hexp] at hsum
    exact Nat.le_of_eq hsum

/-- A hash of the result is read. -/
theorem hashAt_ok (hlen : res.length = h.nhash + 1) (hlo : 1 ≤ i) (hhi : i ≤ h.nhash) : hashAt h res i = .ok (res.getD i 0) := by
  have hi : i < res.length := by omega
  rw [hashAt, Exn.except_bind_of_ok (assert_of ⟨hlo, hhi⟩ _), List.getD_eq_getElem?_getD, List.getElem?_eq_getElem hi]
  rfl

/-- The position of a hash is inside of the filter. -/
theorem position_ok (hlen : res.length = h.nhash + 1) (hbelow : Below h (h.nhash + 1) res) (hlo : 1 ≤ i) (hhi : i ≤ h.nhash) :
    position h res i = .ok ((res.getD i 0).toNat / 8, mask ((res.getD i 0).toNat % 8)) := by
  have hlt := hbelow i hlo (Nat.lt_succ_of_le hhi)
  have hbits := two_pow_le_bits h
  generalize hr : res.getD i 0 = r at hlt
  have hbyte : (r >>> 3).toNat = r.toNat / 8 := by
    rw [UInt32.toNat_shiftRight]
    exact Nat.shiftRight_eq_div_pow _ _
  have hin : r >>> 3 < mmaxArr h := by
    rw [UInt32.lt_iff_toNat_lt, hbyte]
    omega
  have hlow : ((r &&& maskOf 3).toUInt8).toNat = r.toNat % 8 := by
    rw [UInt32.toNat_toUInt8, toNat_and_maskOf r (by decide)]
    omega
  have hbit : (r &&& maskOf 3).toUInt8 < 8 := by
    rw [UInt8.lt_iff_toNat_lt, hlow]
    exact Nat.mod_lt _ (by decide)
  have hmask : (1 : UInt8) <<< (r &&& maskOf 3).toUInt8 = mask (r.toNat % 8) := by
    rw [mask, ← hlow, UInt8.ofNat_toNat]
  have hthree : bitmask 3 = .ok (maskOf 3) := bitmask_ok 3 (by decide) (by decide)
  rw [position, Exn.except_bind_of_ok (hashAt_ok hlen hlo hhi), hr, Exn.except_bind_of_ok (assert_of hin _),
    Exn.except_bind_of_ok hthree, Exn.except_bind_of_ok (assert_of hbit _), hbyte, hmask]

/-- A byte of the filter is read. -/
theorem byteAt_ok {m : List UInt8} {b : Nat} (hb : b < m.length) : byteAt m b = .ok (m.getD b 0) := by
  rw [byteAt, List.getD_eq_getElem?_getD, List.getElem?_eq_getElem hb]
  rfl

variable (hlen : res.length = h.nhash + 1) (hbelow : Below h (h.nhash + 1) res)

include hlen hbelow

/-- A pass of `insert` sets a bit that is not set, and counts it. -/
theorem insertBit_ok {m : List UInt8} (hm : 2 ^ h.shash ≤ 8 * m.length) (extra : Nat) (hlo : 1 ≤ i) (hhi : i ≤ h.nhash) :
    insertBit h res i (m, extra) = .ok (if (res.getD i 0).toNat ∈ ones m then (m, extra)
      else (set m (res.getD i 0).toNat, extra + 1)) := by
  have hlt := hbelow i hlo (Nat.lt_succ_of_le hhi)
  rw [insertBit, Exn.except_bind_of_ok (position_ok hlen hbelow hlo hhi)]
  dsimp only
  rw [Exn.except_bind_of_ok (byteAt_ok (by omega))]
  by_cases hset : (res.getD i 0).toNat ∈ ones m
  · rw [if_neg fun h' => (and_mask_iff_notMem m _).mp h' hset, if_pos hset]
  · rw [if_pos ((and_mask_iff_notMem m _).mpr hset), if_neg hset]
    rfl

/-- The bits of the hashes are tested. -/
theorem checkBits_ok {m : List UInt8} (hm : 2 ^ h.shash ≤ 8 * m.length) (is : List Nat) (his : ∀ i ∈ is, 1 ≤ i ∧ i ≤ h.nhash) :
    checkBits h res m is = .ok (decide (∀ n ∈ is.map fun i => (res.getD i 0).toNat, n ∈ ones m)) := by
  induction is with
  | nil => rfl
  | cons i is ih =>
    obtain ⟨⟨hlo, hhi⟩, his⟩ := List.forall_mem_cons.mp his
    have hlt := hbelow i hlo (Nat.lt_succ_of_le hhi)
    rw [checkBits, Exn.except_bind_of_ok (position_ok hlen hbelow hlo hhi)]
    dsimp only
    rw [Exn.except_bind_of_ok (byteAt_ok (by omega)), ih his]
    by_cases hset : (res.getD i 0).toNat ∈ ones m
    · rw [if_neg fun h' => (and_mask_iff_notMem m _).mp h' hset]
      congr 1
      rw [decide_eq_decide, List.map_cons, List.forall_mem_cons]
      exact ⟨fun h' => ⟨hset, h'⟩, fun h' => h'.2⟩
    · rw [if_pos ((and_mask_iff_notMem m _).mpr hset)]
      congr 1
      rw [eq_comm, decide_eq_false_iff_not, List.map_cons, List.forall_mem_cons]
      exact fun h' => hset h'.1

/-- The loop of `insert` adds the digests to the set, and counts what it has added. -/
theorem insertBits_ok {m : List UInt8} (hm : 2 ^ h.shash ≤ 8 * m.length) (extra : Nat) (is : List Nat)
    (his : ∀ i ∈ is, 1 ≤ i ∧ i ≤ h.nhash) :
    ∃ m' extra', insertBits h res is (m, extra) = .ok (m', extra') ∧ m'.length = m.length ∧
      ones m' = ones m ∪ (is.map fun i => (res.getD i 0).toNat).toFinset ∧ extra' + (ones m).card = extra + (ones m').card := by
  induction is generalizing m extra with
  | nil => exact ⟨m, extra, rfl, rfl, by simp, rfl⟩
  | cons i is ih =>
    obtain ⟨⟨hlo, hhi⟩, his⟩ := List.forall_mem_cons.mp his
    have hlt := hbelow i hlo (Nat.lt_succ_of_le hhi)
    rw [insertBits, Exn.except_bind_of_ok (insertBit_ok hlen hbelow hm extra hlo hhi)]
    by_cases hset : (res.getD i 0).toNat ∈ ones m
    · rw [if_pos hset]
      obtain ⟨m', extra', hrun, hlen', hones, hcard⟩ := ih hm extra his
      refine ⟨m', extra', hrun, hlen', ?_, hcard⟩
      rw [hones, List.map_cons, List.toFinset_cons, Finset.union_insert, Finset.insert_eq_of_mem (Finset.mem_union_left _ hset)]
    · rw [if_neg hset]
      have hones' : ones (set m (res.getD i 0).toNat) = insert (res.getD i 0).toNat (ones m) := ones_set (by omega)
      obtain ⟨m', extra', hrun, hlen', hones, hcard⟩ := ih (m := set m (res.getD i 0).toNat) (by rw [length_set]; exact hm) (extra + 1) his
      rw [hones', Finset.card_insert_of_notMem hset] at hcard
      refine ⟨m', extra', hrun, by rw [hlen', length_set], ?_, by omega⟩
      rw [hones, hones', List.map_cons, List.toFinset_cons, Finset.union_insert, Finset.insert_union]

end Bits

/-! ## The filter -/

namespace Bloomfilter

/-- What holds of a filter between the calls. -/
structure Sound (f : Bloomfilter) : Prop where
  res : f.res.length = f.hash.nhash + 1
  size : 2 ^ f.hash.shash ≤ 8 * f.m.length
  bits : ∀ n ∈ ones f.m, n < 2 ^ f.hash.shash
  zeros : f.numZeros.toNat + (ones f.m).card = 2 ^ f.hash.shash

/-- A cleared filter is sound. -/
theorem sound_clear {f : Bloomfilter} (hres : f.res.length = f.hash.nhash + 1) : f.clear.Sound := by
  have hones : ones f.clear.m = ∅ := ones_replicate _
  refine ⟨hres, ?_, ?_, ?_⟩
  · change 2 ^ f.hash.shash ≤ 8 * (List.replicate (mmaxArr f.hash).toNat (0 : UInt8)).length
    rw [List.length_replicate]
    exact two_pow_le_bits f.hash
  · rw [hones]
    exact fun n hn => absurd hn (Finset.notMem_empty n)
  · rw [hones, Finset.card_empty]
    exact toNat_mmax f.hash

variable {sha1 : List UInt8 → Digest} {f : Bloomfilter} {fuel : Nat} {key : List UInt8} {res : List UInt32}

/-- The hashes are numbered from one on. -/
theorem range'_mem (h : Khash) : ∀ i ∈ List.range' 1 h.nhash, 1 ≤ i ∧ i ≤ h.nhash := fun _ hi => mem_range'_one.mp hi

/-- The digests are below the number of the bits. -/
theorem digests_lt (hbelow : Below f.hash (f.hash.nhash + 1) res) : ∀ n ∈ (digests f.hash res).toFinset, n < 2 ^ f.hash.shash := by
  intro n hn
  obtain ⟨i, hi, rfl⟩ := List.mem_map.mp (List.mem_toFinset.mp hn)
  obtain ⟨hlo, hhi⟩ := range'_mem f.hash i hi
  exact hbelow i hlo (Nat.lt_succ_of_le hhi)

/-- Behind `compute` an insertion adds the digests, and tells whether one of them is new. -/
theorem insert_of_compute (hf : f.Sound) (hcompute : compute sha1 f.hash fuel key f.res = .ok res)
    (hlen : res.length = f.hash.nhash + 1) (hbelow : Below f.hash (f.hash.nhash + 1) res) :
    ∃ f', f.insert sha1 fuel key = .ok (f', decide (¬(digests f.hash res).toFinset ⊆ ones f.m)) ∧ f'.Sound ∧ f'.hash = f.hash ∧
      ones f'.m = ones f.m ∪ (digests f.hash res).toFinset := by
  obtain ⟨m', extra, hbits, hlen', hones, hcard⟩ := insertBits_ok hlen hbelow hf.size 0 (List.range' 1 f.hash.nhash) (range'_mem f.hash)
  have hones : ones m' = ones f.m ∪ (digests f.hash res).toFinset := hones
  have hlt : ∀ n ∈ ones m', n < 2 ^ f.hash.shash := by
    intro n hn
    rw [hones, Finset.mem_union] at hn
    exact hn.elim (hf.bits n) (digests_lt hbelow n)
  have hsub : ones f.m ⊆ ones m' := by
    rw [hones]
    exact Finset.subset_union_left
  -- there are no more bits than digests
  have hmost : (ones m').card ≤ 2 ^ f.hash.shash := by
    have hrange : ones m' ⊆ Finset.range (2 ^ f.hash.shash) := fun n hn => Finset.mem_range.mpr (hlt n hn)
    exact (Finset.card_le_card hrange).trans_eq (Finset.card_range _)
  have hnone : extra = 0 ↔ (digests f.hash res).toFinset ⊆ ones f.m := by
    rw [← Finset.union_eq_left, ← hones]
    constructor
    · exact fun h => (Finset.eq_of_subset_of_card_le hsub (by omega)).symm
    · intro h
      rw [h] at hcard
      omega
  have hzeros := hf.zeros
  have hshash := Nat.pow_lt_pow_right (by decide : 1 < 2) f.hash.shash_lt
  rw [insert, Exn.except_bind_of_ok hcompute, Exn.except_bind_of_ok hbits]
  dsimp only
  by_cases hextra : extra = 0
  · rw [if_pos hextra, decide_eq_false (not_not.mpr (hnone.mp hextra))]
    refine ⟨_, rfl, ⟨hlen, by rw [hlen']; exact hf.size, hlt, ?_⟩, rfl, hones⟩
    change f.numZeros.toNat + (ones m').card = 2 ^ f.hash.shash
    omega
  · have hnew : ¬(digests f.hash res).toFinset ⊆ ones f.m := fun h => hextra (hnone.mpr h)
    rw [if_neg hextra, decide_eq_true hnew]
    refine ⟨_, rfl, ⟨hlen, by rw [hlen']; exact hf.size, hlt, ?_⟩, rfl, hones⟩
    change (f.numZeros - UInt32.ofNat extra).toNat + (ones m').card = 2 ^ f.hash.shash
    have hof : (UInt32.ofNat extra).toNat = extra := UInt32.toNat_ofNat_of_lt' (show extra < 2 ^ 32 by omega)
    have hle : UInt32.ofNat extra ≤ f.numZeros := by
      rw [UInt32.le_iff_toNat_le, hof]
      omega
    rw [UInt32.toNat_sub_of_le _ _ hle, hof]
    omega

/-- A check after the hashes were computed. -/
theorem check_of_compute (hf : f.Sound) (hcompute : compute sha1 f.hash fuel key f.res = .ok res)
    (hlen : res.length = f.hash.nhash + 1) (hbelow : Below f.hash (f.hash.nhash + 1) res) :
    ∃ f', f.check sha1 fuel key = .ok (f', decide ((digests f.hash res).toFinset ⊆ ones f.m)) ∧ f'.Sound ∧ f'.hash = f.hash ∧
      ones f'.m = ones f.m := by
  have hbits := checkBits_ok hlen hbelow hf.size (List.range' 1 f.hash.nhash) (range'_mem f.hash)
  have hsub : (∀ n ∈ digests f.hash res, n ∈ ones f.m) ↔ (digests f.hash res).toFinset ⊆ ones f.m :=
    ⟨fun h n hn => h n (List.mem_toFinset.mp hn), fun h n hn => h (List.mem_toFinset.mpr hn)⟩
  rw [check, Exn.except_bind_of_ok hcompute, Exn.except_bind_of_ok hbits]
  refine ⟨{ hash := f.hash, res := res, m := f.m, numZeros := f.numZeros }, ?_, ⟨hlen, hf.size, hf.bits, hf.zeros⟩, rfl, rfl⟩
  congr 2
  exact decide_eq_decide.mpr hsub

/-- A call that does not return is one whose digests do not come to an end. -/
theorem insert_cases (hf : f.Sound) (hkey : key ≠ []) (fuel : Nat) :
    f.insert sha1 fuel key = .error .noEnd ∨ ∃ ds f', HashesTo sha1 f.hash key ds ∧
      f.insert sha1 fuel key = .ok (f', decide (¬ds.toFinset ⊆ ones f.m)) ∧ f'.Sound ∧ f'.hash = f.hash ∧
        ones f'.m = ones f.m ∪ ds.toFinset := by
  rcases compute_ok sha1 hkey fuel hf.res with hend | ⟨res, hcompute, hlen, hbelow⟩
  · left
    rw [insert, hend]
    rfl
  · obtain ⟨f', h⟩ := insert_of_compute hf hcompute hlen hbelow
    exact Or.inr ⟨digests f.hash res, f', hashesTo_of_compute hf.res hcompute, h⟩

/-- A check needs more fuel, or answers from the digests of the key. -/
theorem check_cases (hf : f.Sound) (hkey : key ≠ []) (fuel : Nat) :
    f.check sha1 fuel key = .error .noEnd ∨ ∃ ds f', HashesTo sha1 f.hash key ds ∧
      f.check sha1 fuel key = .ok (f', decide (ds.toFinset ⊆ ones f.m)) ∧ f'.Sound ∧ f'.hash = f.hash ∧ ones f'.m = ones f.m := by
  rcases compute_ok sha1 hkey fuel hf.res with hend | ⟨res, hcompute, hlen, hbelow⟩
  · left
    rw [check, hend]
    rfl
  · obtain ⟨f', h⟩ := check_of_compute hf hcompute hlen hbelow
    exact Or.inr ⟨digests f.hash res, f', hashesTo_of_compute hf.res hcompute, h⟩

/-- More fuel changes no insertion. -/
theorem settled_insert (f : Bloomfilter) (key : List UInt8) : Fuel.Settled fun fuel => f.insert sha1 fuel key :=
  (settled_compute key f.res).bind fun _ => (Fuel.settled_const _).bind fun _ => Fuel.settled_const _

/-- More fuel changes no check. -/
theorem settled_check (f : Bloomfilter) (key : List UInt8) : Fuel.Settled fun fuel => f.check sha1 fuel key :=
  (settled_compute key f.res).bind fun _ => (Fuel.settled_const _).bind fun _ => Fuel.settled_const _

/-- The calls on a key whose digests come to an end. -/
theorem returns_insert (hf : f.Sound) (hkey : key ≠ []) {ds : List Nat} (hhash : HashesTo sha1 f.hash key ds) :
    ∃ f', Fuel.Returns (fun fuel => f.insert sha1 fuel key) (f', decide (¬ds.toFinset ⊆ ones f.m)) ∧ f'.Sound ∧ f'.hash = f.hash ∧
      ones f'.m = ones f.m ∪ ds.toFinset := by
  obtain ⟨n, hn⟩ := hhash.compute hkey hf.res
  obtain ⟨res, hcompute, rfl, hlen, hbelow⟩ := hn n (Nat.le_refl n)
  obtain ⟨f', hinsert, h⟩ := insert_of_compute hf hcompute hlen hbelow
  exact ⟨f', settled_insert f key n _ hinsert, h⟩

/-- A check returns on a key with digests. -/
theorem returns_check (hf : f.Sound) (hkey : key ≠ []) {ds : List Nat} (hhash : HashesTo sha1 f.hash key ds) :
    ∃ f', Fuel.Returns (fun fuel => f.check sha1 fuel key) (f', decide (ds.toFinset ⊆ ones f.m)) ∧ f'.Sound ∧ f'.hash = f.hash ∧
      ones f'.m = ones f.m := by
  obtain ⟨n, hn⟩ := hhash.compute hkey hf.res
  obtain ⟨res, hcompute, rfl, hlen, hbelow⟩ := hn n (Nat.le_refl n)
  obtain ⟨f', hcheck, h⟩ := check_of_compute hf hcompute hlen hbelow
  exact ⟨f', settled_check f key n _ hcheck, h⟩

end Bloomfilter

/-! ## The constructor -/

/-- What the hash is made of. -/
theorem khash_eq_ok {nhash shash norep : Int} {h : Khash} (hok : khash nhash shash norep = .ok h) :
    h.nhash = nhash.toNat ∧ h.shash = shash.toNat ∧ h.norep = decide (norep = 1) := by
  unfold khash at hok
  split at hok
  · split at hok
    · split at hok
      · split at hok
        · split at hok
          · split at hok
            · obtain rfl := Except.ok.inj hok
              exact ⟨rfl, rfl, rfl⟩
            · cases hok
          · cases hok
        · cases hok
      · cases hok
    · cases hok
  · cases hok

/-- A new filter is sound and empty. -/
theorem bloomfilter_eq_ok {memory : Nat → UInt32} {nhash shash norep : Int} {f : Bloomfilter}
    (hok : bloomfilter memory nhash shash norep = .ok f) :
    f.Sound ∧ khash nhash shash norep = .ok f.hash ∧ ones f.m = ∅ := by
  obtain ⟨h, hkhash, hok⟩ := Exn.except_bind_eq_ok.mp hok
  obtain ⟨u, -, hok⟩ := Exn.except_bind_eq_ok.mp hok
  obtain rfl := Except.ok.inj hok
  refine ⟨Bloomfilter.sound_clear ?_, hkhash, ones_replicate _⟩
  rw [List.length_map, List.length_range]

end Blockmon.Bloom
