import Blockmon.BloomSha1
import Blockmon.Lemmas.Digests

/-!
# The class `SHA1`, block by block

`Buffers a r s` says that the whole blocks `a` of a message have gone into the state of an object and that the bytes `r` lie in its
block. The bytes of a message and those of the padding get there in the same way.
-/

namespace Blockmon.Bloom

open Standards (Quint wordBE bytesBE)
open BlockHash (absorb absorb_of_lt)

namespace SHA1

/-! ## `ProcessMessageBlock` -/

/-- The shift of the source is a rotation. -/
theorem circularShift_eq {n : Nat} (hn : n < 32) (x : BitVec 32) : circularShift n x = x.rotateLeft n := by
  rw [circularShift, BitVec.rotateLeft_def, Nat.mod_eq_of_lt hn]

/-- The first words are those of the block. -/
theorem getD_firstWords {block : List UInt8} (hblock : block.length = 64) {t : Nat} (ht : t < 16) :
    (firstWords block).getD t 0 = wordBE 32 block t := by
  have hplace : 4 * t + 4 ≤ block.length := by omega
  have hbytes : (block.drop (4 * t)).take 4
      = [block.getD (4 * t) 0, block.getD (4 * t + 1) 0, block.getD (4 * t + 2) 0, block.getD (4 * t + 3) 0] := Hash.take_drop_eq hplace
  have hword : (firstWords block).getD t 0 = Words.ofBytes 32 ((block.drop (4 * t)).take 4) := by
    rw [hbytes, firstWords, List.getD_eq_getElem?_getD, List.getElem?_map, List.getElem?_range ht, Nat.mul_comm 4 t]
    simp only [Option.map_some, Option.getD_some, Words.ofBytes, List.foldl_cons, List.foldl_nil, BitVec.shiftLeft_or_distrib,
      ← BitVec.shiftLeft_add, BitVec.zero_shiftLeft, BitVec.zero_or, Nat.reduceAdd]
  have hlen : ((block.drop (4 * t)).take 4).length ≤ 4 := by
    rw [List.length_take]
    omega
  refine BitVec.eq_of_toNat_eq ?_
  have hlt := (Words.ofBytes 32 ((block.drop (4 * t)).take 4)).isLt
  rw [Words.toNat_ofBytes _ (by omega)] at hlt
  rw [hword, Words.toNat_ofBytes _ (by omega), wordBE, BitVec.toNat_ofNat, Nat.mod_eq_of_lt hlt]

/-- There are as many words as rounds. -/
theorem length_words (W : List (BitVec 32)) (n : Nat) : (words W n).length = W.length + n := by
  induction n with
  | zero => rfl
  | succ n ih =>
    rw [words, List.length_append, ih, List.length_singleton, Nat.add_assoc]

/-- The array holds the words of the schedule. -/
theorem getD_words {W : List (BitVec 32)} {M : Nat → BitVec 32} (hlen : W.length = 16) (hW : ∀ t < 16, W.getD t 0 = M t) (n : Nat) :
    ∀ t < 16 + n, (words W n).getD t 0 = Standards.Sha1.W M t := by
  induction n with
  | zero =>
    intro t ht
    rw [words, hW t ht, Hash.Sha1.W_of_lt ht]
  | succ n ih =>
    intro t ht
    have hlength := length_words W n
    rw [words]
    rcases Nat.lt_or_ge t (16 + n) with hold | hnew
    · rw [List.getD_eq_getElem?_getD, List.getElem?_append_left (by omega), ← List.getD_eq_getElem?_getD]
      exact ih t hold
    · have hlast : t = (words W n).length := by omega
      rw [List.getD_eq_getElem?_getD, List.getElem?_append_right (by omega), ← List.getD_eq_getElem?_getD, ← hlast, Nat.sub_self,
        List.getD_cons_zero, circularShift_eq (by decide)]
      dsimp only
      rw [ih _ (by omega), ih _ (by omega), ih _ (by omega), ih _ (by omega),
        Hash.Sha1.W_of_le (t := t) (by omega)]

/-- Twenty rounds are steps of the standard. -/
theorem rounds_eq {W : List (BitVec 32)} {M : Nat → BitVec 32} {K : BitVec 32} {f : BitVec 32 → BitVec 32 → BitVec 32 → BitVec 32}
    {first : Nat} (hW : ∀ i < 20, W.getD (first + i) 0 = Standards.Sha1.W M (first + i))
    (hf : ∀ i < 20, ∀ x y z, f x y z = Standards.Sha1.f (first + i) x y z) (hK : ∀ i < 20, K = Standards.Sha1.K (first + i)) (q : Quint 32) :
    rounds W K f first q = (List.range 20).foldl (fun q i => Standards.Sha1.step M q (first + i)) q := by
  refine Words.foldl_range_map (fun q => q) 20 (fun q i hi => ?_) q
  rw [Standards.Sha1.step, circularShift_eq (by decide), circularShift_eq (by decide), hW i hi, hf i hi, ← hK i hi]

/-- A block is compressed as the standard says. -/
theorem processMessageBlock_H {s : SHA1} (hblock : s.messageBlock.length = 64) :
    s.processMessageBlock.H = Standards.Sha1.compress s.H s.messageBlock := by
  have hW : ∀ t < 80, (words (firstWords s.messageBlock) 64).getD t 0 = Standards.Sha1.W (wordBE 32 s.messageBlock) t :=
    getD_words rfl (fun t ht => getD_firstWords hblock ht) 64
  have hwords : ∀ first, first ≤ 60 → ∀ i < 20, (words (firstWords s.messageBlock) 64).getD (first + i) 0
      = Standards.Sha1.W (wordBE 32 s.messageBlock) (first + i) := fun first hfirst i hi => hW _ (by omega)
  have hrange : List.range 4 = [0, 1, 2, 3] := rfl
  have hfirst := fun q => rounds_eq (K := 0x5A827999) (f := fun B C D => (B &&& C) ||| (~~~B &&& D)) (hwords 0 (by decide))
    (fun i hi x y z => by rw [Standards.Sha1.f, if_pos (by omega)]) (fun i hi => by rw [Standards.Sha1.K, if_pos (by omega)]) q
  have hsecond := fun q => rounds_eq (K := 0x6ED9EBA1) (f := fun B C D => B ^^^ C ^^^ D) (hwords 20 (by decide))
    (fun i hi x y z => by rw [Standards.Sha1.f, if_neg (by omega), if_pos (by omega)])
    (fun i hi => by rw [Standards.Sha1.K, if_neg (by omega), if_pos (by omega)]) q
  have hthird := fun q => rounds_eq (K := 0x8F1BBCDC) (f := fun B C D => (B &&& C) ||| (B &&& D) ||| (C &&& D)) (hwords 40 (by decide))
    (fun i hi x y z => by rw [Standards.Sha1.f, if_neg (by omega), if_neg (by omega), if_pos (by omega)])
    (fun i hi => by rw [Standards.Sha1.K, if_neg (by omega), if_neg (by omega), if_pos (by omega)]) q
  have hfourth := fun q => rounds_eq (K := 0xCA62C1D6) (f := fun B C D => B ^^^ C ^^^ D) (hwords 60 (by decide))
    (fun i hi x y z => by rw [Standards.Sha1.f, if_neg (by omega), if_neg (by omega), if_neg (by omega)])
    (fun i hi => by rw [Standards.Sha1.K, if_neg (by omega), if_neg (by omega), if_neg (by omega)]) q
  unfold Standards.Sha1.compress processMessageBlock
  rw [show 80 = 4 * 20 from rfl, Words.foldl_range_mul, hrange]
  simp only [List.foldl_cons, List.foldl_nil, hfirst, hsecond, hthird, hfourth]

@[simp] theorem processMessageBlock_messageBlock (s : SHA1) : s.processMessageBlock.messageBlock = s.messageBlock := by
  rw [processMessageBlock]

@[simp] theorem processMessageBlock_messageBlockIndex (s : SHA1) : s.processMessageBlock.messageBlockIndex = 0 := by
  rw [processMessageBlock]

@[simp] theorem processMessageBlock_lengthLow (s : SHA1) : s.processMessageBlock.lengthLow = s.lengthLow := by
  rw [processMessageBlock]

@[simp] theorem processMessageBlock_lengthHigh (s : SHA1) : s.processMessageBlock.lengthHigh = s.lengthHigh := by
  rw [processMessageBlock]

@[simp] theorem processMessageBlock_computed (s : SHA1) : s.processMessageBlock.computed = s.computed := by
  rw [processMessageBlock]

@[simp] theorem processMessageBlock_corrupted (s : SHA1) : s.processMessageBlock.corrupted = s.corrupted := by
  rw [processMessageBlock]

/-! ## Bytes of the block -/

/-- The blocks `a` are in the state, and the bytes `r` in the block. -/
structure Buffers (a r : List UInt8) (s : SHA1) : Prop where
  H : s.H = absorb 64 Standards.Sha1.compress Standards.sha1.iv a
  whole : 64 ∣ a.length
  length_block : s.messageBlock.length = 64
  index : s.messageBlockIndex = r.length
  block : s.messageBlock.take r.length = r
  length_le : r.length ≤ 64

variable {a r m : List UInt8} {s : SHA1}

/-- A byte is put into the buffer. -/
theorem Buffers.put (h : Buffers a r s) (hr : r.length < 64) (b : UInt8) : Buffers a (r ++ [b]) (s.put b) := by
  have hlen : (s.messageBlock.take r.length ++ [b]).length = r.length + 1 := by
    rw [h.block, List.length_append, List.length_singleton]
  refine ⟨h.H, h.whole, ?_, ?_, ?_, ?_⟩
  · rw [SHA1.put, Bytes.overwrite, h.index, List.length_append, hlen, List.length_drop, h.length_block, List.length_singleton]
    omega
  · rw [SHA1.put, h.index, List.length_append, List.length_singleton]
  · rw [SHA1.put, Bytes.overwrite, h.index, List.length_append, List.length_singleton, ← hlen, List.take_left, h.block]
  · rw [List.length_append, List.length_singleton]
    omega

/-- A full block goes into the state. -/
theorem process_of_block (hH : s.H = absorb 64 Standards.Sha1.compress Standards.sha1.iv a) (hwhole : 64 ∣ a.length) (hblock : s.messageBlock = r)
    (hr : r.length = 64) : Buffers (a ++ r) [] s.processMessageBlock := by
  obtain ⟨n, hn⟩ := hwhole
  have hlen : s.messageBlock.length = 64 := by rw [hblock, hr]
  refine ⟨?_, ?_, ?_, ?_, ?_, ?_⟩
  · have hsplit : absorb 64 Standards.Sha1.compress Standards.sha1.iv (a ++ r)
        = absorb 64 Standards.Sha1.compress (absorb 64 Standards.Sha1.compress Standards.sha1.iv a) r :=
      BlockHash.absorb_append_of_blocks (by decide) n (hn.trans (Nat.mul_comm 64 n)) r Standards.sha1.iv
    have hone : absorb 64 Standards.Sha1.compress s.H r = Standards.Sha1.compress s.H r := by
      have hfirst : absorb 64 Standards.Sha1.compress s.H (r ++ [])
          = absorb 64 Standards.Sha1.compress (Standards.Sha1.compress s.H r) [] := BlockHash.absorb_block (by decide) hr []
      rw [List.append_nil, absorb_of_lt (m := []) (by decide)] at hfirst
      exact hfirst
    rw [processMessageBlock_H hlen, hsplit, ← hH, hone, hblock]
  · rw [List.length_append, hr]
    exact Nat.dvd_add ⟨n, hn⟩ (Nat.dvd_refl 64)
  · rw [processMessageBlock_messageBlock, hlen]
  · rw [processMessageBlock_messageBlockIndex, List.length_nil]
  · rw [List.length_nil, List.take_zero]
  · rw [List.length_nil]
    exact Nat.zero_le 64

/-- A full block is processed. -/
theorem Buffers.process (h : Buffers a r s) (hr : r.length = 64) : Buffers (a ++ r) [] s.processMessageBlock := by
  refine process_of_block h.H h.whole ?_ hr
  rw [← h.block, hr, ← h.length_block, List.take_length]

/-- By induction on the number of zeros. -/
theorem Buffers.zeros (h : Buffers a r s) (n : Nat) (hn : r.length + n ≤ 64) :
    Buffers a (r ++ List.replicate n 0) ((List.range n).foldl (fun s _ => s.put 0) s) := by
  induction n with
  | zero =>
    rw [List.replicate_zero, List.append_nil]
    exact h
  | succ n ih =>
    have hlast := (ih (by omega)).put (by rw [List.length_append, List.length_replicate]; omega) 0
    rw [List.range_succ, List.foldl_append, List.replicate_succ', ← List.append_assoc]
    exact hlast

/-- Zeros are put up to a position. -/
theorem Buffers.fillTo (h : Buffers a r s) {n : Nat} (hr : r.length ≤ n) (hn : n ≤ 64) :
    Buffers a (r ++ List.replicate (n - r.length) 0) (s.fillTo n) := by
  rw [SHA1.fillTo, h.index]
  exact h.zeros _ (by omega)

/-! ## Messages -/

/-- A message with its length, below 2^64 bits. -/
structure Holds (m : List UInt8) (s : SHA1) : Prop where
  buffers : ∃ a r, m = a ++ r ∧ r.length < 64 ∧ Buffers a r s
  lengthLow : s.lengthLow.toNat = 8 * m.length % 2 ^ 32
  lengthHigh : s.lengthHigh.toNat = 8 * m.length / 2 ^ 32
  computed : s.computed = false
  corrupted : s.corrupted = false

/-- A reset has absorbed nothing. -/
theorem holds_reset {s : SHA1} (hlen : s.messageBlock.length = 64) : Holds [] s.reset where
  buffers := ⟨[], [], rfl, by decide, ⟨(absorb_of_lt (m := []) (by decide)).symm, by decide, hlen, rfl, rfl, by decide⟩⟩
  lengthLow := rfl
  lengthHigh := rfl
  computed := rfl
  corrupted := rfl

/-- The two halves of the length of a message, in bits, and those with one more byte. -/
theorem countByte_spec {n : Nat} (hlow : s.lengthLow.toNat = 8 * n % 2 ^ 32) (hhigh : s.lengthHigh.toNat = 8 * n / 2 ^ 32) :
    s.countByte.lengthLow.toNat = 8 * (n + 1) % 2 ^ 32 ∧ s.countByte.lengthHigh.toNat = 8 * (n + 1) / 2 ^ 32 % 2 ^ 32 ∧
      s.countByte.corrupted = (s.corrupted || decide (n + 1 = 2 ^ 61)) := by
  have hlow' : (s.lengthLow + 8).toNat = (8 * n + 8) % 2 ^ 32 := by
    rw [BitVec.toNat_add, hlow]
    exact Nat.mod_add_mod _ _ _
  have hhigh' : (s.lengthHigh + 1).toNat = (8 * n / 2 ^ 32 + 1) % 2 ^ 32 := by
    rw [BitVec.toNat_add, hhigh]
    rfl
  have hzero : s.lengthLow + 8 = 0 ↔ (8 * n + 8) % 2 ^ 32 = 0 := by
    rw [← hlow', BitVec.toNat_eq]
    rfl
  have hzero' : s.lengthHigh + 1 = 0 ↔ (8 * n / 2 ^ 32 + 1) % 2 ^ 32 = 0 := by
    rw [← hhigh', BitVec.toNat_eq]
    rfl
  unfold countByte
  dsimp only
  split
  · next hwrap =>
    rw [hzero] at hwrap
    refine ⟨hlow', ?_, ?_⟩
    · dsimp only
      rw [hhigh']
      omega
    · dsimp only
      split
      · next hlast =>
        rw [hzero'] at hlast
        have hend : n + 1 = 2 ^ 61 := by omega
        rw [decide_eq_true hend, Bool.or_true]
      · next hmore =>
        rw [hzero'] at hmore
        have hend : n + 1 ≠ 2 ^ 61 := by omega
        rw [decide_eq_false hend, Bool.or_false]
  · next hsame =>
    rw [hzero] at hsame
    refine ⟨hlow', ?_, ?_⟩
    · dsimp only
      rw [hhigh]
      omega
    · have hend : n + 1 ≠ 2 ^ 61 := by omega
      dsimp only
      rw [decide_eq_false hend, Bool.or_false]

/-- Counting leaves everything else alone. -/
theorem countByte_frame (s : SHA1) : s.countByte.H = s.H ∧ s.countByte.messageBlock = s.messageBlock ∧
    s.countByte.messageBlockIndex = s.messageBlockIndex ∧ s.countByte.computed = s.computed := by
  unfold countByte
  dsimp only
  split
  · exact ⟨rfl, rfl, rfl, rfl⟩
  · exact ⟨rfl, rfl, rfl, rfl⟩

/-- The count of the bits leaves the buffer. -/
theorem Buffers.countByte (h : Buffers a r s) : Buffers a r s.countByte := by
  obtain ⟨hH, hblock, hindex, -⟩ := countByte_frame s
  exact ⟨hH.trans h.H, h.whole, by rw [hblock, h.length_block], by rw [hindex, h.index], by rw [hblock, h.block], h.length_le⟩

/-- After a byte: its length, whether it was one too many, and the block. -/
theorem inputByte_spec (h : Holds m s) (b : UInt8) : (s.inputByte b).corrupted = decide (m.length + 1 = 2 ^ 61) ∧
    (s.inputByte b).messageBlock.length = 64 ∧ (m.length + 1 < 2 ^ 61 → Holds (m ++ [b]) (s.inputByte b)) := by
  obtain ⟨a, r, hm, hr, hbuffers⟩ := h.buffers
  obtain ⟨hlow, hhigh, hcorrupted⟩ := countByte_spec (s := s.put b) h.lengthLow h.lengthHigh
  have hnext := (hbuffers.put hr b).countByte
  have hcomputed : (s.put b).countByte.computed = false := (countByte_frame (s.put b)).2.2.2.trans h.computed
  have hbad : (s.put b).corrupted = false := h.corrupted
  rw [hbad, Bool.false_or] at hcorrupted
  have hlength : (m ++ [b]).length = m.length + 1 := by
    rw [List.length_append, List.length_singleton]
  unfold inputByte
  dsimp only
  rw [hnext.index, List.length_append, List.length_singleton]
  split
  · next hfull =>
    have hprocessed := hnext.process (by rw [List.length_append, List.length_singleton, hfull])
    refine ⟨?_, hprocessed.length_block, ?_⟩
    · rw [processMessageBlock_corrupted, hcorrupted]
    · intro hshort
      refine ⟨⟨a ++ (r ++ [b]), [], by rw [hm, List.append_nil, List.append_assoc], by decide, hprocessed⟩, ?_, ?_, ?_, ?_⟩
      · rw [processMessageBlock_lengthLow, hlow, hlength]
      · rw [processMessageBlock_lengthHigh, hhigh, hlength]
        omega
      · rw [processMessageBlock_computed, hcomputed]
      · rw [processMessageBlock_corrupted, hcorrupted]
        exact decide_eq_false (by omega)
  · next hmore =>
    refine ⟨hcorrupted, hnext.length_block, ?_⟩
    intro hshort
    have hshort : (r ++ [b]).length < 64 := by
      rw [List.length_append, List.length_singleton]
      omega
    refine ⟨⟨a, r ++ [b], by rw [hm, List.append_assoc], hshort, hnext⟩, ?_, ?_, hcomputed, ?_⟩
    · rw [hlow, hlength]
    · rw [hhigh, hlength]
      omega
    · rw [hcorrupted]
      exact decide_eq_false (by omega)

/-- A corrupted object takes nothing. -/
theorem inputLoop_of_corrupted (h : s.corrupted = true) (bs : List UInt8) : s.inputLoop bs = s := by
  cases bs with
  | nil => rfl
  | cons b bs => rw [inputLoop, if_pos h]

/-- By induction on the input: all of it goes in, or the object is corrupted at the byte that makes the message too long. -/
theorem inputLoop_spec (h : Holds m s) (hm : m.length < 2 ^ 61) (bs : List UInt8) :
    (s.inputLoop bs).messageBlock.length = 64 ∧ ((m ++ bs).length < 2 ^ 61 → Holds (m ++ bs) (s.inputLoop bs)) ∧
      (2 ^ 61 ≤ (m ++ bs).length → (s.inputLoop bs).corrupted = true) := by
  induction bs generalizing m s with
  | nil =>
    obtain ⟨a, r, -, -, hbuffers⟩ := h.buffers
    rw [List.append_nil]
    exact ⟨hbuffers.length_block, fun _ => h, fun hlong => by omega⟩
  | cons b bs ih =>
    obtain ⟨hcorrupted, hblock, hnext⟩ := inputByte_spec h b
    have hsplit : m ++ b :: bs = m ++ [b] ++ bs := by rw [List.append_assoc, List.singleton_append]
    have hlength : (m ++ [b]).length = m.length + 1 := by
      rw [List.length_append, List.length_singleton]
    rw [inputLoop, h.corrupted, if_neg Bool.false_ne_true, hsplit]
    rcases Nat.lt_or_ge (m.length + 1) (2 ^ 61) with hshort | hlast
    · exact ih (hnext hshort) (by omega)
    · have hone : m.length + 1 = 2 ^ 61 := by omega
      rw [decide_eq_true hone] at hcorrupted
      rw [inputLoop_of_corrupted hcorrupted]
      refine ⟨hblock, ?_, fun _ => hcorrupted⟩
      intro hshort
      rw [List.length_append, hlength] at hshort
      omega

/-! ## The end of a message -/

/-- Filling leaves the length alone. -/
theorem fillTo_frame (n : Nat) (s : SHA1) : (s.fillTo n).lengthLow = s.lengthLow ∧ (s.fillTo n).lengthHigh = s.lengthHigh := by
  unfold fillTo
  induction n - s.messageBlockIndex with
  | zero => exact ⟨rfl, rfl⟩
  | succ k ih =>
    rw [List.range_succ, List.foldl_append]
    exact ih

/-- Zeros corrupt nothing. -/
theorem fillTo_corrupted (n : Nat) (s : SHA1) : (s.fillTo n).corrupted = s.corrupted := by
  unfold fillTo
  induction n - s.messageBlockIndex with
  | zero => rfl
  | succ k ih =>
    rw [List.range_succ, List.foldl_append]
    exact ih

/-- The padding corrupts nothing. -/
theorem padding_corrupted (s : SHA1) :
    (if 55 < s.messageBlockIndex then ((s.put 0x80).fillTo 64).processMessageBlock.fillTo 56 else (s.put 0x80).fillTo 56).corrupted
      = s.corrupted := by
  split
  · rw [fillTo_corrupted, processMessageBlock_corrupted, fillTo_corrupted]
    rfl
  · rw [fillTo_corrupted]
    rfl

/-- The bytes before the length, and the object when they are in the block. -/
theorem padded (h : Holds m s) : ∃ a r s', Buffers a r s' ∧ s'.lengthLow = s.lengthLow ∧ s'.lengthHigh = s.lengthHigh ∧ r.length = 56 ∧
    a ++ r = m ++ 0x80 :: List.replicate (Standards.sha1.zeros m.length) 0 ∧
    s' = if 55 < s.messageBlockIndex then ((s.put 0x80).fillTo 64).processMessageBlock.fillTo 56 else (s.put 0x80).fillTo 56 := by
  obtain ⟨a, r, hm, hr, hbuffers⟩ := h.buffers
  have hmlen : m.length = a.length + r.length := by rw [hm, List.length_append]
  obtain ⟨q, hq⟩ := hbuffers.whole
  have hput := hbuffers.put hr 0x80
  have hputlen : (r ++ [(0x80 : UInt8)]).length = r.length + 1 := by rw [List.length_append, List.length_singleton]
  have hzeros : ∀ k, k < 64 → 64 ∣ m.length + 1 + 8 + k → k = Standards.sha1.zeros m.length :=
    fun k hk hdvd => Standards.sha1.zeros_eq hk (by rw [show (Standards.sha1.lengthBytes m.length).length = 8 from rfl]; exact hdvd)
  rcases Nat.lt_or_ge 55 r.length with hlong | hshort
  · have hfull := hput.fillTo (n := 64) (by omega) (by decide)
    have hfulllen : (r ++ [(0x80 : UInt8)] ++ List.replicate (64 - (r ++ [(0x80 : UInt8)]).length) 0).length = 64 := by
      rw [List.length_append, List.length_replicate, hputlen]
      omega
    have hlast := (hfull.process hfulllen).fillTo (n := 56) (by rw [List.length_nil]; decide) (by decide)
    obtain ⟨hl, hh⟩ := fillTo_frame 56 ((s.put 0x80).fillTo 64).processMessageBlock
    obtain ⟨hl', hh'⟩ := fillTo_frame 64 (s.put 0x80)
    have hk : 63 - r.length + 56 = Standards.sha1.zeros m.length := by
      refine hzeros _ (by omega) ⟨q + 2, ?_⟩
      omega
    refine ⟨_, _, _, hlast, ?_, ?_, rfl, ?_, ?_⟩
    · rw [hl, processMessageBlock_lengthLow, hl']
      rfl
    · rw [hh, processMessageBlock_lengthHigh, hh']
      rfl
    · rw [← hk, List.replicate_add, hputlen]
      simp only [List.nil_append, List.append_assoc, List.cons_append, List.length_nil, Nat.sub_zero, hm]
      rw [show 64 - (r.length + 1) = 63 - r.length by omega]
    · rw [hbuffers.index, if_pos hlong]
  · have hlast := hput.fillTo (n := 56) (by omega) (by decide)
    obtain ⟨hl, hh⟩ := fillTo_frame 56 (s.put 0x80)
    have hk : 55 - r.length = Standards.sha1.zeros m.length := by
      refine hzeros _ (by omega) ⟨q + 1, ?_⟩
      omega
    refine ⟨_, _, _, hlast, hl, hh, ?_, ?_, ?_⟩
    · rw [List.length_append, List.length_replicate, hputlen]
      omega
    · rw [← hk, hputlen]
      simp only [List.append_assoc, List.cons_append, List.nil_append, hm]
      rw [show 56 - (r.length + 1) = 55 - r.length by omega]
    · rw [hbuffers.index, if_neg (by omega)]

/-- The length of a message as it is written behind its padding. -/
theorem lengthBytes_eq {x y : BitVec 32} {n : Nat} (hx : x.toNat = 8 * n / 2 ^ 32) (hy : y.toNat = 8 * n % 2 ^ 32) :
    [Words.byteAt x 24, Words.byteAt x 16, Words.byteAt x 8, Words.byteAt x 0, Words.byteAt y 24, Words.byteAt y 16, Words.byteAt y 8,
      Words.byteAt y 0] = Standards.sha1.lengthBytes n := by
  have hword : ∀ z : BitVec 32, [Words.byteAt z 24, Words.byteAt z 16, Words.byteAt z 8, Words.byteAt z 0] = (Bytes.encode 4 z.toNat).reverse := by
    intro z
    have hbytes : [Words.byteAt z 24, Words.byteAt z 16, Words.byteAt z 8, Words.byteAt z 0]
        = ((List.range 4).map fun k => Words.byteAt z (8 * k)).reverse := rfl
    rw [hbytes, Bytes.encode_eq_map]
    exact congrArg List.reverse (List.map_congr_left fun k _ => Words.byteAt_eq z k)
  have hlow : Bytes.encode 4 (8 * n) = Bytes.encode 4 y.toNat := by
    refine Bytes.encode_congr ?_
    rw [hy]
    exact (Nat.mod_mod _ _).symm
  have hhigh : 8 * n / 256 ^ 4 = x.toNat := hx.symm
  rw [show Standards.sha1.lengthBytes n = (Bytes.encode (4 + 4) (8 * n)).reverse from rfl, Bytes.encode_add, List.reverse_append, hhigh, hlow,
    ← hword, ← hword]
  rfl

/-- The last block, with the length, goes into the state. -/
theorem padMessage_spec (h : Holds m s) : s.padMessage.H = absorb 64 Standards.Sha1.compress Standards.sha1.iv (Standards.sha1.pad m) ∧
    s.padMessage.messageBlock.length = 64 ∧ s.padMessage.corrupted = false := by
  obtain ⟨a, r, s', hbuffers, hlow, hhigh, hr, hpad, hs'⟩ := padded h
  unfold padMessage
  dsimp only
  rw [← hs', lengthBytes_eq (hhigh ▸ h.lengthHigh) (hlow ▸ h.lengthLow)]
  have hlen : (Standards.sha1.lengthBytes m.length).length = 8 := rfl
  have hblock : Bytes.overwrite s'.messageBlock 56 (Standards.sha1.lengthBytes m.length) = r ++ Standards.sha1.lengthBytes m.length := by
    have htake : s'.messageBlock.take 56 = r := by
      rw [← hr]
      exact hbuffers.block
    have hdrop : s'.messageBlock.drop (56 + (Standards.sha1.lengthBytes m.length).length) = [] := by
      refine List.drop_eq_nil_of_le ?_
      rw [hbuffers.length_block, hlen]
    rw [Bytes.overwrite, htake, hdrop, List.append_nil]
  have hlast := process_of_block (s := { s' with messageBlock := Bytes.overwrite s'.messageBlock 56 (Standards.sha1.lengthBytes m.length) })
    hbuffers.H hbuffers.whole hblock (by rw [List.length_append, hr, hlen])
  refine ⟨?_, hlast.length_block, ?_⟩
  · rw [hlast.H, ← List.append_assoc, hpad]
    rfl
  · rw [processMessageBlock_corrupted, hs', padding_corrupted, h.corrupted]

end SHA1

end Blockmon.Bloom
