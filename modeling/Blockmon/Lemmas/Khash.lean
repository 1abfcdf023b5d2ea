import Blockmon.Bloom
import Blockmon.Lib.BitWindow
import Blockmon.Lib.Collect
import Blockmon.Lib.Fuel
import Mathlib.Data.List.Nodup

/-!
# What `compute` computes

The digests of the key, each the digest of the bytes of the one before it, make a stream of bits, and a pass of the loop takes the next window of it
(`nextDigest_window`). So `compute` returns or goes on; what it returns depends on the key alone, not on what the output vector held before
(`compute_digests`).
-/

namespace Blockmon.Bloom

open BitWindow Collect

/-! ## Bits of a word -/

/-- An assertion that holds passes. -/
theorem assert_of {c : Prop} [Decidable c] (hc : c) (expr : String) : assert c expr = .ok () := if_pos hc

/-- The mask of the low bits. -/
def maskOf (bit : Nat) : UInt32 := (1 <<< UInt32.ofNat bit) - 1

/-- A power of two, as a shift. -/
theorem toNat_one_shiftLeft {bit : Nat} (h : bit < 32) : ((1 : UInt32) <<< UInt32.ofNat bit).toNat = 2 ^ bit := by
  have hall : ∀ bit < 32, ((1 : UInt32) <<< UInt32.ofNat bit).toNat = 2 ^ bit := by decide
  exact hall bit h

/-- The value of the mask. -/
theorem toNat_maskOf {bit : Nat} (h : bit < 32) : (maskOf bit).toNat = 2 ^ bit - 1 := by
  have hall : ∀ bit < 32, (maskOf bit).toNat = 2 ^ bit - 1 := by decide
  exact hall bit h

/-- The mask takes the remainder. -/
theorem toNat_and_maskOf (w : UInt32) {bit : Nat} (h : bit < 32) : (w &&& maskOf bit).toNat = w.toNat % 2 ^ bit := by
  rw [UInt32.toNat_and, toNat_maskOf h, Nat.and_two_pow_sub_one_eq_mod]

/-- `bitmask` makes the mask. -/
theorem bitmask_ok (bit : Int) (h0 : 0 < bit) (h : bit < 32) : bitmask bit = .ok (maskOf bit.toNat) := by
  rw [bitmask, Exn.except_bind_of_ok (assert_of ⟨by omega, by omega⟩ _), if_neg (by omega), if_neg (by omega)]
  rfl

/-! ## The stream of bits -/

/-- The bytes of a word, the lowest first. -/
def wordBytes (w : UInt32) : List UInt8 := [w.toUInt8, (w >>> 8).toUInt8, (w >>> 16).toUInt8, (w >>> 24).toUInt8]

/-- The bytes of a digest, word by word. -/
def digestBytes (d : Digest) : List UInt8 := (List.finRange 5).flatMap fun g => wordBytes (d.get g)

/-- A word of a digest. -/
theorem word_get (d : Digest) {g : Nat} (hg : g < 5) : word d g = .ok (d.get ⟨g, hg⟩) := by
  rw [word, dif_pos ⟨by omega, by omega⟩]
  rfl

/-- The mask of a byte changes no byte. -/
theorem toUInt8_and_mask (w : UInt32) : (w &&& 0xFF).toUInt8 = w.toUInt8 := by
  have hmask : (0xFF : UInt32).toNat = 2 ^ 8 - 1 := rfl
  rw [← UInt8.toNat_inj, UInt32.toNat_toUInt8, UInt32.toNat_toUInt8, UInt32.toNat_and, hmask, Nat.and_two_pow_sub_one_eq_mod, Nat.mod_mod]

/-- A pass of the loop copies the byte `j` of the word `g`. -/
theorem copyWords_byte (vin : Digest) (fuel : Nat) {g j : Nat} (hg : g < 5) (hj : j < 4) (vout : List UInt8) :
    copyWords vin (fuel + 1) g (4 * g + j) vout =
      copyWords vin fuel (if j = 3 then g + 1 else g) (4 * g + (j + 1))
        (vout ++ [(vin.get ⟨g, hg⟩ >>> UInt32.ofNat (j * 8)).toUInt8]) := by
  have hmod : (4 * g + j) % 4 = j := by omega
  have hend : (4 * g + (j + 1)) % 4 = 0 ↔ j = 3 := by omega
  rw [copyWords, if_pos (by omega), Exn.except_bind_of_ok (word_get vin hg)]
  simp only [hmod, Nat.add_assoc, hend, toUInt8_and_mask]

/-- The copy of one word. -/
theorem copyWords_word (vin : Digest) (fuel : Nat) {g : Nat} (hg : g < 5) (vout : List UInt8) :
    copyWords vin (fuel + 4) g (4 * g) vout =
      copyWords vin fuel ((g + 1 : Nat) : Int) (4 * (g + 1)) (vout ++ wordBytes (vin.get ⟨g, hg⟩)) := by
  let w := vin.get ⟨g, hg⟩
  have hbytes : vout ++ wordBytes w = (((vout ++ [(w >>> 0).toUInt8]) ++ [(w >>> 8).toUInt8]) ++ [(w >>> 16).toUInt8]) ++ [(w >>> 24).toUInt8] := by
    simp [wordBytes]
  calc copyWords vin (fuel + 4) g (4 * g) vout
      = copyWords vin (fuel + 3) g (4 * g + 1) (vout ++ [(w >>> 0).toUInt8]) := copyWords_byte vin (fuel + 3) hg (show 0 < 4 by decide) _
    _ = copyWords vin (fuel + 2) g (4 * g + 2) _ := copyWords_byte vin (fuel + 2) hg (show 1 < 4 by decide) _
    _ = copyWords vin (fuel + 1) g (4 * g + 3) _ := copyWords_byte vin (fuel + 1) hg (show 2 < 4 by decide) _
    _ = copyWords vin fuel ((g + 1 : Nat) : Int) (4 * (g + 1)) _ := copyWords_byte vin fuel hg (show 3 < 4 by decide) _
    _ = _ := by rw [hbytes]; rfl

/-- The copy of a digest has its bytes. -/
theorem copySha_eq (vin : Digest) : copySha vin = .ok (digestBytes vin) := by
  have hbytes : digestBytes vin = ((([] ++ wordBytes (vin.get 0)) ++ wordBytes (vin.get 1)) ++ wordBytes (vin.get 2)) ++
      wordBytes (vin.get 3) ++ wordBytes (vin.get 4) := by
    simp [digestBytes, List.finRange_succ, List.append_assoc]
  have hcopy : copyWords vin 21 0 0 [] = .ok (5, 20, digestBytes vin) := by
    rw [hbytes]
    calc copyWords vin 21 0 0 []
        = copyWords vin 17 1 4 _ := copyWords_word vin 17 (show 0 < 5 by decide) []
      _ = copyWords vin 13 2 8 _ := copyWords_word vin 13 (show 1 < 5 by decide) _
      _ = copyWords vin 9 3 12 _ := copyWords_word vin 9 (show 2 < 5 by decide) _
      _ = copyWords vin 5 4 16 _ := copyWords_word vin 5 (show 3 < 5 by decide) _
      _ = copyWords vin 1 5 20 _ := copyWords_word vin 1 (show 4 < 5 by decide) _
      _ = _ := rfl
  rw [copySha, Exn.except_bind_of_ok hcopy]
  rfl

section Stream

variable (sha1 : List UInt8 → Digest) (key : List UInt8)

/-- The digest of the key, and from each digest the next. -/
def digestAt : Nat → Digest
  | 0 => sha1 key
  | i + 1 => sha1 (digestBytes (digestAt i))

/-- The words of the digests, one digest behind the other. -/
def wordAt (g : Nat) : UInt32 := (digestAt sha1 key (g / 5)).get ⟨g % 5, Nat.mod_lt _ (by decide)⟩

/-- Their bits, of each word the lowest first. -/
def stream : Nat → Bool := bitsOf 32 fun g => (wordAt sha1 key g).toNat

/-- A word is a window of the stream. -/
theorem toNat_wordAt (g : Nat) : (wordAt sha1 key g).toNat = window (stream sha1 key) (32 * g) 32 :=
  (window_bitsOf (W := fun g => (wordAt sha1 key g).toNat) (wordAt sha1 key g).toNat_lt).symm

/-- A word of a digest, by its number in the stream. -/
theorem word_digestAt {i g : Nat} {blk : Int} (hi : i = g / 5) (hblk : blk = (g % 5 : Nat)) :
    word (digestAt sha1 key i) blk = .ok (wordAt sha1 key g) := by
  subst hi hblk
  exact word_get _ (Nat.mod_lt _ (by decide))

end Stream

section Windows

variable {b : Nat → Bool} {pos s : Nat}

/-- The bits of a window that lie in the word where it begins. -/
theorem toNat_low {first : UInt32} (hfirst : first.toNat = window b (32 * (pos / 32)) 32) (hs : s < 32) :
    ((first >>> UInt32.ofNat (pos % 32)) &&& maskOf s).toNat = window b pos (min s (32 - pos % 32)) := by
  have hlt : pos % 32 < 32 := Nat.mod_lt _ (by decide)
  have hmod : (UInt32.ofNat (pos % 32)).toNat % 32 = pos % 32 := by
    rw [UInt32.toNat_ofNat_of_lt' (show pos % 32 < 2 ^ 32 by omega), Nat.mod_mod]
  have hplace : 32 * (pos / 32) + pos % 32 = pos := Nat.div_add_mod pos 32
  rw [toNat_and_maskOf _ hs, UInt32.toNat_shiftRight, hmod, hfirst, window_shiftRight (by omega), window_mod, hplace]

/-- And those that lie in the next word. -/
theorem toNat_high {next : UInt32} {carry : Nat} (hnext : next.toNat = window b (32 * (pos / 32 + 1)) 32) (hs : s < 32)
    (hcarry : pos % 32 + s = 32 + carry) (hpos : 0 < carry) :
    ((next &&& maskOf carry) <<< UInt32.ofNat (s - carry)).toNat = window b (pos + (32 - pos % 32)) carry <<< (32 - pos % 32) := by
  have hlow : (next &&& maskOf carry).toNat = window b (pos + (32 - pos % 32)) carry := by
    have hplace : 32 * (pos / 32 + 1) = pos + (32 - pos % 32) := by omega
    rw [toNat_and_maskOf _ (by omega), hnext, window_mod, hplace, Nat.min_eq_left (by omega)]
  have hlt : (next &&& maskOf carry).toNat < 2 ^ carry := by
    rw [hlow]
    exact window_lt _ _ _
  have hshift : s - carry = 32 - pos % 32 := by omega
  rw [toNat_shiftLeft_of_lt hlt (by omega) (by omega), hlow, hshift]

end Windows

/-! ## A pass of the loop -/

section Compute

variable (sha1 : List UInt8 → Digest) (h : Khash)

theorem spill_window {b : Nat → Bool} {pos : Nat} (msgdig : Digest) {sBlk carry : Int} {r next : UInt32}
    (hcarry : carry = (pos % 32 : Nat) + h.shash - 32) (hr : r.toNat = window b pos (min h.shash (32 - pos % 32)))
    (hword : 0 < carry → word msgdig (sBlk + 1) = .ok next) (hnext : next.toNat = window b (32 * (pos / 32 + 1)) 32) :
    ∃ r', spill h msgdig sBlk carry r = .ok r' ∧ r'.toNat = window b pos h.shash := by
  have hshash := h.shash_lt
  rw [spill]
  by_cases hpos : 0 < carry
  · rw [if_pos hpos, Exn.except_bind_of_ok (hword hpos), Exn.except_bind_of_ok (bitmask_ok carry hpos (by omega))]
    refine ⟨_, rfl, ?_⟩
    have hshift : (h.shash - carry).toNat = h.shash - carry.toNat := by omega
    have hmin : min h.shash (32 - pos % 32) = 32 - pos % 32 := by omega
    have hsum : 32 - pos % 32 + carry.toNat = h.shash := by omega
    rw [UInt32.toNat_or, hr, hmin, hshift, toNat_high hnext hshash (by omega) (by omega), window_or_shiftLeft, hsum]
  · rw [if_neg hpos]
    have hmin : min h.shash (32 - pos % 32) = h.shash := by omega
    exact ⟨r, rfl, by rw [hr, hmin]⟩

variable {key : List UInt8}

/-- The source from which the bits behind the first `pos` are taken. -/
structure Source.At (key : List UInt8) (src : Source) (pos : Nat) : Prop where
  msgdig : src.msgdig = digestAt sha1 key (pos / 160)
  md : src.md = digestBytes (digestAt sha1 key (pos / 160))
  ptr : src.ptr = (pos % 160 : Nat)

/-- The source and the block behind the refill, if there is one. -/
theorem refill_at {src : Source} {pos : Nat} (hsrc : src.At sha1 key pos) {sBlk carry : Int} (hblk : sBlk = (pos / 32 % 5 : Nat))
    (hcarry : carry = (pos % 32 : Nat) + h.shash - 32) :
    ∃ src' sBlk', refill sha1 src sBlk carry = .ok (src', sBlk') ∧
      (0 < carry → word src'.msgdig (sBlk' + 1) = .ok (wordAt sha1 key (pos / 32 + 1))) ∧
      Source.At sha1 key { msgdig := src'.msgdig, md := src'.md, ptr := src'.ptr + h.shash } (pos + h.shash) := by
  have hshash := h.shash_lt
  have hptr := hsrc.ptr
  rw [refill]
  by_cases hend : 0 ≤ carry ∧ sBlk = 4
  · obtain ⟨hge, hfour⟩ := hend
    have hdigest : (pos + h.shash) / 160 = pos / 160 + 1 := by omega
    have hnext : sha1 src.md = digestAt sha1 key ((pos + h.shash) / 160) := by rw [hdigest, digestAt, hsrc.md]
    rw [if_pos ⟨hge, hfour⟩, Exn.except_bind_of_ok (copySha_eq (sha1 src.md))]
    refine ⟨_, -1, rfl, fun _ => ?_, hnext, by rw [hnext], ?_⟩
    · dsimp only
      rw [hnext]
      exact word_digestAt sha1 key (by omega) (by omega)
    · dsimp only
      omega
  · have hdigest : (pos + h.shash) / 160 = pos / 160 := by omega
    rw [if_neg hend]
    refine ⟨src, sBlk, rfl, fun hpos => ?_, by rw [hsrc.msgdig, hdigest], by rw [hsrc.md, hdigest], ?_⟩
    · rw [hsrc.msgdig]
      exact word_digestAt sha1 key (by omega) (by omega)
    · dsimp only
      omega

/-- A pass takes the next window of the stream, with no assertion failing and every index in range. -/
theorem nextDigest_window {src : Source} {pos : Nat} (hsrc : src.At sha1 key pos) :
    ∃ r src', nextDigest sha1 h src = .ok (r, src') ∧ r.toNat = window (stream sha1 key) pos h.shash ∧
      src'.At sha1 key (pos + h.shash) := by
  have hshash := h.shash_lt
  have hpos := h.shash_pos
  have hptr := hsrc.ptr
  have hdiv : src.ptr.tdiv 32 = (pos / 32 % 5 : Nat) := by
    rw [Int.tdiv_eq_ediv_of_nonneg (by omega)]
    omega
  have hmod : src.ptr.tmod 32 = (pos % 32 : Nat) := by
    rw [Int.tmod_eq_emod_of_nonneg (by omega)]
    omega
  have hfirst : word src.msgdig (src.ptr.tdiv 32) = .ok (wordAt sha1 key (pos / 32)) := by
    rw [hsrc.msgdig]
    exact word_digestAt sha1 key (by omega) hdiv
  have hmask := bitmask_ok h.shash (by omega) (by omega)
  have hcarry : src.ptr.tmod 32 + h.shash - 32 = (pos % 32 : Nat) + h.shash - 32 := by rw [hmod]
  obtain ⟨src', sBlk, hrefill, hword, hat⟩ := refill_at sha1 h hsrc hdiv hcarry
  have hlow := toNat_low (toNat_wordAt sha1 key (pos / 32)) hshash
  obtain ⟨r, hspill, hr⟩ := spill_window h src'.msgdig hcarry hlow hword (toNat_wordAt sha1 key (pos / 32 + 1))
  have hend := hat.ptr
  dsimp only at hend
  refine ⟨r, _, ?_, hr, hat⟩
  rw [nextDigest, Exn.except_bind_of_ok hfirst, Exn.except_bind_of_ok hmask, Exn.except_bind_of_ok hrefill]
  dsimp only
  have hshift : (src.ptr.tmod 32).toNat = pos % 32 := by omega
  rw [hshift, Int.toNat_natCast, Exn.except_bind_of_ok hspill, Exn.except_bind_of_ok (assert_of ⟨by omega, by omega⟩ _)]

/-! ## The loop -/

theorem skipRepeated_le (res : List UInt32) (n : Nat) {i k : Nat} (hi : 1 ≤ i) (hk : 1 ≤ k) :
    1 ≤ skipRepeated res n i k ∧ skipRepeated res n i k ≤ k := by
  induction n generalizing i k with
  | zero => exact ⟨hk, Nat.le_refl k⟩
  | succ n ih =>
    rw [skipRepeated]
    by_cases hik : i < k
    · rw [if_pos hik]
      split
      · obtain ⟨hlo, hhi⟩ := ih (i := i + 1) (k := k - 1) (by omega) (by omega)
        exact ⟨hlo, by omega⟩
      · exact ih (Nat.succ_le_succ (Nat.zero_le i)) hk
    · rw [if_neg hik]
      exact ⟨hk, Nat.le_refl k⟩

/-- The entries that are compared are those up to `k`. -/
theorem skipRepeated_congr {res res' : List UInt32} (n : Nat) {i k : Nat} (hi : 1 ≤ i)
    (hagree : ∀ j, 1 ≤ j → j ≤ k → res.getD j 0 = res'.getD j 0) : skipRepeated res n i k = skipRepeated res' n i k := by
  induction n generalizing i k with
  | zero => rfl
  | succ n ih =>
    rw [skipRepeated, skipRepeated]
    by_cases hik : i < k
    · have hstep : ∀ k', k' ≤ k → skipRepeated res n (i + 1) k' = skipRepeated res' n (i + 1) k' :=
        fun k' hk' => ih (Nat.succ_le_succ (Nat.zero_le i)) fun j hj hjk => hagree j hj (Nat.le_trans hjk hk')
      rw [if_pos hik, if_pos hik, hagree i hi (Nat.le_of_lt hik), hagree k (by omega) (Nat.le_refl k)]
      exact hstep _ (by split <;> omega)
    · rw [if_neg hik, if_neg hik]

theorem getD_set {res : List UInt32} {k : Nat} (hk : k < res.length) (r : UInt32) (j : Nat) :
    (res.set k r).getD j 0 = if k = j then r else res.getD j 0 := by
  rw [List.getD_eq_getElem?_getD, List.getElem?_set]
  by_cases hkj : k = j
  · rw [if_pos hkj, if_pos hk, if_pos hkj, Option.getD_some]
  · rw [if_neg hkj, if_neg hkj, List.getD_eq_getElem?_getD]

/-- The entries below `k`, which have been computed. -/
def Below (k : Nat) (res : List UInt32) : Prop := ∀ j, 1 ≤ j → j < k → (res.getD j 0).toNat < 2 ^ h.shash

/-- The digests that have been computed when the loop is through. -/
def digests (res : List UInt32) : List Nat := (List.range' 1 h.nhash).map fun i => (res.getD i 0).toNat

theorem mem_range'_one {n i : Nat} : i ∈ List.range' 1 n ↔ 1 ≤ i ∧ i ≤ n := by
  rw [List.mem_range'_1]
  omega

theorem nextK_bounds (res : List UInt32) {k : Nat} (hk : 1 ≤ k) :
    1 ≤ (if h.norep then skipRepeated res k 1 k else k) ∧ (if h.norep then skipRepeated res k 1 k else k) ≤ k := by
  split
  · exact skipRepeated_le res k (Nat.le_refl 1) hk
  · exact ⟨hk, Nat.le_refl k⟩

/-! ### The windows that are kept -/

/-- The windows of the stream, one behind the other. -/
def windowAt (key : List UInt8) (n : Nat) : Nat := window (stream sha1 key) (n * h.shash) h.shash

/-- What is kept of the first `n` windows. -/
def taken (key : List UInt8) (n : Nat) : List Nat :=
  if h.norep then firsts (windowAt sha1 h key) n else (List.range n).map (windowAt sha1 h key)

theorem lt_of_mem_taken {n x : Nat} (hx : x ∈ taken sha1 h key n) : x < 2 ^ h.shash := by
  have hwindow : ∃ i, windowAt sha1 h key i = x := by
    unfold taken at hx
    split at hx
    · obtain ⟨i, -, hi⟩ := (mem_firsts_iff _).mp hx
      exact ⟨i, hi⟩
    · obtain ⟨i, -, hi⟩ := List.mem_map.mp hx
      exact ⟨i, hi⟩
  obtain ⟨i, rfl⟩ := hwindow
  exact window_lt _ _ _

/-- The entries below `k`. -/
def entries (res : List UInt32) (k : Nat) : List Nat := (List.range' 1 (k - 1)).map fun i => (res.getD i 0).toNat

theorem mem_entries {res : List UInt32} {k x : Nat} : x ∈ entries res k ↔ ∃ j, 1 ≤ j ∧ j < k ∧ (res.getD j 0).toNat = x := by
  rw [entries, List.mem_map]
  constructor
  · rintro ⟨j, hj, hx⟩
    obtain ⟨hlo, hhi⟩ := mem_range'_one.mp hj
    exact ⟨j, hlo, by omega, hx⟩
  · rintro ⟨j, hlo, hhi, hx⟩
    exact ⟨j, mem_range'_one.mpr ⟨hlo, by omega⟩, hx⟩

theorem entries_set_same {res : List UInt32} {k : Nat} (hk : k < res.length) (r : UInt32) : entries (res.set k r) k = entries res k := by
  refine List.map_congr_left fun j hj => ?_
  obtain ⟨hlo, hhi⟩ := mem_range'_one.mp hj
  rw [getD_set hk, if_neg (by omega)]

theorem entries_set_succ {res : List UInt32} {k : Nat} (hpos : 1 ≤ k) (hk : k < res.length) (r : UInt32) :
    entries (res.set k r) (k + 1) = entries res k ++ [r.toNat] := by
  obtain ⟨m, rfl⟩ := Nat.exists_eq_add_of_le' hpos
  rw [← entries_set_same hk r, entries, Nat.add_sub_cancel, List.range'_concat, List.map_append, List.map_singleton, Nat.one_mul,
    Nat.add_comm 1 m, getD_set hk, if_pos rfl]
  rfl

/-- An entry that is new stays. -/
theorem skipRepeated_new {res : List UInt32} (n : Nat) {i k : Nat} (hnew : ∀ j, i ≤ j → j < k → res.getD j 0 ≠ res.getD k 0) :
    skipRepeated res n i k = k := by
  induction n generalizing i with
  | zero => rfl
  | succ n ih =>
    rw [skipRepeated]
    by_cases hik : i < k
    · rw [if_pos hik, if_neg (hnew i (Nat.le_refl i) hik)]
      exact ih fun j hj => hnew j (by omega)
    · rw [if_neg hik]

/-- An entry that is there already takes `k` down once: the entry that is compared from then on is itself a new one. -/
theorem skipRepeated_old {res : List UInt32} (n : Nat) {i k j : Nat} (hi : 1 ≤ i) (hn : k ≤ n + i) (hj : i ≤ j) (hjk : j < k)
    (hold : res.getD j 0 = res.getD k 0) (hdiff : ∀ a b, 1 ≤ a → a < b → b < k → res.getD a 0 ≠ res.getD b 0) :
    skipRepeated res n i k = k - 1 := by
  induction n generalizing i with
  | zero => omega
  | succ n ih =>
    rw [skipRepeated, if_pos (by omega)]
    by_cases hhere : res.getD i 0 = res.getD k 0
    · rw [if_pos hhere]
      exact skipRepeated_new n fun a ha hak => hdiff a (k - 1) (by omega) (by omega) (by omega)
    · rw [if_neg hhere]
      have hne : i ≠ j := by
        rintro rfl
        exact hhere hold
      exact ih (by omega) (by omega) (by omega)

/-- What holds when the loop comes to its test, `n` windows having been taken. -/
structure LoopInv (key : List UInt8) (src : Source) (k : Nat) (res : List UInt32) (n : Nat) : Prop where
  source : src.At sha1 key (n * h.shash)
  pos : 1 ≤ k
  le : k ≤ h.nhash + 1
  length : res.length = h.nhash + 1
  entries : entries res k = taken sha1 h key n

/-- A pass of the loop. -/
theorem LoopInv.pass {src : Source} {k n : Nat} {res : List UInt32} (hinv : LoopInv sha1 h key src k res n) (hk : k ≤ h.nhash) :
    ∃ next, nextDigest sha1 h src = .ok next ∧
      LoopInv sha1 h key next.2 ((if h.norep then skipRepeated (res.set k next.1) k 1 k else k) + 1) (res.set k next.1) (n + 1) := by
  obtain ⟨r, src', hnext, hr, hsrc'⟩ := nextDigest_window sha1 h hinv.source
  have hlen := hinv.length
  have hpos := hinv.pos
  have hkres : k < res.length := by omega
  have hr : r.toNat = windowAt sha1 h key n := hr
  have hsource : src'.At sha1 key ((n + 1) * h.shash) := by
    rw [Nat.succ_mul]
    exact hsrc'
  have hentries := hinv.entries
  refine ⟨(r, src'), hnext, ?_⟩
  dsimp only
  cases hnorep : h.norep with
  | false =>
    rw [taken, hnorep] at hentries
    refine ⟨hsource, by simp, by simpa using hk, by rw [List.length_set, hlen], ?_⟩
    simp only [Bool.false_eq_true, if_false] at hentries ⊢
    rw [entries_set_succ hpos hkres, hentries, hr, taken, hnorep, if_neg (by decide), List.range_succ, List.map_append]
    rfl
  | true =>
    rw [taken, hnorep, if_pos rfl] at hentries
    simp only [if_true]
    have hnodup : (Blockmon.Bloom.entries res k).Nodup := by
      rw [hentries]
      exact nodup_firsts _ _
    have hset : ∀ j, j < k → (res.set k r).getD j 0 = res.getD j 0 := fun j hj => by rw [getD_set hkres, if_neg (by omega)]
    have hself : (res.set k r).getD k 0 = r := by rw [getD_set hkres, if_pos rfl]
    by_cases hold : windowAt sha1 h key n ∈ firsts (windowAt sha1 h key) n
    · obtain ⟨j, hj, hjk, hx⟩ := mem_entries.mp (hentries ▸ hold)
      have hskip : skipRepeated (res.set k r) k 1 k = k - 1 := by
        refine skipRepeated_old k (Nat.le_refl 1) (by omega) hj hjk ?_ fun a b ha hab hb heq => ?_
        · rw [hset j hjk, hself, ← UInt32.toNat_inj, hx, hr]
        · rw [hset a (by omega), hset b hb] at heq
          have hinj := List.inj_on_of_nodup_map hnodup (mem_range'_one.mpr ⟨ha, by omega⟩) (mem_range'_one.mpr ⟨by omega, by omega⟩)
            (congrArg UInt32.toNat heq)
          omega
      rw [hskip, Nat.sub_add_cancel hpos]
      refine ⟨hsource, hpos, by omega, by rw [List.length_set, hlen], ?_⟩
      rw [entries_set_same hkres, hentries, taken, hnorep, if_pos rfl, firsts, if_pos hold]
    · have hskip : skipRepeated (res.set k r) k 1 k = k := by
        refine skipRepeated_new k fun j hj hjk heq => hold ?_
        rw [hset j hjk, hself] at heq
        rw [← hentries]
        exact mem_entries.mpr ⟨j, hj, hjk, by rw [heq, hr]⟩
      rw [hskip]
      refine ⟨hsource, by omega, by omega, by rw [List.length_set, hlen], ?_⟩
      rw [entries_set_succ hpos hkres, hentries, hr, taken, hnorep, if_pos rfl, firsts, if_neg hold]

/-- The loop returns what it keeps of the windows, or its fuel is used up. -/
theorem computeLoop_ok (fuel : Nat) {src : Source} {k n : Nat} {res : List UInt32} (hinv : LoopInv sha1 h key src k res n) :
    computeLoop sha1 h fuel src k res = .error .noEnd ∨
      ∃ res' m, computeLoop sha1 h fuel src k res = .ok res' ∧ res'.length = h.nhash + 1 ∧ digests h res' = taken sha1 h key m := by
  induction fuel generalizing src k res n with
  | zero => exact Or.inl rfl
  | succ fuel ih =>
    rw [computeLoop]
    by_cases hloop : k ≤ h.nhash
    · obtain ⟨next, hnext, hinv'⟩ := hinv.pass sha1 h hloop
      rw [if_pos hloop, Exn.except_bind_of_ok hnext]
      exact ih hinv'
    · have hk : k = h.nhash + 1 := Nat.le_antisymm hinv.le (Nat.lt_of_not_le hloop)
      rw [if_neg hloop]
      refine Or.inr ⟨res, n, rfl, hinv.length, ?_⟩
      rw [← hinv.entries, hk]
      rfl

/-- What the output vector held before does not show in the digests. -/
theorem computeLoop_digests (fuel : Nat) (src : Source) {k : Nat} (hk : 1 ≤ k) {res res' : List UInt32}
    (hlen : res.length = h.nhash + 1) (hlen' : res'.length = h.nhash + 1)
    (hagree : ∀ j, 1 ≤ j → j < k → res.getD j 0 = res'.getD j 0) :
    (computeLoop sha1 h fuel src k res).map (digests h) = (computeLoop sha1 h fuel src k res').map (digests h) := by
  induction fuel generalizing src k res res' with
  | zero => rfl
  | succ fuel ih =>
    rw [computeLoop, computeLoop]
    by_cases hloop : k ≤ h.nhash
    · rw [if_pos hloop, if_pos hloop]
      cases nextDigest sha1 h src with
      | error e => rfl
      | ok next =>
        have hset : ∀ j, 1 ≤ j → j < k + 1 → (res.set k next.1).getD j 0 = (res'.set k next.1).getD j 0 := by
          intro j hj hjk
          rw [getD_set (by omega), getD_set (by omega)]
          split
          · rfl
          · exact hagree j hj (by omega)
        have hskip := skipRepeated_congr k (Nat.le_refl 1) fun j hj hjk => hset j hj (Nat.lt_succ_of_le hjk)
        obtain ⟨-, hhi⟩ := nextK_bounds h (res.set k next.1) hk
        have hrest := ih next.2 (Nat.succ_le_succ (Nat.zero_le _)) (by rw [List.length_set, hlen]) (by rw [List.length_set, hlen'])
          fun j hj hjk => hset j hj (Nat.lt_of_lt_of_le hjk (Nat.succ_le_succ hhi))
        rw [hskip] at hrest
        rw [Exn.except_bind_of_ok rfl, Exn.except_bind_of_ok rfl, hskip]
        exact hrest
    · rw [if_neg hloop, if_neg hloop]
      have heq : digests h res = digests h res' := by
        refine List.map_congr_left fun i hi => ?_
        obtain ⟨hlo, hhi⟩ := mem_range'_one.mp hi
        rw [hagree i hlo (by omega)]
      exact congrArg Except.ok heq

/-- More fuel changes nothing. -/
theorem settled_computeLoop (src : Source) (k : Nat) (res : List UInt32) : Fuel.Settled fun fuel => computeLoop sha1 h fuel src k res := by
  intro fuel res' hok
  refine ⟨fuel, fun m hm => ?_⟩
  induction fuel generalizing src k res m with
  | zero => cases hok
  | succ fuel ih =>
    obtain ⟨m, rfl⟩ := Nat.exists_eq_add_of_le' (Nat.le_trans (Nat.succ_le_succ (Nat.zero_le fuel)) hm)
    change computeLoop sha1 h (fuel + 1) src k res = .ok res' at hok
    change computeLoop sha1 h (m + 1) src k res = .ok res'
    rw [computeLoop] at hok ⊢
    by_cases hloop : k ≤ h.nhash
    · rw [if_pos hloop] at hok ⊢
      obtain ⟨next, hnext, hok⟩ := Exn.except_bind_eq_ok.mp hok
      rw [Exn.except_bind_of_ok hnext]
      exact ih _ _ _ hok m (Nat.le_of_succ_le_succ hm)
    · rw [if_neg hloop] at hok ⊢
      exact hok

/-! ## The digests of a key -/

/-- The digests that `compute` leaves for a key, given enough fuel. -/
def HashesTo (key : List UInt8) (ds : List Nat) : Prop :=
  Fuel.Returns (fun fuel => (compute sha1 h fuel key (List.replicate (h.nhash + 1) 0)).map (digests h)) ds

variable {sha1 h}

theorem length_zeros (h : Khash) : (List.replicate (h.nhash + 1) (0 : UInt32)).length = h.nhash + 1 := List.length_replicate

/-- Where the bits of a key begin. -/
def Source.first (sha1 : List UInt8 → Digest) (key : List UInt8) : Source :=
  { msgdig := sha1 key, md := digestBytes (sha1 key), ptr := 0 }

theorem Source.first_at (sha1 : List UInt8 → Digest) (key : List UInt8) : (Source.first sha1 key).At sha1 key 0 := ⟨rfl, rfl, rfl⟩

theorem compute_eq (sha1 : List UInt8 → Digest) (h : Khash) {key : List UInt8} (hkey : key ≠ []) (fuel : Nat) (res : List UInt32) :
    compute sha1 h fuel key res = computeLoop sha1 h fuel (Source.first sha1 key) 1 res := by
  rw [compute, Exn.except_bind_of_ok (assert_of (List.length_pos_iff.mpr hkey) _), Exn.except_bind_of_ok (copySha_eq (sha1 key))]
  rfl

theorem LoopInv.first (sha1 : List UInt8 → Digest) (h : Khash) (key : List UInt8) {res : List UInt32} (hlen : res.length = h.nhash + 1) :
    LoopInv sha1 h key (Source.first sha1 key) 1 res 0 := by
  refine ⟨?_, Nat.le_refl 1, Nat.succ_le_succ (Nat.zero_le _), hlen, ?_⟩
  · rw [Nat.zero_mul]
    exact Source.first_at sha1 key
  · rw [taken]
    split <;> rfl

theorem compute_taken (sha1 : List UInt8 → Digest) {key : List UInt8} (hkey : key ≠ []) (fuel : Nat) {res : List UInt32}
    (hlen : res.length = h.nhash + 1) :
    compute sha1 h fuel key res = .error .noEnd ∨
      ∃ res' m, compute sha1 h fuel key res = .ok res' ∧ res'.length = h.nhash + 1 ∧ digests h res' = taken sha1 h key m := by
  rw [compute_eq sha1 h hkey]
  exact computeLoop_ok sha1 h fuel (LoopInv.first sha1 h key hlen)

theorem below_of_taken {res : List UInt32} {m : Nat} (hdigests : digests h res = taken sha1 h key m) : Below h (h.nhash + 1) res := by
  intro j hj hjk
  have hmem : (res.getD j 0).toNat ∈ taken sha1 h key m := by
    rw [← hdigests]
    exact List.mem_map.mpr ⟨j, mem_range'_one.mpr ⟨hj, by omega⟩, rfl⟩
  exact lt_of_mem_taken sha1 h hmem

theorem compute_ok (sha1 : List UInt8 → Digest) {key : List UInt8} (hkey : key ≠ []) (fuel : Nat) {res : List UInt32}
    (hlen : res.length = h.nhash + 1) :
    compute sha1 h fuel key res = .error .noEnd ∨
      ∃ res', compute sha1 h fuel key res = .ok res' ∧ res'.length = h.nhash + 1 ∧ Below h (h.nhash + 1) res' := by
  rcases compute_taken sha1 hkey fuel hlen with hend | ⟨res', m, hok, hlen', hdigests⟩
  · exact Or.inl hend
  · exact Or.inr ⟨res', hok, hlen', below_of_taken hdigests⟩

theorem compute_digests (sha1 : List UInt8 → Digest) (key : List UInt8) (fuel : Nat) {res res' : List UInt32} (hlen : res.length = h.nhash + 1)
    (hlen' : res'.length = h.nhash + 1) :
    (compute sha1 h fuel key res).map (digests h) = (compute sha1 h fuel key res').map (digests h) := by
  rw [compute, compute]
  by_cases hkey : 0 < key.length
  · have hmd := copySha_eq (sha1 key)
    rw [Exn.except_bind_of_ok (assert_of hkey _), Exn.except_bind_of_ok hmd, Exn.except_bind_of_ok (assert_of hkey _),
      Exn.except_bind_of_ok hmd]
    exact computeLoop_digests sha1 h fuel _ (Nat.le_refl 1) hlen hlen' fun j hj hj' => absurd hj' (Nat.not_lt_of_le hj)
  · rw [assert, if_neg hkey]
    rfl

theorem settled_compute (key : List UInt8) (res : List UInt32) : Fuel.Settled fun fuel => compute sha1 h fuel key res := by
  refine (Fuel.settled_const _).bind fun _ => ?_
  exact (Fuel.settled_const _).bind fun md => settled_computeLoop sha1 h _ _ _

/-- What is returned, from any output vector, are the digests of the key. -/
theorem hashesTo_of_compute {key : List UInt8} {fuel : Nat} {res res' : List UInt32} (hlen : res.length = h.nhash + 1)
    (hok : compute sha1 h fuel key res = .ok res') : HashesTo sha1 h key (digests h res') := by
  obtain ⟨n, hn⟩ := settled_compute key res fuel res' hok
  refine ⟨n, fun m hm => ?_⟩
  have heq := compute_digests sha1 key m hlen (length_zeros h)
  have hm : compute sha1 h m key res = .ok res' := hn m hm
  rw [hm] at heq
  exact heq.symm

/-- And they are returned from any other one. -/
theorem HashesTo.compute {key : List UInt8} {ds : List Nat} (hkey : key ≠ []) (hhash : HashesTo sha1 h key ds) {res : List UInt32}
    (hlen : res.length = h.nhash + 1) : ∃ n, ∀ m, n ≤ m → ∃ res', compute sha1 h m key res = .ok res' ∧ digests h res' = ds ∧
      res'.length = h.nhash + 1 ∧ Below h (h.nhash + 1) res' := by
  obtain ⟨n, hn⟩ := hhash
  refine ⟨n, fun m hm => ?_⟩
  have heq := compute_digests sha1 key m hlen (length_zeros h)
  dsimp only at hn
  rw [hn m hm] at heq
  rcases compute_ok sha1 hkey m hlen with hend | ⟨res', hok, hlen', hbelow⟩
  · rw [hend] at heq
    cases heq
  · rw [hok] at heq
    exact ⟨res', hok, Except.ok.inj heq, hlen', hbelow⟩

end Compute

end Blockmon.Bloom
