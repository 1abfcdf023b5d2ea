import Blockmon.Lib.Bytes

/-!
# Hashes that take a message block by block

A compression function takes a state and a block of `blen` bytes to the next state. `absorb` puts the full blocks of a message through
it, and `rest` are the bytes behind them, which a context keeps until more of the message is there. A digest is that of the message
with a padding, which ends with the length of the message and fills the last block.
-/

namespace BlockHash

section Absorb

variable {σ τ : Type} {blen : Nat} {compress : σ → List UInt8 → σ} {s : σ}

/-- The first `n` blocks of a message. -/
def absorbBlocks (blen : Nat) (compress : σ → List UInt8 → σ) : Nat → σ → List UInt8 → σ
  | 0, s, _ => s
  | n + 1, s, m => absorbBlocks blen compress n (compress s (m.take blen)) (m.drop blen)

/-- The full blocks of a message. -/
def absorb (blen : Nat) (compress : σ → List UInt8 → σ) (s : σ) (m : List UInt8) : σ := absorbBlocks blen compress (m.length / blen) s m

/-- The bytes behind the last full block. -/
def rest (blen : Nat) (m : List UInt8) : List UInt8 := m.drop (m.length / blen * blen)

/-- The length of the rest. -/
theorem length_rest (blen : Nat) (m : List UInt8) : (rest blen m).length = m.length % blen := by
  rw [rest, List.length_drop, Nat.mod_eq_sub_div_mul]

/-- The rest is less than a block. -/
theorem length_rest_lt (hpos : 0 < blen) (m : List UInt8) : (rest blen m).length < blen := by
  rw [length_rest]
  exact Nat.mod_lt _ hpos

/-- A short message is its own rest. -/
theorem rest_of_lt {m : List UInt8} (h : m.length < blen) : rest blen m = m := by
  rw [rest, Nat.div_eq_of_lt h, Nat.zero_mul, List.drop_zero]

/-- A short message is not absorbed. -/
theorem absorb_of_lt {m : List UInt8} (h : m.length < blen) : absorb blen compress s m = s := by
  rw [absorb, Nat.div_eq_of_lt h, absorbBlocks]

private theorem div_of_block (hpos : 0 < blen) {a : List UInt8} (ha : a.length = blen) (m : List UInt8) :
    (a ++ m).length / blen = m.length / blen + 1 := by
  rw [List.length_append, ha, Nat.add_comm, Nat.add_div_right _ hpos]

/-- A block in front. -/
theorem absorb_block (hpos : 0 < blen) {a : List UInt8} (ha : a.length = blen) (m : List UInt8) :
    absorb blen compress s (a ++ m) = absorb blen compress (compress s a) m := by
  have htake : (a ++ m).take blen = a := by rw [← ha, List.take_left]
  have hdrop : (a ++ m).drop blen = m := by rw [← ha, List.drop_left]
  rw [absorb, div_of_block hpos ha, absorbBlocks, htake, hdrop, absorb]

/-- A block leaves the rest behind it. -/
theorem rest_block (hpos : 0 < blen) {a : List UInt8} (ha : a.length = blen) (m : List UInt8) : rest blen (a ++ m) = rest blen m := by
  have hplace : (m.length / blen + 1) * blen = a.length + m.length / blen * blen := by
    rw [Nat.add_mul, Nat.one_mul, ha, Nat.add_comm]
  rw [rest, div_of_block hpos ha, hplace, List.drop_append, rest]
  simp

private theorem blocks_succ {n : Nat} {a : List UInt8} (ha : a.length = (n + 1) * blen) :
    (a.take blen).length = blen ∧ (a.drop blen).length = n * blen := by
  rw [Nat.add_mul, Nat.one_mul] at ha
  rw [List.length_take, List.length_drop]
  omega

private theorem split_block (a m : List UInt8) : a ++ m = a.take blen ++ (a.drop blen ++ m) := by
  rw [← List.append_assoc, List.take_append_drop]

/-- Whole blocks in front, by induction on their number. -/
theorem absorb_append_of_blocks (hpos : 0 < blen) (n : Nat) {a : List UInt8} (ha : a.length = n * blen) (m : List UInt8) (s : σ) :
    absorb blen compress s (a ++ m) = absorb blen compress (absorb blen compress s a) m := by
  induction n generalizing a s with
  | zero =>
    rw [Nat.zero_mul] at ha
    rw [List.eq_nil_of_length_eq_zero ha, List.nil_append, absorb_of_lt (m := []) hpos]
  | succ n ih =>
    obtain ⟨hfirst, hlater⟩ := blocks_succ ha
    calc absorb blen compress s (a ++ m)
        = absorb blen compress (compress s (a.take blen)) (a.drop blen ++ m) := by rw [split_block, absorb_block hpos hfirst]
      _ = absorb blen compress (absorb blen compress (compress s (a.take blen)) (a.drop blen)) m := ih hlater _
      _ = absorb blen compress (absorb blen compress s a) m := by rw [← absorb_block hpos hfirst, List.take_append_drop]

/-- So do blocks. -/
theorem rest_append_of_blocks (hpos : 0 < blen) (n : Nat) {a : List UInt8} (ha : a.length = n * blen) (m : List UInt8) :
    rest blen (a ++ m) = rest blen m := by
  induction n generalizing a with
  | zero =>
    rw [Nat.zero_mul] at ha
    rw [List.eq_nil_of_length_eq_zero ha, List.nil_append]
  | succ n ih =>
    obtain ⟨hfirst, hlater⟩ := blocks_succ ha
    rw [split_block, rest_block hpos hfirst, ih hlater]

/-- A message is its full blocks and what is behind them. -/
theorem exists_blocks (blen : Nat) (m : List UInt8) : ∃ a, a.length = m.length / blen * blen ∧ m = a ++ rest blen m := by
  refine ⟨m.take (m.length / blen * blen), ?_, (List.take_append_drop _ m).symm⟩
  rw [List.length_take, Nat.min_eq_left (Nat.div_mul_le_self _ _)]

private theorem absorb_of_rest (hpos : 0 < blen) {a m : List UInt8} (ha : a.length = m.length / blen * blen) (hm : m = a ++ rest blen m) :
    absorb blen compress s m = absorb blen compress s a := by
  conv_lhs => rw [hm]
  rw [absorb_append_of_blocks hpos _ ha _ s, absorb_of_lt (length_rest_lt hpos m)]

/-- The bytes that were kept come in front of the next ones. -/
theorem absorb_append (hpos : 0 < blen) (m c : List UInt8) :
    absorb blen compress s (m ++ c) = absorb blen compress (absorb blen compress s m) (rest blen m ++ c) := by
  obtain ⟨a, ha, hm⟩ := exists_blocks blen m
  have hsplit : m ++ c = a ++ (rest blen m ++ c) := by rw [← List.append_assoc, ← hm]
  rw [absorb_of_rest hpos ha hm, hsplit, absorb_append_of_blocks hpos _ ha _ s]

/-- The rest depends on the rest before. -/
theorem rest_append (hpos : 0 < blen) (m c : List UInt8) : rest blen (m ++ c) = rest blen (rest blen m ++ c) := by
  obtain ⟨a, ha, hm⟩ := exists_blocks blen m
  have hsplit : m ++ c = a ++ (rest blen m ++ c) := by rw [← List.append_assoc, ← hm]
  rw [hsplit, rest_append_of_blocks hpos _ ha]

/-- Two compression functions that agree on blocks under a map of their states. -/
theorem absorb_map {f : σ → τ} {compress' : τ → List UInt8 → τ}
    (hstep : ∀ s b, b.length = blen → f (compress s b) = compress' (f s) b) (s : σ) (m : List UInt8) :
    f (absorb blen compress s m) = absorb blen compress' (f s) m := by
  have hblocks : ∀ n s (m : List UInt8), n * blen ≤ m.length →
      f (absorbBlocks blen compress n s m) = absorbBlocks blen compress' n (f s) m := by
    intro n
    induction n with
    | zero =>
      intro s m _
      rfl
    | succ n ih =>
      intro s m hm
      rw [Nat.add_mul, Nat.one_mul] at hm
      have hlen : (m.take blen).length = blen := by
        rw [List.length_take]
        omega
      have hdrop : n * blen ≤ (m.drop blen).length := by
        rw [List.length_drop]
        omega
      rw [absorbBlocks, ih _ _ hdrop, hstep _ _ hlen, absorbBlocks]
  exact hblocks _ s m (Nat.div_mul_le_self _ _)

end Absorb

/-! ## Digests -/

/-- A hash function: its compression function, what its states start with, how a length in bytes is written, and how a digest is read. -/
structure Scheme (σ : Type) where
  blen : Nat
  blen_pos : 0 < blen
  compress : σ → List UInt8 → σ
  iv : σ
  lengthBytes : Nat → List UInt8
  out : σ → List UInt8

namespace Scheme

variable {σ : Type} (S : Scheme σ)

/-- The number of zeros in the padding: the least that fills the last block. -/
def zeros (n : Nat) : Nat := (S.blen - (n + 1 + (S.lengthBytes n).length) % S.blen) % S.blen

/-- The message with its padding. -/
def pad (m : List UInt8) : List UInt8 := m ++ 0x80 :: List.replicate (S.zeros m.length) 0 ++ S.lengthBytes m.length

/-- The digest of a message. -/
def digest (m : List UInt8) : List UInt8 := S.out (absorb S.blen S.compress S.iv (S.pad m))

/-- The padding with fewer zeros than a block has is this one. -/
theorem zeros_eq {n k : Nat} (hk : k < S.blen) (hdvd : S.blen ∣ n + 1 + (S.lengthBytes n).length + k) :
    k = S.zeros n := by
  rw [zeros]
  generalize n + 1 + (S.lengthBytes n).length = a at hdvd
  have hlt := Nat.mod_lt a S.blen_pos
  have hmod : (a % S.blen + k) % S.blen = 0 := by
    rw [Nat.mod_add_mod]
    exact Nat.mod_eq_zero_of_dvd hdvd
  rcases Nat.eq_zero_or_pos (a % S.blen) with hzero | hsome
  · rw [hzero, Nat.zero_add, Nat.mod_eq_of_lt hk] at hmod
    rw [hzero, hmod, Nat.sub_zero, Nat.mod_self]
  · rw [Nat.mod_eq_of_lt (by omega)]
    obtain ⟨q, hq⟩ := Nat.dvd_of_mod_eq_zero hmod
    have hone : q = 1 := by
      have hlow : 0 < q := by
        rcases Nat.eq_zero_or_pos q with h | h
        · rw [h, Nat.mul_zero] at hq
          omega
        · exact h
      have hhigh : q < 2 := by
        refine Nat.lt_of_mul_lt_mul_left (a := S.blen) ?_
        omega
      omega
    rw [hone, Nat.mul_one] at hq
    omega

/-- Two hash functions that agree under a map of their states. -/
theorem digest_map {τ : Type} {S : Scheme σ} {S' : Scheme τ} (f : σ → τ) (hblen : S.blen = S'.blen)
    (hstep : ∀ s b, b.length = S.blen → f (S.compress s b) = S'.compress (f s) b) (hiv : f S.iv = S'.iv)
    (hlength : ∀ n, S.lengthBytes n = S'.lengthBytes n) (hout : ∀ s, S.out s = S'.out (f s)) (m : List UInt8) :
    S.digest m = S'.digest m := by
  have hpad : S.pad m = S'.pad m := by
    unfold pad zeros
    rw [hblen, hlength]
  rw [digest, digest, hout, absorb_map hstep, hiv, hpad, hblen]

/-! ## Keyed digests -/

/-- The key in one block; a key that does not fit is hashed first. -/
def blockKey (key : List UInt8) : List UInt8 :=
  let short := if S.blen < key.length then S.digest key else key
  short ++ List.replicate (S.blen - short.length) 0

/-- A long key is hashed. -/
theorem blockKey_of_lt {key : List UInt8} (h : S.blen < key.length) :
    S.blockKey key = S.digest key ++ List.replicate (S.blen - (S.digest key).length) 0 := by
  rw [blockKey, if_pos h]

/-- A short key is filled with zeros. -/
theorem blockKey_of_le {key : List UInt8} (h : key.length ≤ S.blen) : S.blockKey key = key ++ List.replicate (S.blen - key.length) 0 := by
  rw [blockKey, if_neg (Nat.not_lt.mpr h)]

/-- The digest of a message under a key, from an inner and an outer digest. -/
def hmac (key m : List UInt8) : List UInt8 :=
  S.digest ((S.blockKey key).map (· ^^^ 0x5C) ++ S.digest ((S.blockKey key).map (· ^^^ 0x36) ++ m))

/-- HMAC depends on the digests only. -/
theorem hmac_congr {τ : Type} {S : Scheme σ} {S' : Scheme τ} (h : ∀ m, S.digest m = S'.digest m)
    (hblen : S.blen = S'.blen) (key m : List UInt8) : S.hmac key m = S'.hmac key m := by
  have hkey : S.blockKey key = S'.blockKey key := by
    unfold blockKey
    dsimp only
    rw [hblen, h]
  rw [hmac, hmac, hkey, h, h]

end Scheme

end BlockHash
