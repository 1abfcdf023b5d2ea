import Blockmon.HashCode

/-!
# A context holds a message

`Streams m ctx` says that the bytes `m` have gone into a context. `update` adds its input to them, however they came in, and `finish`
gives the digest of them.
-/

namespace Blockmon.Hash

open BlockHash

namespace Design

variable {σ : Type} (D : Design σ)

/-- The hash function that a design computes, from the length of the message in its two counters. -/
def scheme : Scheme σ where
  blen := D.blen
  blen_pos := D.blen_pos
  compress := D.process
  iv := D.starts
  lengthBytes n := D.msglen (BitVec.ofNat 64 (8 * n / 2 ^ D.width)) (BitVec.ofNat 64 (8 * (n % 2 ^ D.width)))
  out := D.output

/-- The state after a message: what was absorbed, what is left in the buffer, and how long the message is. -/
structure Streams (m : List UInt8) (ctx : Context σ) : Prop where
  state : ctx.state = absorb D.blen D.process D.starts m
  length_buffer : ctx.buffer.length = D.blen
  buffer : ctx.buffer.take (m.length % D.blen) = rest D.blen m
  total0 : ctx.total0.toNat = m.length % 2 ^ D.width
  total1 : ctx.total1.toNat = m.length / 2 ^ D.width % 2 ^ 64

variable {D} {m c : List UInt8} {ctx : Context σ}

/-! ## The loop over blocks -/

/-- By induction on the fuel, which the length of the input is enough for. -/
theorem processBlocks_eq {fuel : Nat} {input : List UInt8} (hfuel : input.length ≤ fuel) (s : σ) :
    D.processBlocks fuel s input = (absorb D.blen D.process s input, rest D.blen input) := by
  induction fuel generalizing input s with
  | zero =>
    have hnil : input = [] := List.eq_nil_of_length_eq_zero (by omega)
    have hshort : input.length < D.blen := by
      rw [hnil]
      exact D.blen_pos
    rw [processBlocks, absorb_of_lt hshort, rest_of_lt hshort]
  | succ fuel ih =>
    rw [processBlocks]
    split
    · next hfull =>
      have hpos := D.blen_pos
      have hlen : (input.take D.blen).length = D.blen := by
        rw [List.length_take]
        omega
      have hfuel' : (input.drop D.blen).length ≤ fuel := by
        rw [List.length_drop]
        omega
      rw [ih hfuel', ← absorb_block hpos hlen, ← rest_block hpos hlen, List.take_append_drop]
    · next hshort =>
      rw [absorb_of_lt (by omega), rest_of_lt (by omega)]

/-- The blocks of an input are absorbed. -/
theorem updateFrom_state (ctx : Context σ) (left : Nat) (input : List UInt8) :
    (D.updateFrom ctx left input).state = absorb D.blen D.process ctx.state input := by
  rw [updateFrom, processBlocks_eq (Nat.le_refl _)]

/-- What is copied fits behind the bytes that are there. -/
theorem updateFrom_buffer {left : Nat} {input : List UInt8} (hlen : ctx.buffer.length = D.blen)
    (hfit : left + (rest D.blen input).length ≤ D.blen) :
    (D.updateFrom ctx left input).buffer.length = D.blen ∧
      (D.updateFrom ctx left input).buffer.take (left + (rest D.blen input).length) = ctx.buffer.take left ++ rest D.blen input := by
  rw [updateFrom, processBlocks_eq (Nat.le_refl _)]
  generalize rest D.blen input = r at hfit
  dsimp only
  split
  · next hpos =>
    have hleft : (ctx.buffer.take left ++ r).length = left + r.length := by
      rw [List.length_append, List.length_take]
      omega
    constructor
    · rw [Bytes.overwrite, List.length_append, hleft, List.length_drop]
      omega
    · rw [Bytes.overwrite, ← hleft, List.take_left]
  · next hnil =>
    have hr : r = [] := List.eq_nil_of_length_eq_zero (by omega)
    rw [hr, List.append_nil]
    exact ⟨hlen, rfl⟩

@[simp] theorem updateFrom_total0 (ctx : Context σ) (left : Nat) (input : List UInt8) :
    (D.updateFrom ctx left input).total0 = ctx.total0 := rfl

@[simp] theorem updateFrom_total1 (ctx : Context σ) (left : Nat) (input : List UInt8) :
    (D.updateFrom ctx left input).total1 = ctx.total1 := rfl

@[simp] theorem updateFrom_ipad (ctx : Context σ) (left : Nat) (input : List UInt8) : (D.updateFrom ctx left input).ipad = ctx.ipad := rfl

@[simp] theorem updateFrom_opad (ctx : Context σ) (left : Nat) (input : List UInt8) : (D.updateFrom ctx left input).opad = ctx.opad := rfl

/-! ## The counters -/

/-- The length of what is left in the buffer. -/
theorem toNat_left (h : D.Streams m ctx) : (ctx.total0 &&& D.mask).toNat = m.length % D.blen := by
  rw [D.toNat_mask, h.total0, Nat.mod_mod_of_dvd _ D.blen_dvd]

/-- A length below `2^31` fits. -/
theorem lt_two_pow_width {n : Nat} (h : n < 2 ^ 31) : n < 2 ^ D.width :=
  Nat.lt_of_lt_of_le h (Nat.pow_le_pow_right (by decide) D.width_ge)

/-- The length of an input, as a word. -/
theorem toNat_ilen (hc : c.length < 2 ^ 31) : (BitVec.ofNat 64 c.length).toNat = c.length := by
  rw [BitVec.toNat_ofNat, Nat.mod_eq_of_lt (by omega)]

/-- The low word of the length after an input. -/
theorem toNat_total0 (h : D.Streams m ctx) (hc : c.length < 2 ^ 31) :
    (D.cut (ctx.total0 + BitVec.ofNat 64 c.length)).toNat = (m ++ c).length % 2 ^ D.width := by
  have hdvd : 2 ^ D.width ∣ 2 ^ 64 := Nat.pow_dvd_pow 2 D.width_le
  rw [D.toNat_cut, BitVec.toNat_add, h.total0, toNat_ilen hc, Nat.mod_mod_of_dvd _ hdvd, Nat.mod_add_mod, List.length_append]

/-- The first counter is below the length of the input just when it has wrapped. -/
theorem total1_eq (h : D.Streams m ctx) (hc : c.length < 2 ^ 31) :
    (if D.cut (ctx.total0 + BitVec.ofNat 64 c.length) < BitVec.ofNat 64 c.length then ctx.total1 + 1 else ctx.total1).toNat
      = (m ++ c).length / 2 ^ D.width % 2 ^ 64 := by
  have hlt : D.cut (ctx.total0 + BitVec.ofNat 64 c.length) < BitVec.ofNat 64 c.length ↔
      (m.length % 2 ^ D.width + c.length) % 2 ^ D.width < c.length := by
    rw [BitVec.lt_def, toNat_total0 h hc, toNat_ilen hc, List.length_append, Nat.mod_add_mod]
  have hfits := lt_two_pow_width (D := D) hc
  have hmod := Nat.mod_lt m.length (Nat.two_pow_pos D.width)
  have hsplit := Nat.div_add_mod m.length (2 ^ D.width)
  have htotal := h.total1
  rw [List.length_append]
  generalize 2 ^ D.width = W at hlt hfits hmod hsplit htotal ⊢
  have hW : 0 < W := by omega
  have hsum : (m.length + c.length) / W = m.length / W + (m.length % W + c.length) / W := by
    conv_lhs => rw [← hsplit]
    rw [Nat.add_assoc, Nat.mul_add_div hW]
  by_cases hwrap : m.length % W + c.length < W
  · rw [if_neg (by rw [hlt, Nat.mod_eq_of_lt hwrap]; omega), hsum, Nat.div_eq_of_lt hwrap, Nat.add_zero, htotal]
  · have hone : (m.length % W + c.length) / W = 1 := by
      rw [Nat.div_eq_iff hW]
      omega
    have hrest : (m.length % W + c.length) % W = m.length % W + c.length - W := by
      rw [Nat.mod_eq_sub_mod (by omega), Nat.mod_eq_of_lt (by omega)]
    rw [if_pos (by rw [hlt, hrest]; omega), hsum, hone, BitVec.toNat_add, htotal]
    exact Nat.mod_add_mod _ _ _

/-! ## One update -/

/-- At the start nothing has been absorbed. -/
theorem start_streams {ctx : Context σ} (hlen : ctx.buffer.length = D.blen) : D.Streams [] (D.start ctx) where
  state := (absorb_of_lt (m := []) D.blen_pos).symm
  length_buffer := hlen
  buffer := by
    rw [rest_of_lt (m := []) D.blen_pos, List.length_nil, Nat.zero_mod, List.take_zero]
  total0 := by
    rw [List.length_nil, Nat.zero_mod]
    rfl
  total1 := by
    rw [List.length_nil, Nat.zero_div, Nat.zero_mod]
    rfl

/-- The bytes that are kept, and as many of the next ones as make up a block. -/
theorem length_kept_fill (m : List UInt8) {c : List UInt8} (hfill : D.blen - m.length % D.blen ≤ c.length) :
    (rest D.blen m ++ c.take (D.blen - m.length % D.blen)).length = D.blen := by
  have hlt := Nat.mod_lt m.length D.blen_pos
  rw [List.length_append, length_rest, List.length_take]
  omega

/-- The buffer when it is filled. -/
theorem filled_eq (h : D.Streams m ctx) (hfill : D.blen - m.length % D.blen ≤ c.length) :
    Bytes.overwrite ctx.buffer (m.length % D.blen) (c.take (D.blen - m.length % D.blen))
      = rest D.blen m ++ c.take (D.blen - m.length % D.blen) := by
  have hlt := Nat.mod_lt m.length D.blen_pos
  have hend : ctx.buffer.length ≤ m.length % D.blen + (c.take (D.blen - m.length % D.blen)).length := by
    rw [h.length_buffer, List.length_take]
    omega
  rw [Bytes.overwrite, h.buffer, List.drop_eq_nil_of_le hend, List.append_nil]

/-- After the counters: what the loop reads makes up the message, and what is in front of the copy are bytes of it. -/
theorem updateFrom_streams {left : Nat} {input : List UInt8} (hleft : left ≤ D.blen) (hlen : ctx.buffer.length = D.blen)
    (hstate : absorb D.blen D.process ctx.state input = absorb D.blen D.process D.starts m)
    (hrest : ctx.buffer.take left ++ rest D.blen input = rest D.blen m)
    (htotal0 : ctx.total0.toNat = m.length % 2 ^ D.width) (htotal1 : ctx.total1.toNat = m.length / 2 ^ D.width % 2 ^ 64) :
    D.Streams m (D.updateFrom ctx left input) := by
  have hsize : left + (rest D.blen input).length = m.length % D.blen := by
    have h := congrArg List.length hrest
    rw [List.length_append, List.length_take, hlen, Nat.min_eq_left hleft, length_rest _ m] at h
    exact h
  have hfits := Nat.mod_lt m.length D.blen_pos
  obtain ⟨hlen', hbuffer⟩ := updateFrom_buffer (D := D) hlen (show left + (rest D.blen input).length ≤ D.blen by omega)
  refine ⟨?_, hlen', ?_, htotal0, htotal1⟩
  · rw [updateFrom_state, hstate]
  · rw [← hsize, hbuffer, hrest]

/-- An update adds its input to the message, in each of the ways through its code. -/
theorem update_streams (h : D.Streams m ctx) (hc : c.length < 2 ^ 31) : D.Streams (m ++ c) (D.update ctx c) := by
  have hpos := D.blen_pos
  have hlt := Nat.mod_lt m.length hpos
  have hkept := length_rest D.blen m
  unfold update
  split
  · next hnil =>
    rw [List.eq_nil_of_length_eq_zero hnil, List.append_nil]
    exact h
  · dsimp only
    rw [toNat_left h]
    split
    · next hfull =>
      -- The buffer becomes full: it is a block in front of what is left of the input.
      obtain ⟨-, hfill⟩ := hfull
      have hblock := length_kept_fill (D := D) m hfill
      have hsplit : rest D.blen m ++ c
          = (rest D.blen m ++ c.take (D.blen - m.length % D.blen)) ++ c.drop (D.blen - m.length % D.blen) := by
        rw [List.append_assoc, List.take_append_drop]
      rw [filled_eq h hfill]
      refine updateFrom_streams (Nat.zero_le _) hblock ?_ ?_ (toNat_total0 h hc) (total1_eq h hc)
      · rw [absorb_append hpos, hsplit, absorb_block hpos hblock, h.state]
      · rw [List.take_zero, List.nil_append, rest_append hpos, hsplit, rest_block hpos hblock]
    · next hshort =>
      refine updateFrom_streams (Nat.le_of_lt hlt) h.length_buffer ?_ ?_ (toNat_total0 h hc) (total1_eq h hc)
      · rw [absorb_append hpos, h.state]
        rcases Nat.eq_zero_or_pos (m.length % D.blen) with hzero | hsome
        · have hnil : rest D.blen m = [] := List.eq_nil_of_length_eq_zero (by omega)
          rw [hnil, List.nil_append]
        · have hboth : (rest D.blen m ++ c).length < D.blen := by
            rw [List.length_append]
            omega
          rw [absorb_of_lt (m := c) (by omega), absorb_of_lt hboth]
      · rw [h.buffer, rest_append hpos]
        rcases Nat.eq_zero_or_pos (m.length % D.blen) with hzero | hsome
        · have hnil : rest D.blen m = [] := List.eq_nil_of_length_eq_zero (by omega)
          rw [hnil, List.nil_append, List.nil_append]
        · have hboth : (rest D.blen m ++ c).length < D.blen := by
            rw [List.length_append]
            omega
          rw [rest_of_lt (m := c) (by omega), rest_of_lt hboth]

/-- Any number of updates. -/
theorem foldl_update_streams (pieces : List Input) (h : D.Streams m ctx) :
    D.Streams (m ++ (pieces.map Subtype.val).flatten) (pieces.foldl (fun ctx piece => D.update ctx piece.val) ctx) := by
  induction pieces generalizing m ctx with
  | nil =>
    rw [List.map_nil, List.flatten_nil, List.append_nil]
    exact h
  | cons piece pieces ih =>
    rw [List.map_cons, List.flatten_cons, ← List.append_assoc, List.foldl_cons]
    exact ih (update_streams h piece.property)

/-! ## The end of a message -/

/-- The width of the low word, in bits. -/
private theorem two_pow_width (D : Design σ) : 2 ^ D.width = 8 * 2 ^ D.shift := by
  rw [← D.shift_eq, Nat.pow_add, Nat.mul_comm]

/-- The bits of the first counter that are above its lower `shift` bits, and those of the second one. -/
private theorem bits_div (D : Design σ) (n : Nat) : 8 * n / 2 ^ D.width = 8 * (n / 2 ^ D.width) + n % 2 ^ D.width / 2 ^ D.shift := by
  have hpos := Nat.two_pow_pos D.width
  have hsplit : 8 * n = 2 ^ D.width * (8 * (n / 2 ^ D.width)) + 8 * (n % 2 ^ D.width) := by
    have h := Nat.div_add_mod n (2 ^ D.width)
    rw [Nat.mul_left_comm, ← Nat.mul_add, h]
  have hlow : 8 * (n % 2 ^ D.width) / 2 ^ D.width = n % 2 ^ D.width / 2 ^ D.shift := by
    conv_lhs => rw [two_pow_width D, Nat.mul_div_mul_left _ _ (by decide), ← two_pow_width D]
  conv_lhs => rw [hsplit, Nat.mul_add_div hpos, hlow]

/-- The two words of the length have no bit in common. -/
private theorem shifted_disjoint (h : D.Streams m ctx) : ctx.total1 <<< 3 &&& ctx.total0 >>> D.shift = 0#64 := by
  refine BitVec.eq_of_getLsbD_eq fun i _ => ?_
  rw [BitVec.getLsbD_and, BitVec.getLsbD_shiftLeft, BitVec.getLsbD_ushiftRight, BitVec.getLsbD_zero]
  by_cases hi : i < 3
  · simp [hi]
  · have hbound : ctx.total0.toNat < 2 ^ (D.shift + i) := by
      have hle := Nat.pow_le_pow_right (show 0 < 2 by decide) (show D.width ≤ D.shift + i by have := D.shift_eq; omega)
      have hmod := Nat.mod_lt m.length (Nat.two_pow_pos D.width)
      rw [h.total0]
      omega
    have hzero : ctx.total0.getLsbD (D.shift + i) = false := Nat.testBit_lt_two_pow hbound
    rw [hzero, Bool.and_false]

/-- The length that is written is that of the message, in bits. -/
theorem msglen_eq (h : D.Streams m ctx) :
    D.msglen (ctx.total0 >>> D.shift ||| ctx.total1 <<< 3) (ctx.total0 <<< 3) = D.scheme.lengthBytes m.length := by
  have hhigh : ctx.total0 >>> D.shift ||| ctx.total1 <<< 3 = BitVec.ofNat 64 (8 * m.length / 2 ^ D.width) := by
    refine BitVec.eq_of_toNat_eq ?_
    rw [BitVec.or_comm, ← BitVec.add_eq_or_of_and_eq_zero _ _ (shifted_disjoint h), BitVec.toNat_add, BitVec.toNat_shiftLeft,
      BitVec.toNat_ushiftRight, h.total0, h.total1, bits_div, BitVec.toNat_ofNat, Nat.shiftLeft_eq, Nat.shiftRight_eq_div_pow,
      Nat.mod_add_mod, Nat.add_mod, Nat.mod_mul_mod, ← Nat.add_mod, Nat.mul_comm _ (2 ^ 3)]
  have hlow : ctx.total0 <<< 3 = BitVec.ofNat 64 (8 * (m.length % 2 ^ D.width)) := by
    refine BitVec.eq_of_toNat_eq ?_
    rw [BitVec.toNat_shiftLeft, h.total0, Nat.shiftLeft_eq, BitVec.toNat_ofNat, Nat.mul_comm]
  rw [hhigh, hlow]
  rfl

/-- The zeros behind the first byte of the padding. -/
theorem padding_take {n : Nat} (hpos : 0 < n) (hle : n ≤ D.blen) : D.padding.take n = 0x80 :: List.replicate (n - 1) 0 := by
  obtain ⟨k, rfl⟩ := Nat.exists_eq_succ_of_ne_zero (Nat.ne_of_gt hpos)
  rw [padding, List.take_succ_cons, List.take_replicate, Nat.min_eq_left (by omega), Nat.succ_sub_one]

/-- The number of bytes that `..._finish` takes from its padding. -/
def padn (D : Design σ) (last : Nat) : Nat := if last < D.padTo then D.padTo - last else D.padOver - last

/-- The padding fills the block up to the length. -/
theorem padn_spec {n : Nat} : 0 < D.padn (n % D.blen) ∧ D.padn (n % D.blen) ≤ D.blen ∧
    D.blen ∣ n + D.padn (n % D.blen) + (D.scheme.lengthBytes n).length := by
  have hlt := Nat.mod_lt n D.blen_pos
  have hlength : (D.scheme.lengthBytes n).length + D.padTo = D.blen := D.length_msglen _ _
  have hsplit := Nat.div_add_mod n D.blen
  have hdvd : ∀ k, n % D.blen + D.padn (n % D.blen) + (D.scheme.lengthBytes n).length = k * D.blen →
      D.blen ∣ n + D.padn (n % D.blen) + (D.scheme.lengthBytes n).length := by
    intro k hk
    refine ⟨n / D.blen + k, ?_⟩
    rw [Nat.mul_add, Nat.mul_comm D.blen k]
    omega
  unfold padn at hdvd ⊢
  rw [D.padOver_eq] at hdvd ⊢
  split
  · next hfits =>
    rw [if_pos hfits] at hdvd
    exact ⟨by omega, by omega, hdvd 1 (by omega)⟩
  · next hover =>
    rw [if_neg hover] at hdvd
    exact ⟨by omega, by omega, hdvd 2 (by omega)⟩

/-- What `..._finish` puts behind the message. -/
theorem pad_eq (m : List UInt8) :
    m ++ D.padding.take (D.padn (m.length % D.blen)) ++ D.scheme.lengthBytes m.length = D.scheme.pad m := by
  obtain ⟨hpos, hle, hdvd⟩ := padn_spec (D := D) (n := m.length)
  have hlength : (D.scheme.lengthBytes m.length).length + D.padTo = D.blen := D.length_msglen _ _
  have hzeros : D.padn (m.length % D.blen) - 1 = D.scheme.zeros m.length := by
    refine D.scheme.zeros_eq (show _ < D.blen by omega) ?_
    have hsum : m.length + 1 + (D.scheme.lengthBytes m.length).length + (D.padn (m.length % D.blen) - 1)
        = m.length + D.padn (m.length % D.blen) + (D.scheme.lengthBytes m.length).length := by omega
    rw [hsum]
    exact hdvd
  rw [padding_take hpos hle, hzeros, Scheme.pad, List.append_assoc]

/-- What the context holds in the end. -/
theorem finish_streams (h : D.Streams m ctx) : D.Streams (D.scheme.pad m) (D.finish ctx).1 := by
  have hsmall := D.blen_lt
  have hlen : (D.padding.take (D.padn (m.length % D.blen))).length < 2 ^ 31 := by
    have hle := (padn_spec (D := D) (n := m.length)).2.1
    rw [List.length_take]
    omega
  have hlength : (D.scheme.lengthBytes m.length).length < 2 ^ 31 := by
    have heq : (D.scheme.lengthBytes m.length).length + D.padTo = D.blen := D.length_msglen _ _
    omega
  have hstreams := update_streams (update_streams h hlen) hlength
  rw [pad_eq, ← msglen_eq h, ← toNat_left h] at hstreams
  exact hstreams

/-- The digest is that of the message, however it came in. -/
theorem finish_eq (h : D.Streams m ctx) : (D.finish ctx).2 = D.scheme.digest m := congrArg D.output (finish_streams h).state

/-- The buffer has the length of a block. -/
theorem length_fresh (memory : Nat → UInt8) : (D.fresh memory).buffer.length = D.blen := by
  rw [fresh, List.length_map, List.length_range]

/-- The hash of one message is its digest. -/
theorem hash_eq (memory : Nat → UInt8) (hm : m.length < 2 ^ 31) : D.hash memory m = D.scheme.digest m := by
  have hstart : D.Streams [] (D.start (D.fresh memory)) := start_streams (length_fresh memory)
  have hstreams := update_streams hstart hm
  rw [hash, finish_eq hstreams, List.nil_append]

/-- The digest of pieces is that of the message. -/
theorem digestOf_eq (D : Design σ) (memory : Nat → UInt8) (pieces : List Input) :
    D.digestOf memory pieces = D.scheme.digest (pieces.map Subtype.val).flatten := by
  have hstart := start_streams (D := D) (length_fresh memory)
  have hall := foldl_update_streams pieces hstart
  rw [List.nil_append] at hall
  exact finish_eq hall

/-! ## Keyed digests -/

@[simp] theorem start_ipad (ctx : Context σ) : (D.start ctx).ipad = ctx.ipad := rfl

@[simp] theorem start_opad (ctx : Context σ) : (D.start ctx).opad = ctx.opad := rfl

@[simp] theorem start_buffer (ctx : Context σ) : (D.start ctx).buffer = ctx.buffer := rfl

/-- An update leaves the pads alone. -/
theorem update_pads (ctx : Context σ) (c : List UInt8) : (D.update ctx c).ipad = ctx.ipad ∧ (D.update ctx c).opad = ctx.opad := by
  unfold update
  split
  · exact ⟨rfl, rfl⟩
  · dsimp only
    split
    · exact ⟨rfl, rfl⟩
    · exact ⟨rfl, rfl⟩

/-- Pieces leave the pads. -/
theorem foldl_update_pads (pieces : List Input) (ctx : Context σ) :
    (pieces.foldl (fun ctx piece => D.update ctx piece.val) ctx).ipad = ctx.ipad ∧
      (pieces.foldl (fun ctx piece => D.update ctx piece.val) ctx).opad = ctx.opad := by
  induction pieces generalizing ctx with
  | nil => exact ⟨rfl, rfl⟩
  | cons piece pieces ih =>
    obtain ⟨hi, ho⟩ := update_pads (D := D) ctx piece.val
    rw [List.foldl_cons, (ih _).1, (ih _).2]
    exact ⟨hi, ho⟩

/-- The end leaves the pads. -/
theorem finish_pads (ctx : Context σ) : (D.finish ctx).1.ipad = ctx.ipad ∧ (D.finish ctx).1.opad = ctx.opad := by
  unfold finish
  dsimp only
  rw [(update_pads _ _).1, (update_pads _ _).1, (update_pads _ _).2, (update_pads _ _).2]
  exact ⟨rfl, rfl⟩

/-- The key with zeros behind it, and the pad. -/
theorem xorKey_eq (pad : UInt8) (key : List UInt8) :
    D.xorKey pad key = (key ++ List.replicate (D.blen - key.length) 0).map (· ^^^ pad) := by
  have hcomm : key.map (pad ^^^ ·) = key.map (· ^^^ pad) := List.map_congr_left fun b _ => UInt8.xor_comm pad b
  rw [xorKey, Bytes.overwrite, List.take_zero, List.nil_append, Nat.zero_add, List.length_map, List.drop_replicate, List.map_append,
    List.map_replicate, UInt8.zero_xor, hcomm]

/-- A digest is not longer than a block. -/
theorem length_digest_le (D : Design σ) (m : List UInt8) : (D.scheme.digest m).length ≤ D.blen := D.length_output _

/-- The key of a block has its length. -/
theorem length_blockKey (D : Design σ) (key : List UInt8) : (D.scheme.blockKey key).length = D.blen := by
  rcases Nat.lt_or_ge D.blen key.length with hlong | hshort
  · rw [D.scheme.blockKey_of_lt hlong, List.length_append, List.length_replicate]
    exact Nat.add_sub_cancel' (length_digest_le D key)
  · rw [D.scheme.blockKey_of_le hshort, List.length_append, List.length_replicate]
    exact Nat.add_sub_cancel' hshort

/-- A message goes in behind the inner pad of a key, and both pads are there. -/
structure Keyed (D : Design σ) (key m : List UInt8) (ctx : Context σ) : Prop where
  streams : D.Streams ((D.scheme.blockKey key).map (· ^^^ 0x36) ++ m) ctx
  ipad : ctx.ipad = (D.scheme.blockKey key).map (· ^^^ 0x36)
  opad : ctx.opad = (D.scheme.blockKey key).map (· ^^^ 0x5C)

variable {key : List UInt8}

/-- A context is keyed when its pads are those of the key. -/
theorem keyed_reset (hipad : ctx.ipad = (D.scheme.blockKey key).map (· ^^^ 0x36)) (hopad : ctx.opad = (D.scheme.blockKey key).map (· ^^^ 0x5C))
    (hlen : ctx.buffer.length = D.blen) : D.Keyed key [] (D.hmacReset ctx) := by
  have hsmall : ctx.ipad.length < 2 ^ 31 := by
    rw [hipad, List.length_map, length_blockKey]
    exact D.blen_lt
  have hstart : D.Streams [] (D.start ctx) := start_streams hlen
  have hstreams := update_streams hstart hsmall
  obtain ⟨hi, ho⟩ := update_pads (D := D) (D.start ctx) ctx.ipad
  refine ⟨?_, hi.trans hipad, ho.trans hopad⟩
  rw [List.append_nil, ← hipad]
  exact hstreams

/-- At the start the inner hash has absorbed its pad. -/
theorem keyed_hmacStarts (memory : Nat → UInt8) (hkey : key.length < 2 ^ 31) (hlen : ctx.buffer.length = D.blen) :
    D.Keyed key [] (D.hmacStarts memory ctx key) := by
  have hpad : ∀ pad, D.xorKey pad (if D.blen < key.length then D.hash memory key else key) = (D.scheme.blockKey key).map (· ^^^ pad) := by
    intro pad
    by_cases hlong : D.blen < key.length
    · rw [if_pos hlong, hash_eq memory hkey, xorKey_eq, D.scheme.blockKey_of_lt hlong]
      rfl
    · rw [if_neg hlong, xorKey_eq, D.scheme.blockKey_of_le (Nat.le_of_not_lt hlong)]
      rfl
  exact keyed_reset (hpad 0x36) (hpad 0x5C) hlen

/-- Pieces are absorbed after the pad. -/
theorem Keyed.update (h : D.Keyed key m ctx) (pieces : List Input) :
    D.Keyed key (m ++ (pieces.map Subtype.val).flatten) (pieces.foldl (fun ctx piece => D.update ctx piece.val) ctx) := by
  obtain ⟨hi, ho⟩ := foldl_update_pads (D := D) pieces ctx
  refine ⟨?_, hi.trans h.ipad, ho.trans h.opad⟩
  rw [← List.append_assoc]
  exact foldl_update_streams pieces h.streams

/-- The keyed digest, and a context that a new message can go into after a reset. -/
theorem Keyed.finish (h : D.Keyed key m ctx) :
    (D.hmacFinish ctx).2 = D.scheme.hmac key m ∧ D.Keyed key [] (D.hmacReset (D.hmacFinish ctx).1) := by
  obtain ⟨hi, ho⟩ := finish_pads (D := D) ctx
  have hinner := finish_eq h.streams
  have hbuffer := (finish_streams h.streams).length_buffer
  have hopad : (D.finish ctx).1.opad.length < 2 ^ 31 := by
    rw [ho, h.opad, List.length_map, length_blockKey]
    exact D.blen_lt
  have hsum : (D.finish ctx).2.length < 2 ^ 31 := by
    rw [hinner]
    exact Nat.lt_of_le_of_lt (length_digest_le D _) D.blen_lt
  have hstart : D.Streams [] (D.start (D.finish ctx).1) := start_streams hbuffer
  have houter := update_streams (update_streams hstart hopad) hsum
  have hpads := update_pads (D := D) (D.update (D.start (D.finish ctx).1) (D.finish ctx).1.opad) (D.finish ctx).2
  have hpads' := update_pads (D := D) (D.start (D.finish ctx).1) (D.finish ctx).1.opad
  have hpads'' := finish_pads (D := D) (D.update (D.update (D.start (D.finish ctx).1) (D.finish ctx).1.opad) (D.finish ctx).2)
  constructor
  · have hdigest := finish_eq houter
    rw [List.nil_append, hinner, ho, h.opad] at hdigest
    rw [Scheme.hmac, ← hdigest, ← hinner, ← h.opad, ← ho]
    rfl
  · refine keyed_reset ?_ ?_ (finish_streams houter).length_buffer
    · exact hpads''.1.trans (hpads.1.trans (hpads'.1.trans (hi.trans h.ipad)))
    · exact hpads''.2.trans (hpads.2.trans (hpads'.2.trans (ho.trans h.opad)))

/-- By induction on the messages: each finds a keyed context with nothing behind the inner pad. -/
theorem hmacRun_eq (messages : List (List Input)) (h : D.Keyed key [] ctx) :
    D.hmacRun ctx messages = messages.map fun pieces => D.scheme.hmac key (pieces.map Subtype.val).flatten := by
  induction messages generalizing ctx with
  | nil => rfl
  | cons pieces later ih =>
    obtain ⟨hsum, hnext⟩ := (h.update pieces).finish
    rw [hmacRun, List.map_cons, ← ih hnext]
    dsimp only
    rw [hsum, List.nil_append]

/-- Messages under one key, in pieces, with a context that is used for all of them. -/
theorem hmacRun_starts (D : Design σ) (memory : Nat → UInt8) (key : Input) (messages : List (List Input)) :
    D.hmacRun (D.hmacStarts memory (D.fresh memory) key.val) messages
      = messages.map fun pieces => D.scheme.hmac key.val (pieces.map Subtype.val).flatten :=
  hmacRun_eq messages (keyed_hmacStarts memory key.property (length_fresh memory))

end Design

end Blockmon.Hash
