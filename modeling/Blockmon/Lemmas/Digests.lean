import Blockmon.Lemmas.HashCode
import Blockmon.Md5
import Blockmon.Sha1
import Blockmon.Sha2

/-!
# The hash functions are those of the standards

`narrow` takes from a word of 64 bits the lower bits that the standards speak of. It carries each line of the code to a step of the
standard, whatever is in the upper bits.
-/

namespace Blockmon.Hash

open Standards (Quad Quint Oct wordBE wordLE bytesBE bytesLE)
open BlockHash (Scheme)

/-! ## Words and bytes -/

/-- The low 32 bits of a word that the source keeps in 64. -/
abbrev narrow (x : BitVec 64) : BitVec 32 := x.setWidth 32

@[simp] theorem narrow_add (x y : BitVec 64) : narrow (x + y) = narrow x + narrow y := BitVec.setWidth_add x y (by decide)

@[simp] theorem narrow_not (x : BitVec 64) : narrow (~~~x) = ~~~narrow x := BitVec.setWidth_not (by decide)

@[simp] theorem narrow_and (x y : BitVec 64) : narrow (x &&& y) = narrow x &&& narrow y := BitVec.setWidth_and

@[simp] theorem narrow_or (x y : BitVec 64) : narrow (x ||| y) = narrow x ||| narrow y := BitVec.setWidth_or

@[simp] theorem narrow_xor (x y : BitVec 64) : narrow (x ^^^ y) = narrow x ^^^ narrow y := BitVec.setWidth_xor

/-- A slice of a block, byte by byte. -/
theorem take_drop_eq {b : List UInt8} {i n : Nat} (h : i + n ≤ b.length) :
    (b.drop i).take n = (List.range n).map fun j => b.getD (i + j) 0 := by
  refine List.ext_getElem ?_ fun j hj hj' => ?_
  · rw [List.length_take, List.length_drop, List.length_map, List.length_range]
    omega
  · rw [List.length_map, List.length_range] at hj'
    have hin : i + j < b.length := by omega
    rw [List.getElem_take, List.getElem_drop, List.getElem_map, List.getElem_range, List.getD_eq_getElem?_getD, List.getElem?_eq_getElem hin,
      Option.getD_some]

/-- The source reads four bytes, the highest first. -/
theorem getUlongBE_eq (b : List UInt8) (i : Nat) :
    getUlongBE b i = Words.ofBytes 64 ((List.range 4).map fun j => b.getD (i + j) 0) := by
  have hbytes : ((List.range 4).map fun j => b.getD (i + j) 0) = [b.getD i 0, b.getD (i + 1) 0, b.getD (i + 2) 0, b.getD (i + 3) 0] := rfl
  rw [hbytes]
  simp only [getUlongBE, getByte, Words.ofBytes, List.foldl_cons, List.foldl_nil, BitVec.shiftLeft_or_distrib, ← BitVec.shiftLeft_add,
    BitVec.zero_shiftLeft, BitVec.zero_or, Nat.reduceAdd]

/-- The source reads four bytes, the lowest first. -/
theorem getUlongLE_eq (b : List UInt8) (i : Nat) :
    getUlongLE b i = Words.ofBytes 64 ((List.range 4).map fun j => b.getD (i + j) 0).reverse := by
  have hbytes : ((List.range 4).map fun j => b.getD (i + j) 0).reverse
      = [b.getD (i + 3) 0, b.getD (i + 2) 0, b.getD (i + 1) 0, b.getD i 0] := rfl
  rw [hbytes]
  simp only [getUlongLE, getByte, Words.ofBytes, List.foldl_cons, List.foldl_nil, BitVec.shiftLeft_or_distrib, ← BitVec.shiftLeft_add,
    BitVec.zero_shiftLeft, BitVec.zero_or, Nat.reduceAdd]
  exact Words.or_reverse _ _ _ _

/-- The source reads eight bytes, the highest first. -/
theorem getUint64BE_eq (b : List UInt8) (i : Nat) :
    getUint64BE b i = Words.ofBytes 64 ((List.range 8).map fun j => b.getD (i + j) 0) := by
  have hbytes : ((List.range 8).map fun j => b.getD (i + j) 0) = [b.getD i 0, b.getD (i + 1) 0, b.getD (i + 2) 0, b.getD (i + 3) 0,
      b.getD (i + 4) 0, b.getD (i + 5) 0, b.getD (i + 6) 0, b.getD (i + 7) 0] := rfl
  rw [hbytes]
  simp only [getUint64BE, getByte, Words.ofBytes, List.foldl_cons, List.foldl_nil, BitVec.shiftLeft_or_distrib, ← BitVec.shiftLeft_add,
    BitVec.zero_shiftLeft, BitVec.zero_or, Nat.reduceAdd]

section Words

variable {b : List UInt8} {t : Nat}

/-- The words of a block, the highest byte first. -/
theorem narrow_getUlongBE (h : 4 * t + 4 ≤ b.length) : narrow (getUlongBE b (4 * t)) = wordBE 32 b t := by
  refine BitVec.eq_of_toNat_eq ?_
  rw [getUlongBE_eq, ← take_drop_eq h, BitVec.toNat_setWidth, Words.toNat_ofBytes _ (by rw [List.length_take]; omega), wordBE,
    BitVec.toNat_ofNat]

/-- The words of a block, the lowest byte first. -/
theorem narrow_getUlongLE (h : 4 * t + 4 ≤ b.length) : narrow (getUlongLE b (4 * t)) = wordLE 32 b t := by
  refine BitVec.eq_of_toNat_eq ?_
  rw [getUlongLE_eq, ← take_drop_eq h, BitVec.toNat_setWidth,
    Words.toNat_ofBytes _ (by rw [List.length_reverse, List.length_take]; omega), List.reverse_reverse, wordLE, BitVec.toNat_ofNat]

/-- The long words of a block. -/
theorem getUint64BE_word (h : 8 * t + 8 ≤ b.length) : getUint64BE b (8 * t) = wordBE 64 b t := by
  refine BitVec.eq_of_toNat_eq ?_
  have hlen : ((b.drop (8 * t)).take 8).length ≤ 8 := by
    rw [List.length_take]
    omega
  have hword : (Words.ofBytes 64 ((b.drop (8 * t)).take 8)).toNat = Bytes.decode ((b.drop (8 * t)).take 8).reverse :=
    Words.toNat_ofBytes _ (by omega)
  have hlt := (Words.ofBytes 64 ((b.drop (8 * t)).take 8)).isLt
  rw [hword] at hlt
  rw [getUint64BE_eq, ← take_drop_eq h, hword, wordBE, BitVec.toNat_ofNat, Nat.mod_eq_of_lt hlt]

end Words

/-- The source writes four bytes, the lowest first. -/
theorem putUlongLE_eq (x : BitVec 64) : putUlongLE x = Bytes.encode 4 x.toNat := by
  have hbytes : putUlongLE x = (List.range 4).map fun k => Words.byteAt x (8 * k) := rfl
  rw [hbytes, Bytes.encode_eq_map]
  exact List.map_congr_left fun k _ => Words.byteAt_eq x k

/-- The source writes four bytes, the highest first. -/
theorem putUlongBE_eq (x : BitVec 64) : putUlongBE x = (Bytes.encode 4 x.toNat).reverse := by
  rw [← putUlongLE_eq]
  rfl

/-- The source writes eight bytes, the highest first. -/
theorem putUint64BE_eq (x : BitVec 64) : putUint64BE x = (Bytes.encode 8 x.toNat).reverse := by
  have hbytes : putUint64BE x = ((List.range 8).map fun k => Words.byteAt x (8 * k)).reverse := rfl
  rw [hbytes, Bytes.encode_eq_map]
  exact congrArg List.reverse (List.map_congr_left fun k _ => Words.byteAt_eq x k)

/-- Four bytes are those of the low bits. -/
theorem encode_narrow (x : BitVec 64) : Bytes.encode 4 (narrow x).toNat = Bytes.encode 4 x.toNat := by
  refine Bytes.encode_congr ?_
  rw [BitVec.toNat_setWidth]
  exact Nat.mod_mod _ _

/-- So they are with the highest first. -/
theorem bytesBE_narrow (x : BitVec 64) : putUlongBE x = bytesBE (narrow x) := by
  rw [putUlongBE_eq, ← encode_narrow]
  rfl

/-- So they are with the lowest first. -/
theorem bytesLE_narrow (x : BitVec 64) : putUlongLE x = bytesLE (narrow x) := by
  rw [putUlongLE_eq, ← encode_narrow]
  rfl

/-- The two halves of a length. -/
theorem encode_halves (n : Nat) :
    Bytes.encode 8 (8 * n)
      = Bytes.encode 4 (BitVec.ofNat 64 (8 * (n % 2 ^ 32))).toNat ++ Bytes.encode 4 (BitVec.ofNat 64 (8 * n / 2 ^ 32)).toNat := by
  rw [Bytes.encode_add 4 4]
  refine congrArg₂ (· ++ ·) (Bytes.encode_congr ?_) (Bytes.encode_congr ?_)
  · rw [BitVec.toNat_ofNat]
    omega
  · rw [BitVec.toNat_ofNat]
    omega

/-- A length of sixteen bytes, from its halves. -/
theorem encode_halves64 (n : Nat) :
    Bytes.encode 16 (8 * n)
      = Bytes.encode 8 (BitVec.ofNat 64 (8 * (n % 2 ^ 64))).toNat ++ Bytes.encode 8 (BitVec.ofNat 64 (8 * n / 2 ^ 64)).toNat := by
  rw [Bytes.encode_add 8 8]
  refine congrArg₂ (· ++ ·) (Bytes.encode_congr ?_) (Bytes.encode_congr ?_)
  · rw [BitVec.toNat_ofNat]
    omega
  · rw [BitVec.toNat_ofNat]
    omega

/-! ## MD5 -/

namespace Md5

/-- The rotation, on the low bits. -/
theorem narrow_S {n : Nat} (hn : n < 32) (x : BitVec 64) : narrow (S x n) = (narrow x).rotateLeft n :=
  Words.setWidth_rotateLeft x (by decide) hn

/-- The functions of the rounds, on the low bits. -/
theorem narrow_F (i : Nat) (x y z : BitVec 64) : narrow (F i x y z) = Standards.Md5.f i (narrow x) (narrow y) (narrow z) := by
  unfold F Standards.Md5.f
  split_ifs
  · rw [narrow_xor, narrow_and, narrow_xor, Words.select_or]
  · rw [narrow_xor, narrow_and, narrow_xor, Words.select_or, BitVec.and_comm (narrow z), BitVec.and_comm (~~~narrow z)]
  · rw [narrow_xor, narrow_xor]
  · rw [narrow_xor, narrow_or, narrow_not]

/-- The arguments of each line are those of its step. -/
theorem lines_eq : ∀ i < 64, (lines.getD i (0, 0, 0)).1 = Standards.Md5.k i ∧ (lines.getD i (0, 0, 0)).2.1 = Standards.Md5.s i ∧
    narrow (lines.getD i (0, 0, 0)).2.2 = Standards.Md5.T.getD i 0 ∧ Standards.Md5.k i < 16 ∧ Standards.Md5.s i < 32 := by
  decide

/-- The narrow registers. -/
def narrowQuad (q : Quad 64) : Quad 32 := ⟨narrow q.a, narrow q.b, narrow q.c, narrow q.d⟩

variable {X : Nat → BitVec 64} {M : Nat → BitVec 32}

/-- A round, on the low bits. -/
theorem narrow_P (hX : ∀ k < 16, narrow (X k) = M k) {i : Nat} (hi : i < 64) (a b c d : BitVec 64) :
    narrow (P X i a b c d) = (Standards.Md5.step M ⟨narrow a, narrow b, narrow c, narrow d⟩ i).b := by
  obtain ⟨hk, hs, hT, hword, hshift⟩ := lines_eq i hi
  unfold P
  generalize lines.getD i (0, 0, 0) = line at hk hs hT
  dsimp only [Standards.Md5.step]
  rw [narrow_add, hs, narrow_S hshift, narrow_add, narrow_add, narrow_add, narrow_F, hk, hX _ hword, hT, BitVec.add_comm,
    ← BitVec.add_assoc, ← BitVec.add_assoc]

/-- Four lines are four steps, after which the registers are at their places again. -/
theorem narrow_fourLines (hX : ∀ k < 16, narrow (X k) = M k) {g : Nat} (hg : g < 16) (q : Quad 64) :
    narrowQuad (fourLines X q (4 * g)) = (List.range 4).foldl (fun q j => Standards.Md5.step M q (4 * g + j)) (narrowQuad q) := by
  have hA := narrow_P hX (show 4 * g < 64 by omega)
  have hD := narrow_P hX (show 4 * g + 1 < 64 by omega)
  have hC := narrow_P hX (show 4 * g + 2 < 64 by omega)
  have hB := narrow_P hX (show 4 * g + 3 < 64 by omega)
  simp only [List.range_succ, List.range_zero, List.nil_append, List.cons_append, List.foldl_cons, List.foldl_nil, fourLines, narrowQuad,
    hA, hD, hC, hB]
  rfl

end Md5

/-- A block is compressed as the standard says. -/
theorem narrow_md5Process {data : List UInt8} (hdata : data.length = 64) (state : Quad 64) :
    Md5.narrowQuad (md5Process state data) = Standards.Md5.compress (Md5.narrowQuad state) data := by
  have hX : ∀ k < 16, narrow (getUlongLE data (4 * k)) = wordLE 32 data k := fun k hk => narrow_getUlongLE (by omega)
  have hrounds := Words.foldl_range_map (f := fun q n => Md5.fourLines (fun i => getUlongLE data (4 * i)) q (4 * n))
    (g := fun q n => (List.range 4).foldl (fun q j => Standards.Md5.step (wordLE 32 data) q (4 * n + j)) q)
    Md5.narrowQuad 16 (fun q n hn => Md5.narrow_fourLines hX hn q) state
  unfold Standards.Md5.compress
  rw [show 64 = 16 * 4 from rfl, Words.foldl_range_mul, ← hrounds]
  simp only [md5Process, Quad.add, Md5.narrowQuad, narrow_add]

/-- The class computes MD5. -/
theorem md5_digest (m : List UInt8) : md5.scheme.digest m = Standards.md5.digest m := by
  have hstep : ∀ s b, b.length = 64 → Md5.narrowQuad (md5Process s b) = Standards.Md5.compress (Md5.narrowQuad s) b :=
    fun s b hb => narrow_md5Process hb s
  have hlength : ∀ n, putUlongLE (BitVec.ofNat 64 (8 * (n % 2 ^ 32))) ++ putUlongLE (BitVec.ofNat 64 (8 * n / 2 ^ 32))
      = Bytes.encode 8 (8 * n) := by
    intro n
    rw [putUlongLE_eq, putUlongLE_eq, encode_halves]
  have hout : ∀ s : Quad 64, putUlongLE s.a ++ putUlongLE s.b ++ putUlongLE s.c ++ putUlongLE s.d
      = ((Md5.narrowQuad s).toList.map bytesLE).flatten := by
    intro s
    simp only [bytesLE_narrow, Md5.narrowQuad, Quad.toList, List.map_cons, List.map_nil, List.flatten_cons, List.flatten_nil,
      List.append_nil, List.append_assoc]
  exact Scheme.digest_map Md5.narrowQuad rfl hstep rfl hlength hout m

/-! ## SHA-1 -/

namespace Sha1

/-- The rotation, on the low bits. -/
theorem narrow_S {n : Nat} (hn : n < 32) (x : BitVec 64) : narrow (S x n) = (narrow x).rotateLeft n :=
  Words.setWidth_rotateLeft x (by decide) hn

/-- The functions of the rounds, on the low bits. -/
theorem narrow_F (t : Nat) (x y z : BitVec 64) : narrow (F t x y z) = Standards.Sha1.f t (narrow x) (narrow y) (narrow z) := by
  unfold F Standards.Sha1.f
  split_ifs
  · rw [narrow_xor, narrow_and, narrow_xor, Words.select_or]
  · rw [narrow_xor, narrow_xor]
  · rw [narrow_or, narrow_and, narrow_and, narrow_or, Words.majority_or]
  · rw [narrow_xor, narrow_xor]

/-- The constants, on the low bits. -/
theorem narrow_K (t : Nat) : narrow (K t) = Standards.Sha1.K t := by
  unfold K Standards.Sha1.K
  split_ifs
  · rfl
  · rfl
  · rfl
  · rfl

/-- The places of the ring are those modulo 16. -/
theorem at_of_mod_eq {W : Ring} {t u : Nat} (h : t % 16 = u % 16) : W.at t = W.at u := by
  simp only [Ring.at, h]

/-- A step of the ring replaces one word. -/
theorem R_at_self (W : Ring) (t : Nat) : (W.R t).at t = S (W.at (t - 3) ^^^ W.at (t - 8) ^^^ W.at (t - 14) ^^^ W.at t) 1 := by
  rw [Ring.R, Ring.at, Vector.getElem_set_self]

/-- A step of the ring leaves the other words. -/
theorem R_at_of_ne (W : Ring) {t u : Nat} (h : u % 16 ≠ t % 16) : (W.R t).at u = W.at u := by
  rw [Ring.R, Ring.at, Vector.getElem_set_ne _ _ (Ne.symm h), Ring.at]

section Schedule

variable {data : List UInt8} (hdata : data.length = 64)

/-- The first sixteen words of the schedule are the block. -/
theorem W_of_lt {M : Nat → BitVec 32} {t : Nat} (h : t < 16) : Standards.Sha1.W M t = M t := by
  rw [Standards.Sha1.W, if_pos h]

/-- The next words of the schedule. -/
theorem W_of_le {M : Nat → BitVec 32} {t : Nat} (h : 16 ≤ t) : Standards.Sha1.W M t
    = (Standards.Sha1.W M (t - 3) ^^^ Standards.Sha1.W M (t - 8) ^^^ Standards.Sha1.W M (t - 14) ^^^ Standards.Sha1.W M (t - 16)).rotateLeft 1 := by
  rw [Standards.Sha1.W, if_neg (by omega)]

include hdata in
/-- The array holds the last sixteen words, each at its place. -/
theorem ring_spec (t : Nat) : ∀ j, j ≤ max t 15 → max t 15 < j + 16 →
    narrow ((ring data t).at j) = Standards.Sha1.W (wordBE 32 data) j := by
  induction t with
  | zero =>
    intro j hj _
    have hlt : j < 16 := by omega
    have hmod : j % 16 = j := Nat.mod_eq_of_lt hlt
    rw [W_of_lt hlt, ← narrow_getUlongBE (by omega)]
    simp [ring, Ring.at, hmod]
  | succ t ih =>
    intro j hj hlow
    rw [ring]
    split
    · next hfirst => exact ih j (by omega) (by omega)
    · next hlater =>
      by_cases hnew : j = t + 1
      · have hplace : (ring data t).at (t + 1) = (ring data t).at (t + 1 - 16) := at_of_mod_eq (by omega)
        rw [hnew, R_at_self, hplace, narrow_S (by decide), narrow_xor, narrow_xor, narrow_xor, ih _ (by omega) (by omega),
          ih _ (by omega) (by omega), ih _ (by omega) (by omega), ih _ (by omega) (by omega), W_of_le (t := t + 1) (by omega)]
      · rw [R_at_of_ne _ (by omega)]
        exact ih j (by omega) (by omega)

end Schedule

/-- The narrow registers. -/
def narrowQuint (q : Quint 64) : Quint 32 := ⟨narrow q.a, narrow q.b, narrow q.c, narrow q.d, narrow q.e⟩

variable {x : Nat → BitVec 64} {M : Nat → BitVec 32}

/-- A round, on the low bits. -/
theorem narrow_P (hx : ∀ t, narrow (x t) = Standards.Sha1.W M t) (t : Nat) (a b c d e : BitVec 64) :
    narrow (P x t a b c d e).1 = (Standards.Sha1.step M ⟨narrow a, narrow b, narrow c, narrow d, narrow e⟩ t).a ∧
      narrow (P x t a b c d e).2 = (Standards.Sha1.step M ⟨narrow a, narrow b, narrow c, narrow d, narrow e⟩ t).c := by
  dsimp only [P, Standards.Sha1.step]
  constructor
  · rw [narrow_add, narrow_add, narrow_add, narrow_add, narrow_S (by decide), narrow_F, narrow_K, hx]
    ac_rfl
  · rw [narrow_S (by decide)]

/-- Five rounds are five steps, after which the registers are at their places again. -/
theorem narrow_fiveRounds (hx : ∀ t, narrow (x t) = Standards.Sha1.W M t) (g : Nat) (q : Quint 64) :
    narrowQuint (fiveRounds x q (5 * g)) = (List.range 5).foldl (fun q j => Standards.Sha1.step M q (5 * g + j)) (narrowQuint q) := by
  have hfirst := fun t a b c d e => (narrow_P hx t a b c d e).1
  have hsecond := fun t a b c d e => (narrow_P hx t a b c d e).2
  simp only [List.range_succ, List.range_zero, List.nil_append, List.cons_append, List.foldl_cons, List.foldl_nil, fiveRounds, narrowQuint,
    hfirst, hsecond]
  rfl

end Sha1

/-- A block is compressed as the standard says. -/
theorem narrow_sha1Process {data : List UInt8} (hdata : data.length = 64) (state : Quint 64) :
    Sha1.narrowQuint (sha1Process state data) = Standards.Sha1.compress (Sha1.narrowQuint state) data := by
  have hx : ∀ t, narrow ((Sha1.ring data t).at t) = Standards.Sha1.W (wordBE 32 data) t := by
    intro t
    rcases Nat.lt_or_ge t 16 with hlt | hge
    · exact Sha1.ring_spec hdata t t (by omega) (by omega)
    · exact Sha1.ring_spec hdata t t (by omega) (by omega)
  have hrounds := Words.foldl_range_map (f := fun q n => Sha1.fiveRounds (fun t => (Sha1.ring data t).at t) q (5 * n))
    (g := fun q n => (List.range 5).foldl (fun q j => Standards.Sha1.step (wordBE 32 data) q (5 * n + j)) q)
    Sha1.narrowQuint 16 (fun q n _ => Sha1.narrow_fiveRounds hx n q) state
  unfold Standards.Sha1.compress
  rw [show 80 = 16 * 5 from rfl, Words.foldl_range_mul, ← hrounds]
  simp only [sha1Process, Quint.add, Sha1.narrowQuint, narrow_add]

/-- The length in two words, the higher one first. -/
theorem msglenBE_eq (n : Nat) :
    putUlongBE (BitVec.ofNat 64 (8 * n / 2 ^ 32)) ++ putUlongBE (BitVec.ofNat 64 (8 * (n % 2 ^ 32))) = (Bytes.encode 8 (8 * n)).reverse := by
  rw [putUlongBE_eq, putUlongBE_eq, encode_halves, List.reverse_append]

/-- The class computes SHA-1. -/
theorem sha1_digest (m : List UInt8) : sha1.scheme.digest m = Standards.sha1.digest m := by
  have hstep : ∀ s b, b.length = 64 → Sha1.narrowQuint (sha1Process s b) = Standards.Sha1.compress (Sha1.narrowQuint s) b :=
    fun s b hb => narrow_sha1Process hb s
  have hout : ∀ s : Quint 64, putUlongBE s.a ++ putUlongBE s.b ++ putUlongBE s.c ++ putUlongBE s.d ++ putUlongBE s.e
      = ((Sha1.narrowQuint s).toList.map bytesBE).flatten := by
    intro s
    simp only [bytesBE_narrow, Sha1.narrowQuint, Quint.toList, List.map_cons, List.map_nil, List.flatten_cons, List.flatten_nil,
      List.append_nil, List.append_assoc]
  exact Scheme.digest_map Sha1.narrowQuint rfl hstep rfl msglenBE_eq hout m

/-! ## SHA-2 -/

namespace Sha2

section Rounds

variable {v : Nat}

/-- The macros compute the functions of the standard for words of `v` bits. -/
structure Macros.Computes (m : Macros) (P : Standards.Sha2 v) : Prop where
  S0 : ∀ x, (m.S0 x).setWidth v = Standards.Sha2.small P.small0 (x.setWidth v)
  S1 : ∀ x, (m.S1 x).setWidth v = Standards.Sha2.small P.small1 (x.setWidth v)
  S2 : ∀ x, (m.S2 x).setWidth v = Standards.Sha2.sum P.sum0 (x.setWidth v)
  S3 : ∀ x, (m.S3 x).setWidth v = Standards.Sha2.sum P.sum1 (x.setWidth v)

variable {m : Macros} {P : Standards.Sha2 v} {words K : List (BitVec 64)} {M : Nat → BitVec v}

/-- Addition, on the low bits. -/
theorem cut_add (hv : v ≤ 64) (x y : BitVec 64) : (x + y).setWidth v = x.setWidth v + y.setWidth v := BitVec.setWidth_add x y hv

/-- The first sixteen words of the schedule are the block. -/
theorem W_of_lt {t : Nat} (h : t < 16) : P.W M t = M t := by
  rw [Standards.Sha2.W, if_pos h]

/-- The next words of the schedule. -/
theorem W_of_le {t : Nat} (h : 16 ≤ t) : P.W M t = Standards.Sha2.small P.small1 (P.W M (t - 2)) + P.W M (t - 7) +
    Standards.Sha2.small P.small0 (P.W M (t - 15)) + P.W M (t - 16) := by
  rw [Standards.Sha2.W, if_neg (by omega)]

/-- The schedule has a word for every round. -/
theorem length_schedule (m : Macros) (words : List (BitVec 64)) (n : Nat) : (m.schedule words n).length = words.length + n := by
  induction n with
  | zero => rfl
  | succ n ih =>
    rw [Macros.schedule, Macros.extend, List.length_append, ih, List.length_singleton, Nat.add_assoc]

/-- The array holds the words of the schedule. -/
theorem schedule_spec (hm : m.Computes P) (hv : v ≤ 64) (hlen : words.length = 16) (hwords : ∀ t < 16, (words.getD t 0).setWidth v = M t)
    (n : Nat) : ∀ t < 16 + n, ((m.schedule words n).getD t 0).setWidth v = P.W M t := by
  induction n with
  | zero =>
    intro t ht
    rw [Macros.schedule, hwords t ht, W_of_lt ht]
  | succ n ih =>
    intro t ht
    have hlength := length_schedule m words n
    rw [Macros.schedule, Macros.extend]
    rcases Nat.lt_or_ge t (16 + n) with hold | hnew
    · rw [List.getD_eq_getElem?_getD, List.getElem?_append_left (by omega), ← List.getD_eq_getElem?_getD]
      exact ih t hold
    · have hlast : t = (m.schedule words n).length := by omega
      have hge : 16 ≤ t := by omega
      rw [List.getD_eq_getElem?_getD, List.getElem?_append_right (by omega), ← List.getD_eq_getElem?_getD, ← hlast, Nat.sub_self,
        List.getD_cons_zero, cut_add hv, cut_add hv, cut_add hv, hm.S1, hm.S0, ih _ (by omega), ih _ (by omega), ih _ (by omega), ih _ (by omega),
        W_of_le hge]

/-- The majority, on the low bits. -/
theorem cut_F0 (x y z : BitVec 64) : (F0 x y z).setWidth v = Standards.Sha2.Maj (x.setWidth v) (y.setWidth v) (z.setWidth v) := by
  rw [F0, Words.majority_eq, BitVec.setWidth_xor, BitVec.setWidth_xor, BitVec.setWidth_and, BitVec.setWidth_and, BitVec.setWidth_and,
    Standards.Sha2.Maj]

/-- The choice, on the low bits. -/
theorem cut_F1 (x y z : BitVec 64) : (F1 x y z).setWidth v = Standards.Sha2.Ch (x.setWidth v) (y.setWidth v) (z.setWidth v) := by
  rw [F1, BitVec.setWidth_xor, BitVec.setWidth_and, BitVec.setWidth_xor, Words.select_eq, Standards.Sha2.Ch]

/-- The lower bits of the registers. -/
def cutOct (v : Nat) (q : Oct 64) : Oct v :=
  ⟨q.a.setWidth v, q.b.setWidth v, q.c.setWidth v, q.d.setWidth v, q.e.setWidth v, q.f.setWidth v, q.g.setWidth v, q.h.setWidth v⟩

/-- A line is a step, when the registers are taken in the order that the next line has them in. -/
theorem cut_P (hm : m.Computes P) (hv : v ≤ 64) {x k : BitVec 64} {t : Nat} (hx : x.setWidth v = P.W M t)
    (hk : k.setWidth v = Standards.Sha2.K v t) (a b c d e f g h : BitVec 64) :
    P.step M (cutOct v ⟨a, b, c, d, e, f, g, h⟩) t
      = cutOct v ⟨(m.P a b c d e f g h x k).2, a, b, c, (m.P a b c d e f g h x k).1, e, f, g⟩ := by
  have htemp1 : (h + m.S3 e + F1 e f g + k + x).setWidth v = P.T1 M (cutOct v ⟨a, b, c, d, e, f, g, h⟩) t := by
    rw [cut_add hv, cut_add hv, cut_add hv, cut_add hv, hm.S3, cut_F1, hk, hx]
    rfl
  have htemp2 : (m.S2 a + F0 a b c).setWidth v = P.T2 (cutOct v ⟨a, b, c, d, e, f, g, h⟩) := by
    rw [cut_add hv, hm.S2, cut_F0]
    rfl
  have hd : (m.P a b c d e f g h x k).1.setWidth v = d.setWidth v + P.T1 M (cutOct v ⟨a, b, c, d, e, f, g, h⟩) t := by
    rw [Macros.P, cut_add hv, htemp1]
  have hh : (m.P a b c d e f g h x k).2.setWidth v
      = P.T1 M (cutOct v ⟨a, b, c, d, e, f, g, h⟩) t + P.T2 (cutOct v ⟨a, b, c, d, e, f, g, h⟩) := by
    rw [Macros.P, cut_add hv, htemp1, htemp2]
  simp only [Standards.Sha2.step, cutOct, hd, hh]

/-- Eight rounds are eight steps, after which the registers are at their places again. -/
theorem cut_eightRounds (hm : m.Computes P) (hv : v ≤ 64) {W : List (BitVec 64)} {g : Nat}
    (hW : ∀ j < 8, (W.getD (8 * g + j) 0).setWidth v = P.W M (8 * g + j))
    (hK : ∀ j < 8, (K.getD (8 * g + j) 0).setWidth v = Standards.Sha2.K v (8 * g + j)) (q : Oct 64) :
    cutOct v (m.eightRounds K W q (8 * g)) = (List.range 8).foldl (fun q j => P.step M q (8 * g + j)) (cutOct v q) := by
  have hline := fun j (hj : j < 8) => cut_P hm hv (hW j hj) (hK j hj)
  have hrange : List.range 8 = [0, 1, 2, 3, 4, 5, 6, 7] := rfl
  rw [hrange]
  simp only [List.foldl_cons, List.foldl_nil]
  rw [hline 0 (by decide) q.a q.b q.c q.d q.e q.f q.g q.h, hline 1 (by decide), hline 2 (by decide), hline 3 (by decide),
    hline 4 (by decide), hline 5 (by decide), hline 6 (by decide), hline 7 (by decide)]
  rfl

/-- A block is compressed as the standard says, if the macros and the constants are its own. -/
theorem cut_process (hm : m.Computes P) (hv : v ≤ 64) {n : Nat} (hrounds : P.rounds = 8 * n) (hn : 2 ≤ n) (hlen : words.length = 16)
    (hwords : ∀ t < 16, (words.getD t 0).setWidth v = M t) (hK : ∀ t < 8 * n, (K.getD t 0).setWidth v = Standards.Sha2.K v t) (state : Oct 64) :
    cutOct v (m.process K n words state) = (cutOct v state).add ((List.range P.rounds).foldl (P.step M) (cutOct v state)) := by
  have hW := schedule_spec hm hv hlen hwords (8 * n - 16)
  have hgroups := Words.foldl_range_map (f := fun q i => m.eightRounds K (m.schedule words (8 * n - 16)) q (8 * i))
    (g := fun q i => (List.range 8).foldl (fun q j => P.step M q (8 * i + j)) q) (cutOct v) n
    (fun q i hi => cut_eightRounds hm hv (fun j hj => hW _ (by omega)) (fun j hj => hK _ (by omega)) q) state
  rw [hrounds, Nat.mul_comm 8 n, Words.foldl_range_mul, ← hgroups]
  simp only [Macros.process, Oct.add, cutOct, cut_add hv]

end Rounds

/-! ### SHA-224 and SHA-256 -/

/-- The rotation, on the low bits. -/
theorem narrow_ROTR {n : Nat} (hpos : 0 < n) (hn : n < 32) (x : BitVec 64) : narrow (ROTR x n) = (narrow x).rotateRight n :=
  Words.setWidth_rotateRight x (by decide) hpos hn

/-- The shift, on the low bits. -/
theorem narrow_SHR (n : Nat) (x : BitVec 64) : narrow (SHR x n) = narrow x >>> n := Words.setWidth_ushiftRight x (by decide) n

/-- The macros are those of SHA-256. -/
theorem macros_computes : macros.Computes Standards.sha2On32 where
  S0 x := by
    show narrow (ROTR x 7 ^^^ ROTR x 18 ^^^ SHR x 3) = _
    rw [narrow_xor, narrow_xor, narrow_ROTR (by decide) (by decide), narrow_ROTR (by decide) (by decide), narrow_SHR]
    rfl
  S1 x := by
    show narrow (ROTR x 17 ^^^ ROTR x 19 ^^^ SHR x 10) = _
    rw [narrow_xor, narrow_xor, narrow_ROTR (by decide) (by decide), narrow_ROTR (by decide) (by decide), narrow_SHR]
    rfl
  S2 x := by
    show narrow (ROTR x 2 ^^^ ROTR x 13 ^^^ ROTR x 22) = _
    rw [narrow_xor, narrow_xor, narrow_ROTR (by decide) (by decide), narrow_ROTR (by decide) (by decide),
      narrow_ROTR (by decide) (by decide)]
    rfl
  S3 x := by
    show narrow (ROTR x 6 ^^^ ROTR x 11 ^^^ ROTR x 25) = _
    rw [narrow_xor, narrow_xor, narrow_ROTR (by decide) (by decide), narrow_ROTR (by decide) (by decide),
      narrow_ROTR (by decide) (by decide)]
    rfl

/-- The constants are the cube roots. -/
theorem K_roots : Standards.AreRoots 3 32 Standards.primes (K.map BitVec.toNat) := by
  rw [Standards.primes_eq]
  decide

/-- Numbers in words of 64 bits that are bits of roots. -/
theorem rootBits_of_list {k v : Nat} {ps : List Nat} {xs : List (BitVec 64)} (hk : 0 < k)
    (hroots : Standards.AreRoots k v ps (xs.map BitVec.toNat)) (hsmall : (xs.all fun x => x.toNat < 2 ^ v) = true) {i : Nat} (hi : i < xs.length) :
    Standards.rootBits k v (ps.getD i 0) = (xs.getD i 0).setWidth v := by
  have hget : (xs.map BitVec.toNat).getD i 0 = (xs.getD i 0).toNat := by
    rw [List.getD_eq_getElem?_getD, List.getElem?_map, List.getElem?_eq_getElem hi, List.getD_eq_getElem?_getD, List.getElem?_eq_getElem hi]
    rfl
  have hlt : (xs.getD i 0).toNat < 2 ^ v := by
    rw [List.getD_eq_getElem?_getD, List.getElem?_eq_getElem hi]
    exact of_decide_eq_true (List.all_eq_true.mp hsmall _ (List.getElem_mem hi))
  rw [hroots.rootBits hk (by rw [List.length_map]; exact hi) (by rw [hget]; exact hlt), hget, BitVec.ofNat_toNat]

/-- The constants are those of the standard. -/
theorem K_eq : ∀ t < 8 * 8, narrow (K.getD t 0) = Standards.Sha2.K 32 t := by
  intro t ht
  exact (rootBits_of_list (by decide) K_roots (by decide) ht).symm

end Sha2

/-- A block is compressed as the standard says. -/
theorem narrow_sha2Process {data : List UInt8} (hdata : data.length = 64) (state : Oct 64) :
    Sha2.cutOct 32 (sha2Process state data) = Standards.sha2On32.compress (Sha2.cutOct 32 state) data := by
  refine Sha2.cut_process Sha2.macros_computes (by decide) rfl (by decide) rfl ?_ Sha2.K_eq state
  intro t ht
  have hget : ((List.range 16).map fun i => getUlongBE data (4 * i)).getD t 0 = getUlongBE data (4 * t) := by
    rw [List.getD_eq_getElem?_getD, List.getElem?_map, List.getElem?_range ht]
    rfl
  rw [hget]
  exact narrow_getUlongBE (by omega)

/-- The output, for all words of a state and for fewer. -/
theorem sha2Output_eq (is224 : Bool) (s : Oct 64) :
    sha2Output is224 s = (((Sha2.cutOct 32 s).toList.take (if is224 then 7 else 8)).map bytesBE).flatten := by
  cases is224
  · simp [sha2Output, bytesBE_narrow, Sha2.cutOct, Oct.toList]
  · simp [sha2Output, bytesBE_narrow, Sha2.cutOct, Oct.toList]

/-! The states that SHA-2 starts with. -/

/-- The start values of SHA-256 are the square roots. -/
theorem sha2Starts_roots : Standards.AreRoots 2 32 Standards.primes ((sha2Starts false).toList.map BitVec.toNat) := by
  rw [Standards.primes_eq]
  decide

/-- The start values of SHA-512 are the square roots. -/
theorem sha4Starts_roots : Standards.AreRoots 2 64 Standards.primes ((sha4Starts false).toList.map BitVec.toNat) := by
  rw [Standards.primes_eq]
  decide

/-- The start values of SHA-384 are the square roots of the next primes. -/
theorem sha4Starts384_roots : Standards.AreRoots 2 64 (Standards.primes.drop 8) ((sha4Starts true).toList.map BitVec.toNat) := by
  rw [Standards.primes_eq]
  decide

/-- The primes from the ninth on. -/
theorem prime_add (i : Nat) : Standards.prime (8 + i) = (Standards.primes.drop 8).getD i 0 := by
  rw [Standards.prime, List.getD_eq_getElem?_getD, List.getD_eq_getElem?_getD, List.getElem?_drop]

/-- States of words that are bits of roots. -/
theorem ofFn_rootBits {k v : Nat} {ps : List Nat} {s : Oct 64} (hk : 0 < k) (hroots : Standards.AreRoots k v ps (s.toList.map BitVec.toNat))
    (hsmall : (s.toList.all fun x => x.toNat < 2 ^ v) = true) : Oct.ofFn (fun i => Standards.rootBits k v (ps.getD i 0)) = Sha2.cutOct v s := by
  have hroot := fun i hi => Sha2.rootBits_of_list (i := i) hk hroots hsmall hi
  have hlen : s.toList.length = 8 := rfl
  simp only [Oct.ofFn, hroot 0 (by omega), hroot 1 (by omega), hroot 2 (by omega), hroot 3 (by omega), hroot 4 (by omega), hroot 5 (by omega),
    hroot 6 (by omega), hroot 7 (by omega)]
  rfl

/-- The class computes SHA-256. -/
theorem sha256_digest (m : List UInt8) : (sha2 false).scheme.digest m = Standards.sha256.digest m := by
  have hstep : ∀ s b, b.length = 64 → Sha2.cutOct 32 (sha2Process s b) = Standards.sha2On32.compress (Sha2.cutOct 32 s) b :=
    fun s b hb => narrow_sha2Process hb s
  have hiv : Sha2.cutOct 32 (sha2Starts false) = Oct.ofFn fun i => Standards.rootBits 2 32 (Standards.prime i) :=
    (ofFn_rootBits (by decide) sha2Starts_roots (by decide)).symm
  exact Scheme.digest_map (Sha2.cutOct 32) rfl hstep hiv msglenBE_eq (sha2Output_eq false) m

/-- The start values of SHA-384, in order. -/
theorem sha384_iv : (Oct.ofFn fun i => Standards.rootBits 2 64 (Standards.prime (8 + i))) = sha4Starts true := by
  have h := ofFn_rootBits (by decide) sha4Starts384_roots (by decide)
  simp only [Oct.ofFn, ← prime_add] at h ⊢
  exact h

/-- The class computes SHA-224. -/
theorem sha224_digest (m : List UInt8) : (sha2 true).scheme.digest m = Standards.sha224.digest m := by
  have hstep : ∀ s b, b.length = 64 → Sha2.cutOct 32 (sha2Process s b) = Standards.sha2On32.compress (Sha2.cutOct 32 s) b :=
    fun s b hb => narrow_sha2Process hb s
  have hiv : Sha2.cutOct 32 (sha2Starts true) = Oct.ofFn fun i => (Standards.rootBits 2 64 (Standards.prime (8 + i))).setWidth 32 := by
    have hlow : Sha2.cutOct 32 (sha2Starts true) = Sha2.cutOct 32 (sha4Starts true) := rfl
    rw [hlow, ← sha384_iv]
    rfl
  exact Scheme.digest_map (Sha2.cutOct 32) rfl hstep hiv msglenBE_eq (sha2Output_eq true) m

/-! ### SHA-384 and SHA-512 -/

namespace Sha4

/-- The macros are those of SHA-512. -/
theorem macros_computes : macros.Computes Standards.sha2On64 where
  S0 x := by
    show (ROTR x 1 ^^^ ROTR x 8 ^^^ SHR x 7).setWidth 64 = _
    rw [BitVec.setWidth_eq, BitVec.setWidth_eq, ROTR, ROTR, SHR, SHR, Words.rotateRight_eq x (by decide), Words.rotateRight_eq x (by decide)]
    rfl
  S1 x := by
    show (ROTR x 19 ^^^ ROTR x 61 ^^^ SHR x 6).setWidth 64 = _
    rw [BitVec.setWidth_eq, BitVec.setWidth_eq, ROTR, ROTR, SHR, SHR, Words.rotateRight_eq x (by decide), Words.rotateRight_eq x (by decide)]
    rfl
  S2 x := by
    show (ROTR x 28 ^^^ ROTR x 34 ^^^ ROTR x 39).setWidth 64 = _
    rw [BitVec.setWidth_eq, BitVec.setWidth_eq, ROTR, ROTR, ROTR, SHR, SHR, SHR, Words.rotateRight_eq x (by decide),
      Words.rotateRight_eq x (by decide), Words.rotateRight_eq x (by decide)]
    rfl
  S3 x := by
    show (ROTR x 14 ^^^ ROTR x 18 ^^^ ROTR x 41).setWidth 64 = _
    rw [BitVec.setWidth_eq, BitVec.setWidth_eq, ROTR, ROTR, ROTR, SHR, SHR, SHR, Words.rotateRight_eq x (by decide),
      Words.rotateRight_eq x (by decide), Words.rotateRight_eq x (by decide)]
    rfl

/-- The constants are the cube roots. -/
theorem K_roots : Standards.AreRoots 3 64 Standards.primes (K.map BitVec.toNat) := by
  rw [Standards.primes_eq]
  decide

/-- The constants are those of the standard. -/
theorem K_eq : ∀ t < 8 * 10, (K.getD t 0).setWidth 64 = Standards.Sha2.K 64 t := by
  intro t ht
  exact (Sha2.rootBits_of_list (by decide) K_roots (by decide) ht).symm

end Sha4

/-- A block is compressed as the standard says. -/
theorem sha4Process_eq {data : List UInt8} (hdata : data.length = 128) (state : Oct 64) :
    sha4Process state data = Standards.sha2On64.compress state data := by
  have hwords : ∀ t < 16, (((List.range 16).map fun i => getUint64BE data (8 * i)).getD t 0).setWidth 64 = wordBE 64 data t := by
    intro t ht
    have hget : ((List.range 16).map fun i => getUint64BE data (8 * i)).getD t 0 = getUint64BE data (8 * t) := by
      rw [List.getD_eq_getElem?_getD, List.getElem?_map, List.getElem?_range ht]
      rfl
    rw [hget, BitVec.setWidth_eq]
    exact getUint64BE_word (by omega)
  have hcut : ∀ q : Oct 64, Sha2.cutOct 64 q = q := by
    intro q
    simp only [Sha2.cutOct, BitVec.setWidth_eq]
  have h := Sha2.cut_process Sha4.macros_computes (Nat.le_refl 64) (n := 10) rfl (by decide) rfl hwords Sha4.K_eq state
  rw [hcut, hcut] at h
  exact h

/-- The output, for all words of a state and for fewer. -/
theorem sha4Output_eq (is384 : Bool) (s : Oct 64) :
    sha4Output is384 s = ((s.toList.take (if is384 then 6 else 8)).map bytesBE).flatten := by
  have hword : ∀ x : BitVec 64, putUint64BE x = bytesBE x := putUint64BE_eq
  cases is384
  · simp [sha4Output, hword, Oct.toList]
  · simp [sha4Output, hword, Oct.toList]

/-- The length of the message, in sixteen bytes. -/
theorem msglen64_eq (n : Nat) :
    putUint64BE (BitVec.ofNat 64 (8 * n / 2 ^ 64)) ++ putUint64BE (BitVec.ofNat 64 (8 * (n % 2 ^ 64))) = (Bytes.encode 16 (8 * n)).reverse := by
  rw [putUint64BE_eq, putUint64BE_eq, encode_halves64, List.reverse_append]

/-- The class computes SHA-512. -/
theorem sha512_digest (m : List UInt8) : (sha4 false).scheme.digest m = Standards.sha512.digest m := by
  have hblen : (sha4 false).scheme.blen = Standards.sha512.blen := rfl
  have hstep : ∀ s b, b.length = (sha4 false).scheme.blen → (sha4 false).scheme.compress s b = Standards.sha512.compress s b :=
    fun s _ hb => sha4Process_eq hb s
  have hiv : (sha4 false).scheme.iv = Standards.sha512.iv := (ofFn_rootBits (by decide) sha4Starts_roots (by decide)).symm
  have hlength : ∀ n, (sha4 false).scheme.lengthBytes n = Standards.sha512.lengthBytes n := msglen64_eq
  have hout : ∀ s, (sha4 false).scheme.out s = Standards.sha512.out s := sha4Output_eq false
  exact Scheme.digest_map (fun s => s) hblen hstep hiv hlength hout m

/-- The class computes SHA-384. -/
theorem sha384_digest (m : List UInt8) : (sha4 true).scheme.digest m = Standards.sha384.digest m := by
  have hblen : (sha4 true).scheme.blen = Standards.sha384.blen := rfl
  have hstep : ∀ s b, b.length = (sha4 true).scheme.blen → (sha4 true).scheme.compress s b = Standards.sha384.compress s b :=
    fun s _ hb => sha4Process_eq hb s
  have hiv : (sha4 true).scheme.iv = Standards.sha384.iv := sha384_iv.symm
  have hlength : ∀ n, (sha4 true).scheme.lengthBytes n = Standards.sha384.lengthBytes n := msglen64_eq
  have hout : ∀ s, (sha4 true).scheme.out s = Standards.sha384.out s := sha4Output_eq true
  exact Scheme.digest_map (fun s => s) hblen hstep hiv hlength hout m

end Blockmon.Hash
