import Mathlib.Data.List.Basic
import Mathlib.Data.List.Range
import Mathlib.Data.Int.Init
import Mathlib.Algebra.Order.Ring.Int

/-!
# Bytes and memory

Numbers as byte strings of a fixed width, the least significant byte first, and a memory with one byte at every address. `swap`
reverses the bytes of a number; `half` exchanges the two halves of a number of eight bytes.
-/

namespace Bytes

/-! ## Numbers -/

/-- The last `n` bytes of a number, the least significant one first. -/
def encode : Nat → Nat → List UInt8
  | 0, _ => []
  | n + 1, v => UInt8.ofNat (v % 256) :: encode n (v / 256)

/-- The number of bytes, the lowest first. -/
def decode : List UInt8 → Nat
  | [] => 0
  | b :: bs => b.toNat + 256 * decode bs

/-- A number is written in as many bytes as asked for. -/
@[simp] theorem length_encode (n v : Nat) : (encode n v).length = n := by
  induction n generalizing v with
  | zero => rfl
  | succ n ih => simp [encode, ih]

/-- So many bytes are below the power. -/
theorem decode_lt (bs : List UInt8) : decode bs < 256 ^ bs.length := by
  induction bs with
  | nil => simp [decode]
  | cons b bs ih =>
    have hb : b.toNat < 256 := b.toNat_lt
    simp only [decode, List.length_cons, Nat.pow_succ]
    omega

/-- What is written is read back, modulo the power. -/
theorem decode_encode (n v : Nat) : decode (encode n v) = v % 256 ^ n := by
  induction n generalizing v with
  | zero => simp [encode, decode, Nat.mod_one]
  | succ n ih =>
    have hbyte : (UInt8.ofNat (v % 256)).toNat = v % 256 := by simp
    rw [encode, decode, ih, hbyte, Nat.pow_succ, Nat.mul_comm (256 ^ n) 256, Nat.mod_mul]

/-- What is read is written back. -/
theorem encode_decode (bs : List UInt8) : encode bs.length (decode bs) = bs := by
  induction bs with
  | nil => rfl
  | cons b bs ih =>
    have hb : b.toNat < 256 := b.toNat_lt
    have hmod : (b.toNat + 256 * decode bs) % 256 = b.toNat := by omega
    have hdiv : (b.toNat + 256 * decode bs) / 256 = decode bs := by omega
    simp only [List.length_cons, decode, encode, hmod, hdiv, ih, UInt8.ofNat_toNat]

/-- The bytes one by one. -/
theorem encode_eq_map (n v : Nat) : encode n v = (List.range n).map fun k => UInt8.ofNat (v / 256 ^ k % 256) := by
  induction n generalizing v with
  | zero => rfl
  | succ n ih =>
    rw [encode, ih, List.range_succ_eq_map, List.map_cons, List.map_map, Nat.pow_zero, Nat.div_one]
    refine congrArg _ (List.map_congr_left fun k _ => ?_)
    rw [Function.comp_apply, Nat.div_div_eq_div_mul, Nat.succ_eq_add_one, Nat.pow_succ, Nat.mul_comm 256]

/-- Only the last `n` bytes of a number count. -/
theorem encode_congr {n v v' : Nat} (h : v % 256 ^ n = v' % 256 ^ n) : encode n v = encode n v' := by
  have hself := encode_decode (encode n v)
  have hself' := encode_decode (encode n v')
  rw [length_encode, decode_encode] at hself hself'
  rw [← hself, ← hself', h]

/-- The low bytes are written first. -/
theorem encode_add (n k v : Nat) : encode (n + k) v = encode n v ++ encode k (v / 256 ^ n) := by
  induction n generalizing v with
  | zero => rw [Nat.zero_add, Nat.pow_zero, Nat.div_one, encode, List.nil_append]
  | succ n ih =>
    have hshift : n + 1 + k = n + k + 1 := by omega
    rw [hshift, encode, encode, ih, List.cons_append, Nat.div_div_eq_div_mul, Nat.pow_succ, Nat.mul_comm 256]

/-- The bytes of a number in the other order. -/
def swap (n v : Nat) : Nat := decode (encode n v).reverse

/-- A swapped number is below the power. -/
theorem swap_lt (n v : Nat) : swap n v < 256 ^ n := by
  have h := decode_lt (encode n v).reverse
  simpa [swap] using h

/-- A swap writes the bytes the other way round. -/
theorem encode_swap (n v : Nat) : encode n (swap n v) = (encode n v).reverse := by
  have h := encode_decode (encode n v).reverse
  simpa [swap] using h

/-- Two swaps are none. -/
theorem swap_swap (n v : Nat) : swap n (swap n v) = v % 256 ^ n := by
  rw [swap, encode_swap, List.reverse_reverse, decode_encode]

/-- A swap reads the bytes the other way round. -/
theorem swap_decode (bs : List UInt8) : swap bs.length (decode bs) = decode bs.reverse := by
  rw [swap, encode_decode]

/-- Of two byte strings of one length. -/
theorem decode_inj {bs cs : List UInt8} (hlen : bs.length = cs.length) : decode bs = decode cs ↔ bs = cs := by
  constructor
  · intro h
    rw [← encode_decode bs, h, hlen, encode_decode]
  · intro h
    rw [h]

/-- The two halves of a number of eight bytes exchanged. -/
def half (v : Nat) : Nat := v % 2 ^ 32 * 2 ^ 32 + v / 2 ^ 32 % 2 ^ 32

/-- Two swaps of the halves are none. -/
theorem half_half {v : Nat} (h : v < 2 ^ 64) : half (half v) = v := by
  unfold half
  have hhigh : v / 2 ^ 32 % 2 ^ 32 = v / 2 ^ 32 := Nat.mod_eq_of_lt (by omega)
  have hlow : (v % 2 ^ 32 * 2 ^ 32 + v / 2 ^ 32) % 2 ^ 32 = v / 2 ^ 32 := by omega
  have hswap : (v % 2 ^ 32 * 2 ^ 32 + v / 2 ^ 32) / 2 ^ 32 = v % 2 ^ 32 := by omega
  rw [hhigh, hlow, hswap, Nat.mod_mod]
  omega

/-- A swap of the halves is below the power. -/
theorem half_lt (v : Nat) : half v < 2 ^ 64 := by
  unfold half
  have hlow : v % 2 ^ 32 < 2 ^ 32 := Nat.mod_lt _ (by decide)
  have hhigh : v / 2 ^ 32 % 2 ^ 32 < 2 ^ 32 := Nat.mod_lt _ (by decide)
  omega

/-! ## Machine integers -/

/-- The signed value that a number has among `m` values. -/
def signed (m : Nat) (v : Int) : Int := v.bmod m

/-- The unsigned value that a number has among `m` values. -/
def unsigned (m : Nat) (v : Int) : Nat := (v % m).toNat

/-- The unsigned value is the remainder. -/
theorem cast_unsigned {m : Nat} (hm : 0 < m) (v : Int) : (unsigned m v : Int) = v % m :=
  Int.toNat_of_nonneg (Int.emod_nonneg v (by omega))

/-- The unsigned value is below the modulus. -/
theorem unsigned_lt {m : Nat} (hm : 0 < m) (v : Int) : unsigned m v < m := by
  have hlt := Int.emod_lt_of_pos v (show (0 : Int) < m by omega)
  rw [← cast_unsigned hm] at hlt
  exact_mod_cast hlt

/-- A number in range is its unsigned value. -/
theorem unsigned_of_lt {m : Nat} {v : Int} (hnn : 0 ≤ v) (hlt : v < m) : (unsigned m v : Int) = v := by
  rw [cast_unsigned (by omega), Int.emod_eq_of_lt hnn hlt]

/-- A value that fits is read back from its bits. -/
theorem signed_unsigned {m : Nat} {v : Int} (hlo : -(m : Int) ≤ v * 2) (hhi : v * 2 < m) : signed m (unsigned m v) = v := by
  unfold signed
  rw [cast_unsigned (by omega), Int.emod_bmod, Int.bmod_eq_of_le_mul_two hlo hhi]

/-- A number in range is its signed value. -/
theorem signed_of_lt {m : Nat} {v : Int} (hlo : -(m : Int) ≤ v * 2) (hhi : v * 2 < m) : signed m v = v :=
  Int.bmod_eq_of_le_mul_two hlo hhi

/-- The signed value is below the half. -/
theorem signed_lt {m : Nat} (hm : 0 < m) (v : Int) : signed m v * 2 < m := by
  have h := Int.bmod_lt (x := v) hm
  unfold signed
  omega

/-- The signed value is not below the negative half. -/
theorem le_signed {m : Nat} (hm : 0 < m) (v : Int) : -(m : Int) ≤ signed m v * 2 := by
  have h := Int.le_bmod (x := v) hm
  unfold signed
  omega

/-! ## Memory -/

variable {mem : Int → UInt8} {a b : Int} {n k : Nat}

/-- The `n` bytes from an address on. -/
def read (mem : Int → UInt8) (a : Int) (n : Nat) : List UInt8 := (List.range n).map fun i : Nat => mem (a + (i : Int))

/-- The memory with `n` bytes of `src` from an address on. -/
def write (mem : Int → UInt8) (a : Int) (n : Nat) (src : Nat → UInt8) : Int → UInt8 :=
  fun i => if a ≤ i ∧ i < a + n then src (i - a).toNat else mem i

/-- As many bytes are read as asked for. -/
@[simp] theorem length_read (mem : Int → UInt8) (a : Int) (n : Nat) : (read mem a n).length = n := by simp [read]

/-- No bytes are read. -/
@[simp] theorem read_zero (mem : Int → UInt8) (a : Int) : read mem a 0 = [] := rfl

/-- A read in two parts. -/
theorem read_add (mem : Int → UInt8) (a : Int) (n k : Nat) : read mem a (n + k) = read mem a n ++ read mem (a + n) k := by
  simp only [read, List.range_add, List.map_append, List.map_map]
  congr 1
  refine List.map_congr_left fun i _ => ?_
  simp only [Function.comp_apply, Int.natCast_add, Int.add_assoc]

/-- A read depends on its own bytes only. -/
theorem read_congr {mem' : Int → UInt8} (h : ∀ i, a ≤ i → i < a + n → mem' i = mem i) : read mem' a n = read mem a n := by
  unfold read
  refine List.map_congr_left fun i hi => ?_
  have hlt := List.mem_range.mp hi
  exact h _ (by omega) (by omega)

/-- Writing elsewhere. -/
theorem read_write_of_disjoint {src : Nat → UInt8} (h : a + n ≤ b ∨ b + k ≤ a) : read (write mem b k src) a n = read mem a n := by
  refine read_congr fun i hlo hhi => ?_
  unfold write
  rw [if_neg (by omega)]

/-- What was written is read. -/
theorem read_write_self (mem : Int → UInt8) (a : Int) (n : Nat) (src : Nat → UInt8) :
    read (write mem a n src) a n = (List.range n).map src := by
  unfold read write
  refine List.map_congr_left fun i hi => ?_
  have hlt := List.mem_range.mp hi
  rw [if_pos (by omega)]
  congr 1
  omega

/-- Moving bytes. -/
theorem read_move (mem : Int → UInt8) (a b : Int) (n : Nat) :
    read (write mem a n fun i => mem (b + (i : Int))) a n = read mem b n := by
  rw [read_write_self]
  rfl

/-- A byte string as it lies in memory. -/
def source (l : List UInt8) : Nat → UInt8 := fun i => l.getD i 0

/-- A source is its list. -/
theorem map_source (l : List UInt8) : (List.range l.length).map (source l) = l := by
  refine List.ext_getElem (by simp) fun i h h' => ?_
  simp [source, h']

/-! ## Bytes in a list -/

/-- A byte string written over a part of a list. -/
def overwrite (m : List UInt8) (off : Nat) (bs : List UInt8) : List UInt8 := m.take off ++ bs ++ m.drop (off + bs.length)

section Overwrite

variable {m bs : List UInt8} {off : Nat}

/-- The bytes before the written ones are as they were. -/
theorem getElem?_overwrite_of_lt {i : Nat} (h : off ≤ m.length) (hi : i < off) : (overwrite m off bs)[i]? = m[i]? := by
  unfold overwrite
  rw [List.append_assoc, List.getElem?_append_left (by rw [List.length_take]; omega), List.getElem?_take_of_lt hi]

/-- The bytes behind the written ones are as they were. -/
theorem getElem?_overwrite_of_ge {i : Nat} (h : off ≤ m.length) (hi : off + bs.length ≤ i) : (overwrite m off bs)[i]? = m[i]? := by
  have hlen : (m.take off ++ bs).length = off + bs.length := by
    rw [List.length_append, List.length_take]
    omega
  unfold overwrite
  rw [List.getElem?_append_right (by omega), List.getElem?_drop]
  congr 1
  omega

/-- The written bytes are there. -/
theorem overwrite_inside (bs : List UInt8) (h : off ≤ m.length) : ((overwrite m off bs).drop off).take bs.length = bs := by
  have hlen : (m.take off).length = off := by
    rw [List.length_take]
    omega
  unfold overwrite
  rw [List.append_assoc, List.drop_append_of_le_length (by omega), List.drop_eq_nil_of_le (by omega), List.nil_append,
    List.take_left]

/-- A part is replaced by one of its length. -/
theorem overwrite_append {a b c : List UInt8} (hoff : off = a.length) (hlen : bs.length = b.length) :
    overwrite (a ++ b ++ c) off bs = a ++ bs ++ c := by
  have hhead : (a ++ b ++ c).take off = a := by rw [hoff, List.append_assoc, List.take_left]
  have htail : (a ++ b ++ c).drop (off + bs.length) = c := by rw [hoff, hlen, ← List.length_append, List.drop_left]
  rw [overwrite, hhead, htail]

end Overwrite

end Bytes
