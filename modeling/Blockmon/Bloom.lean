import Mathlib.Data.List.Range
import Blockmon.Lib.Exn

/-!
# Bloom filters (`lib/bloom/khash.h`, `lib/bloom/khash.cpp`, `lib/bloom/bloom.h`, `lib/bloom/bloom.cpp`)

The hash function is a parameter, from byte strings to five words; that a digest can be computed, which the code asserts, is part of this. A
failing assertion is a fault of the model, and so is a read outside of an array and a loop that is not through when its fuel is used up.
Fresh memory is a parameter as well.
-/

namespace Blockmon.Bloom

/-- How a call may fail: an assertion, an access outside of an array, an `int` that overflows, or fuel that is used up. -/
inductive Fault where
  | assertion (expr : String)
  | outOfBounds
  | overflow
  | noEnd
deriving DecidableEq

/-- `assert` -/
def assert (c : Prop) [Decidable c] (expr : String) : Except Fault Unit := if c then .ok () else .error (.assertion expr)

/-! ## Multiple hashing -/

/-- A digest of five words. -/
abbrev Digest := Vector UInt32 5

/-- The parameters that the constructor accepts. -/
structure Khash where
  nhash : Nat
  shash : Nat
  norep : Bool
  nhash_pos : 1 ≤ nhash
  nhash_lt : nhash + 1 < 2 ^ 31
  shash_pos : 1 ≤ shash
  shash_lt : shash < 32
  enough : norep = true → nhash ≤ 2 ^ shash

/-- The constructor. For the largest `int` the size of the output vector overflows. -/
def khash (nhash shash norep : Int) : Except Fault Khash :=
  if hnhash : 1 ≤ nhash then
    if hshash : 1 ≤ shash then
      if norep = 0 ∨ norep = 1 then
        if hlt : shash < 32 then
          if henough : norep = 1 → nhash ≤ 2 ^ shash.toNat then
            if hsize : nhash + 1 < 2 ^ 31 then
              .ok {
                nhash := nhash.toNat
                shash := shash.toNat
                norep := decide (norep = 1)
                nhash_pos := by omega
                nhash_lt := by omega
                shash_pos := by omega
                shash_lt := by omega
                enough := fun h => Int.toNat_le.mpr (by exact_mod_cast henough (of_decide_eq_true h)) }
            else .error .overflow
          else .error (.assertion "(norep==1)?(unsigned(nhash) <= (unsigned(1) << shash)):1")
        else .error (.assertion "_shash<32")
      else .error (.assertion "(_norep==0)||(_norep==1)")
    else .error (.assertion "_shash>=1")
  else .error (.assertion "_nhash>=1")

/-- `bitmask` -/
def bitmask (bit : Int) : Except Fault UInt32 := do
  assert (0 ≤ bit ∧ bit ≤ 32) "(bit>=0)&&(bit<=32)"
  .ok (if bit = 0 then 0 else if bit = 32 then 0xFFFFFFFF else (1 <<< UInt32.ofNat bit.toNat) - 1)

/-- A word of a digest. -/
def word (msgdig : Digest) (blk : Int) : Except Fault UInt32 :=
  if h : 0 ≤ blk ∧ blk < 5 then .ok (msgdig.get ⟨blk.toNat, by omega⟩) else .error .outOfBounds

/-- The loop of `copy_sha`. -/
def copyWords (vin : Digest) : Nat → Int → Nat → List UInt8 → Except Fault (Int × Nat × List UInt8)
  | 0, _, _, _ => .error .noEnd
  | fuel + 1, blkIn, blkOut, vout =>
    if blkIn < 5 then do
      let w ← word vin blkIn
      let c := ((w >>> UInt32.ofNat (blkOut % 4 * 8)) &&& 0xFF).toUInt8
      copyWords vin fuel (if (blkOut + 1) % 4 = 0 then blkIn + 1 else blkIn) (blkOut + 1) (vout ++ [c])
    else .ok (blkIn, blkOut, vout)

/-- `copy_sha` -/
def copySha (vin : Digest) : Except Fault (List UInt8) := do
  let out ← copyWords vin 21 0 0 []
  assert (out.1 = 5) "blk_in==5"
  assert (out.2.1 = 20) "blk_out == 20"
  .ok out.2.2

/-- The digest that bits are taken from, its copy, and how many bits have been taken. -/
structure Source where
  msgdig : Digest
  md : List UInt8
  ptr : Int

section Compute

variable (sha1 : List UInt8 → Digest) (h : Khash)

/-- The next digest if the bits end with this one: the source, and the block that they end in. -/
def refill (src : Source) (sBlk carry : Int) : Except Fault (Source × Int) :=
  if 0 ≤ carry ∧ sBlk = 4 then do
    let md ← copySha (sha1 src.md)
    .ok ({ msgdig := sha1 src.md, md := md, ptr := src.ptr - 160 }, -1)
  else .ok (src, sBlk)

/-- The bits that lie in the next block. -/
def spill (msgdig : Digest) (sBlk carry : Int) (r : UInt32) : Except Fault UInt32 :=
  if 0 < carry then do
    let w ← word msgdig (sBlk + 1)
    let mask ← bitmask carry
    .ok (r ||| ((w &&& mask) <<< UInt32.ofNat (h.shash - carry).toNat))
  else .ok r

/-- What a pass of the loop computes for `res[k]`. -/
def nextDigest (src : Source) : Except Fault (UInt32 × Source) := do
  let first ← word src.msgdig (src.ptr.tdiv 32)
  let mask ← bitmask h.shash
  let filled ← refill sha1 src (src.ptr.tdiv 32) (src.ptr.tmod 32 + h.shash - 32)
  let r ← spill h filled.1.msgdig filled.2 (src.ptr.tmod 32 + h.shash - 32)
    ((first >>> UInt32.ofNat (src.ptr.tmod 32).toNat) &&& mask)
  assert (0 ≤ filled.1.ptr + h.shash ∧ filled.1.ptr + h.shash ≤ 160) "(ptr>=0)&&(ptr<=160)"
  .ok (r, { msgdig := filled.1.msgdig, md := filled.1.md, ptr := filled.1.ptr + h.shash })

/-- `for(int i=1; i<k; i++) if (res[i]==res[k]) k--;`, whose passes are at most `k`. -/
def skipRepeated (res : List UInt32) : Nat → Nat → Nat → Nat
  | 0, _, k => k
  | n + 1, i, k => if i < k then skipRepeated res n (i + 1) (if res.getD i 0 = res.getD k 0 then k - 1 else k) else k

/-- The loop over the digests to compute. -/
def computeLoop : Nat → Source → Nat → List UInt32 → Except Fault (List UInt32)
  | 0, _, _, _ => .error .noEnd
  | fuel + 1, src, k, res =>
    if k ≤ h.nhash then do
      let next ← nextDigest sha1 h src
      computeLoop fuel next.2 ((if h.norep then skipRepeated (res.set k next.1) k 1 k else k) + 1) (res.set k next.1)
    else .ok res

/-- What `compute` leaves in `res`. -/
def compute (fuel : Nat) (key : List UInt8) (res : List UInt32) : Except Fault (List UInt32) := do
  assert (0 < key.length) "len>0"
  let md ← copySha (sha1 key)
  computeLoop sha1 h fuel { msgdig := sha1 key, md := md, ptr := 0 } 1 res

end Compute

/-! ## The filter -/

/-- `bloomfilter` -/
structure Bloomfilter where
  hash : Khash
  res : List UInt32
  m : List UInt8
  numZeros : UInt32

/-- `mmax` -/
def mmax (h : Khash) : UInt32 := 1 <<< UInt32.ofNat h.shash

/-- `mmax_arr` -/
def mmaxArr (h : Khash) : UInt32 := if h.shash < 3 then 1 else 1 <<< UInt32.ofNat (h.shash - 3)

namespace Bloomfilter

/-- `clear` -/
def clear (f : Bloomfilter) : Bloomfilter where
  hash := f.hash
  res := f.res
  m := List.replicate (mmaxArr f.hash).toNat 0
  numZeros := mmax f.hash

end Bloomfilter

/-- The constructor, on fresh memory for `res`. -/
def bloomfilter (memory : Nat → UInt32) (nhash shash norep : Int) : Except Fault Bloomfilter := do
  let h ← khash nhash shash norep
  assert (1 ≤ h.shash ∧ h.shash ≤ 31) "(shash>=1)&&(shash<=31)"
  .ok (Bloomfilter.clear { hash := h, res := (List.range (h.nhash + 1)).map memory, m := [], numZeros := 0 })

section Bits

variable (h : Khash) (res : List UInt32)

/-- `H`. -/
def hashAt (k : Nat) : Except Fault UInt32 := do
  assert (1 ≤ k ∧ k ≤ h.nhash) "(k>=1)&&(k<=nhash)"
  match res[k]? with
  | some r => .ok r
  | none => .error .outOfBounds

/-- The byte of a digest and its bit in it, as both loops compute them. -/
def position (i : Nat) : Except Fault (Nat × UInt8) := do
  let r ← hashAt h res i
  assert (r >>> 3 < mmaxArr h) "b<mmax_arr"
  let mask ← bitmask 3
  assert ((r &&& mask).toUInt8 < 8) "t<8"
  .ok ((r >>> 3).toNat, 1 <<< (r &&& mask).toUInt8)

/-- A byte of the filter. -/
def byteAt (m : List UInt8) (b : Nat) : Except Fault UInt8 :=
  match m[b]? with
  | some byte => .ok byte
  | none => .error .outOfBounds

/-- A pass of the loop of `insert`, on the array and `extra_ones`. -/
def insertBit (i : Nat) (s : List UInt8 × Nat) : Except Fault (List UInt8 × Nat) := do
  let place ← position h res i
  let byte ← byteAt s.1 place.1
  .ok (if byte &&& place.2 = 0 then (s.1.set place.1 (byte ||| place.2), s.2 + 1) else s)

/-- The loop of `insert`, with the number of the bits that were new. -/
def insertBits : List Nat → List UInt8 × Nat → Except Fault (List UInt8 × Nat)
  | [], s => .ok s
  | i :: is, s => do
    let s' ← insertBit h res i s
    insertBits is s'

/-- The loop of `check`. -/
def checkBits (m : List UInt8) : List Nat → Except Fault Bool
  | [] => .ok true
  | i :: is => do
    let place ← position h res i
    let byte ← byteAt m place.1
    if byte &&& place.2 = 0 then .ok false else checkBits m is

end Bits

namespace Bloomfilter

variable (sha1 : List UInt8 → Digest) (fuel : Nat)

/-- `insert`, which says whether the key is new. -/
def insert (f : Bloomfilter) (key : List UInt8) : Except Fault (Bloomfilter × Bool) := do
  let res ← compute sha1 f.hash fuel key f.res
  let bits ← insertBits f.hash res (List.range' 1 f.hash.nhash) (f.m, 0)
  .ok (if bits.2 = 0 then ({ hash := f.hash, res := res, m := bits.1, numZeros := f.numZeros }, false)
    else ({ hash := f.hash, res := res, m := bits.1, numZeros := f.numZeros - UInt32.ofNat bits.2 }, true))

/-- `check`, which says whether the key was there. -/
def check (f : Bloomfilter) (key : List UInt8) : Except Fault (Bloomfilter × Bool) := do
  let res ← compute sha1 f.hash fuel key f.res
  let all ← checkBits f.hash res f.m (List.range' 1 f.hash.nhash)
  .ok ({ hash := f.hash, res := res, m := f.m, numZeros := f.numZeros }, all)

end Bloomfilter

end Blockmon.Bloom

/-!
## Pairs of Bloom filters (`lib/bloom/bloompair.h`, `lib/bloom/bloompair.cpp`)

The threshold is a `double`: it is left out, and whether `add` swaps the filters is an argument. `m` is not kept, only the threshold reads it.
-/

namespace Blockmon.Bloom

/-- `maxdigest` -/
def maxdigest (h : Khash) : UInt32 := 1 <<< UInt32.ofNat h.shash

/-- `BloomPair` -/
structure BloomPair where
  learning : Bloomfilter
  detecting : Bloomfilter

/-- The constructor, on fresh memory for both filters. -/
def bloomPair (memory memory' : Nat → UInt32) (nhash shash : Int) : Except Fault BloomPair := do
  let learning ← bloomfilter memory nhash shash 1
  let detecting ← bloomfilter memory' nhash shash 1
  assert (maxdigest learning.hash = learning.numZeros) "m==B_learning->get_nzero()"
  .ok { learning := learning, detecting := detecting }

namespace BloomPair

/-- `clear` -/
def clear (p : BloomPair) : BloomPair where
  learning := p.learning.clear
  detecting := p.detecting.clear

/-- `add`, which says whether the key is new to the detecting filter. -/
def add (sha1 : List UInt8 → Digest) (fuel : Nat) (p : BloomPair) (swap : Bool) (key : List UInt8) : Except Fault (BloomPair × Bool) := do
  let l ← p.learning.insert sha1 fuel key
  let d ← p.detecting.insert sha1 fuel key
  assert (d.2 = false ∨ d.2 = true ∧ l.2 = true) "(res_d==false)||((res_d==true)&&(res_l==true))"
  .ok (if swap then { learning := d.1.clear, detecting := l.1 } else { learning := l.1, detecting := d.1 }, d.2)

end BloomPair

end Blockmon.Bloom
