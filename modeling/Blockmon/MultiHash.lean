import Mathlib.Algebra.Order.Ring.Int

/-!
# Several hashes from one digest (`lib/hash/hash.hpp`, `lib/hash/khash.hpp`, `lib/hash/khash.cpp`)

The hash function is a parameter. A failing assertion is a fault of the model, and so is a read or a write outside of an array and a
shift by the width of a word. What `new` leaves in an array that nothing fills is a parameter as well. Words lie in memory with the lowest
byte first.
-/

namespace Blockmon.MultiHash

/-- A failed assertion, an access outside of an array, or a shift that loses bits. -/
inductive Fault where
  | assertion (expr : String)
  | outOfBounds
  | overflow
deriving DecidableEq

/-- A hash function, by what it writes to `output` for a key. -/
structure HASH where
  msgdigestlen : UInt32
  compute : List UInt8 → List UInt8
  length_compute : ∀ key, (compute key).length = msgdigestlen.toNat

/-- `getDigestLength` -/
def HASH.getDigestLength (hash : HASH) : UInt32 := hash.msgdigestlen

/-- The members; the types of the arrays are their sizes. -/
structure KHASH where
  hash : HASH
  hashdiglen : UInt32
  nhash : UInt32
  shash : UInt32
  norep : Bool
  hashtodo : UInt32
  res : Vector UInt32 nhash.toNat
  msgdig : Vector UInt8 (hashtodo * hashdiglen + 4).toNat
  shash_pos : 0 < shash
  shash_le : shash ≤ 32

/-! ## The constructor -/

/-- `assert((_norep==1)?(_nhash <= (unsigned(1) << _shash)):1)` -/
def assertEnough (nhash shash : UInt32) (norep : Bool) : Except Fault Unit :=
  if norep then
    if shash < 32 then
      if nhash ≤ 1 <<< shash then .ok () else .error (.assertion "(_norep==1)?(_nhash <= (unsigned(1) << _shash)):1")
    else .error .overflow
  else .ok ()

/-- The number of digests to compute. The first assertion of the constructor keeps the divisor from zero. -/
def hashesToDo (hashdiglen nhash shash : UInt32) : UInt32 :=
  let bitneeded := shash * nhash
  let hashtodo := bitneeded / (hashdiglen <<< 3)
  if hashtodo * bitneeded ≠ hashdiglen <<< 3 then hashtodo + 1 else hashtodo

/-- The same for a number of bits, as `dec_nhash` has it. -/
def hashesToDoFor (hashdiglen bitneeded : UInt32) : UInt32 :=
  let hashtodo := bitneeded / (hashdiglen <<< 3)
  if hashtodo * bitneeded ≠ hashdiglen <<< 3 then hashtodo + 1 else hashtodo

/-- `KHASH::KHASH`, where `memory` is what the new `res` holds. -/
def khash (memory : Nat → UInt32) (hash : HASH) (nhash shash : UInt32) (norep : Bool) : Except Fault KHASH :=
  if hassert : shash ≤ 32 ∧ shash ≤ hash.getDigestLength * 8 ∧ 0 < shash then do
    assertEnough nhash shash norep
    .ok {
      hash := hash
      hashdiglen := hash.getDigestLength
      nhash := nhash
      shash := shash
      norep := norep
      hashtodo := hashesToDo hash.getDigestLength nhash shash
      res := Vector.ofFn fun i => memory i
      msgdig := Vector.replicate _ 0
      shash_pos := hassert.2.2
      shash_le := hassert.1 }
  else .error (.assertion "_shash<=sizeof(unsigned int)*8 && _shash<=_hash->getDigestLength()*8 && shash")

/-! ## Arrays of bytes -/

section Bytes

variable {n : Nat} (msgdig : Vector UInt8 n)

/-- One byte of the digest buffer. -/
def readByte (i : Nat) : Except Fault UInt8 := if h : i < n then .ok msgdig[i] else .error .outOfBounds

/-- `*(unsigned int*)(msgdig + i)` -/
def readWord (i : Nat) : Except Fault UInt32 := do
  let b0 ← readByte msgdig i
  let b1 ← readByte msgdig (i + 1)
  let b2 ← readByte msgdig (i + 2)
  let b3 ← readByte msgdig (i + 3)
  .ok (b0.toUInt32 ||| b1.toUInt32 <<< 8 ||| b2.toUInt32 <<< 16 ||| b3.toUInt32 <<< 24)

/-- The key of `len` bytes from a place on. -/
def readBytes (i len : Nat) : Except Fault (List UInt8) :=
  if i + len ≤ n then .ok ((msgdig.toList.drop i).take len) else .error .outOfBounds

/-- A digest written from a place on. -/
def writeBytes (i : Nat) (bytes : List UInt8) : Except Fault (Vector UInt8 n) :=
  if i + bytes.length ≤ n then .ok (Vector.ofFn fun j => if i ≤ j then bytes.getD (j - i) msgdig[j] else msgdig[j])
  else .error .outOfBounds

end Bytes

/-! ## The digests -/

namespace KHASH

variable (h : KHASH)

section Arrays

variable {n : Nat} (msgdig : Vector UInt8 n)

/-- The fifth byte, if the bits do not end in the word. Its shift is one of an `int`, of which the word keeps the 32 bits. -/
def completeFrom (bitoffset endoffset r : UInt32) : Except Fault UInt32 :=
  if 32 < h.shash + bitoffset then do
    let b ← readByte msgdig (endoffset >>> 3).toNat
    .ok (r ||| b.toUInt32 <<< (h.shash - (endoffset &&& 7)))
  else .ok r

/-- What a pass of the loop computes for `res[i]`. -/
def extract (startoffset endoffset : UInt32) : Except Fault UInt32 := do
  let w ← readWord msgdig (startoffset >>> 3).toNat
  let bitoffset := startoffset &&& 7
  let r ← h.completeFrom msgdig bitoffset endoffset (w >>> bitoffset)
  let mask : UInt32 := 0xFFFFFFFF >>> (32 - h.shash)
  .ok (r &&& mask)

/-- The last passes of the loop, from the `i`-th on. -/
def extractLoop : Nat → Nat → UInt32 → UInt32 → Vector UInt32 h.nhash.toNat → Except Fault (Vector UInt32 h.nhash.toNat)
  | 0, _, _, _, res => .ok res
  | passes + 1, i, startoffset, endoffset, res => do
    let r ← h.extract msgdig startoffset endoffset
    extractLoop passes (i + 1) (startoffset + h.shash) (endoffset + h.shash) (res.setIfInBounds i r)

end Arrays

/-- The last passes of the loop that hashes each digest again; the key keeps its length. -/
def rehashLoop (len : Nat) : Nat → UInt32 → Vector UInt8 (h.hashtodo * h.hashdiglen + 4).toNat →
    Except Fault (Vector UInt8 (h.hashtodo * h.hashdiglen + 4).toNat)
  | 0, _, msgdig => .ok msgdig
  | passes + 1, i, msgdig => do
    let key ← readBytes msgdig ((i - 1) * h.hashdiglen).toNat len
    let msgdig ← writeBytes msgdig (i * h.hashdiglen).toNat (h.hash.compute key)
    rehashLoop len passes (i + 1) msgdig

/-- `compute`: the digest, the digests of the digest, and the words cut out of them. -/
def compute (key : List UInt8) : Except Fault KHASH := do
  let msgdig ← writeBytes h.msgdig 0 (h.hash.compute key)
  let msgdig ← h.rehashLoop key.length (h.hashtodo.toNat - 1) 1 msgdig
  let res ← h.extractLoop msgdig h.nhash.toNat 0 0 h.shash h.res
  .ok { h with res := res, msgdig := msgdig }

/-- `H`: one of the hash values. -/
def H (k : UInt32) : Except Fault UInt32 :=
  if hk : k.toNat < h.nhash.toNat then .ok h.res[k.toNat] else .error (.assertion "(k<nhash)")

end KHASH

end Blockmon.MultiHash
