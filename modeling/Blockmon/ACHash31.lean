import Blockmon.MultiHash

/-!
# The affine hash (`lib/hash/ACHash31.hpp`, `lib/hash/ACHash31.cpp`)

An array comes with its length, as a list. What an output array holds after the call is the list of the bytes written to it.
-/

namespace Blockmon

/-- `dgstlenhsm` -/
def dgstlenhsm : UInt32 := 4

/-- The macro `mod` of the header. -/
def ACHash31.mod : UInt32 := 0x2FFFFFFF

/-- The private members; no method but the constructor writes them. -/
structure ACHash31 where
  SMOD_A : UInt32
  SMOD_B : UInt32
  SMOD_MOD : UInt32
  SMOD_MOD_eq : SMOD_MOD = ACHash31.mod

namespace ACHash31

/-- The constructor of `ACHash31`. -/
def new (a b : UInt32) : ACHash31 where
  SMOD_A := a
  SMOD_B := b
  SMOD_MOD := mod
  SMOD_MOD_eq := rfl

/-- `getDigestLength` -/
def getDigestLength (_h : ACHash31) : UInt32 := dgstlenhsm

/-- `compute(key, a, b)` -/
def computeWith (h : ACHash31) (key a b : UInt32) : UInt32 :=
  let result := a.toUInt64 * key.toUInt64 + b.toUInt64
  let result := ((result >>> 31) + result) &&& h.SMOD_MOD.toUInt64
  result.toUInt32

/-- `compute(key)` -/
def computeKey (h : ACHash31) (key : UInt32) : UInt32 := h.computeWith key h.SMOD_A h.SMOD_B

/-- The two sums of the loops over bytes. -/
structure KeyInt where
  key_int : UInt32
  key_int_temp : UInt32

/-- A pass of the loop. -/
def KeyInt.addByte (i : Nat) (byte : UInt8) (s : KeyInt) : KeyInt :=
  let s := if i &&& 0x3 = 0 then ⟨s.key_int + s.key_int_temp, 0⟩ else s
  { s with key_int_temp := s.key_int_temp + byte.toUInt32 <<< UInt32.ofNat ((i &&& 0x3) <<< 3) }

/-- The passes from `i` on. -/
def KeyInt.addBytes (i : Nat) (s : KeyInt) : List UInt8 → KeyInt
  | [] => s
  | byte :: bytes => (s.addByte i byte).addBytes (i + 1) bytes

/-- The loop with what follows it. -/
def addKey (key_int : UInt32) (key : List UInt8) : UInt32 :=
  let s := (KeyInt.mk key_int 0).addBytes 0 key
  s.key_int + s.key_int_temp

/-- The loop that writes `n` bytes of the digest. -/
def writeOut : Nat → UInt32 → List UInt8
  | 0, _ => []
  | n + 1, out => (out &&& 0xFF).toUInt8 :: writeOut n (out >>> 8)

/-- `compute(key, len, output)` -/
def compute (h : ACHash31) (key : List UInt8) : List UInt8 := writeOut h.getDigestLength.toNat (h.computeKey (addKey 0 key))

/-- `compute(key, keylen, input, ilen, output)` -/
def computeMac (h : ACHash31) (key input : List UInt8) : List UInt8 :=
  writeOut h.getDigestLength.toNat (h.computeKey (addKey (addKey 0 key) input))

/-- As many bytes are written as asked for. -/
theorem length_writeOut (n : Nat) (out : UInt32) : (writeOut n out).length = n := by
  induction n generalizing out with
  | zero => rfl
  | succ n ih => simp [writeOut, ih]

/-- As a hash function that others use. -/
def toHASH (h : ACHash31) : MultiHash.HASH where
  msgdigestlen := h.getDigestLength
  compute := h.compute
  length_compute _ := length_writeOut _ _

end ACHash31

end Blockmon
