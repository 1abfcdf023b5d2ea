import Blockmon.HashCode
import Blockmon.Lib.Standards

/-!
# SHA-224, SHA-256, SHA-384 and SHA-512 (`lib/hash/C/sha2.c`, `lib/hash/C/sha4.c`)

The rounds are numbered from zero, and every eight of them go once around the registers. Both files have the same macros, but for `SHR`,
`ROTR`, the rotations and the constants. The words of the schedule do not depend on the registers; the model makes them first, as
`sha4_process` does.
-/

namespace Blockmon.Hash

open Standards (Oct)

namespace Sha2

/-- The macros that the two files define differently. -/
structure Macros where
  S0 : BitVec 64 → BitVec 64
  S1 : BitVec 64 → BitVec 64
  S2 : BitVec 64 → BitVec 64
  S3 : BitVec 64 → BitVec 64

/-- The macro `F0`, the majority. -/
def F0 (x y z : BitVec 64) : BitVec 64 := (x &&& y) ||| (z &&& (x ||| y))

/-- The macro `F1`, the choice. -/
def F1 (x y z : BitVec 64) : BitVec 64 := z ^^^ (x &&& (y ^^^ z))

namespace Macros

variable (m : Macros)

/-- The array `W` with one more word, which is the word of the round `W.length`. -/
def extend (W : List (BitVec 64)) : List (BitVec 64) :=
  let word := fun i => W.getD i 0
  let t := W.length
  W ++ [m.S1 (word (t - 2)) + word (t - 7) + m.S0 (word (t - 15)) + word (t - 16)]

/-- The array `W` after `n` more words. -/
def schedule (W : List (BitVec 64)) : Nat → List (BitVec 64)
  | 0 => W
  | n + 1 => m.extend (schedule W n)

/-- The macro `P`: the new values of its fourth and its eighth register. -/
def P (a b c d e f g h x K : BitVec 64) : BitVec 64 × BitVec 64 :=
  let temp1 := h + m.S3 e + F1 e f g + K + x
  let temp2 := m.S2 a + F0 a b c
  (d + temp1, temp1 + temp2)

/-- Eight rounds, from the round `t` on. -/
def eightRounds (K W : List (BitVec 64)) (q : Oct 64) (t : Nat) : Oct 64 :=
  let x := fun i => W.getD i 0
  let k := fun i => K.getD i 0
  let (D, H) := m.P q.a q.b q.c q.d q.e q.f q.g q.h (x t) (k t)
  let (C, G) := m.P H q.a q.b q.c D q.e q.f q.g (x (t + 1)) (k (t + 1))
  let (B, F) := m.P G H q.a q.b C D q.e q.f (x (t + 2)) (k (t + 2))
  let (A, E) := m.P F G H q.a B C D q.e (x (t + 3)) (k (t + 3))
  let (H, D) := m.P E F G H A B C D (x (t + 4)) (k (t + 4))
  let (G, C) := m.P D E F G H A B C (x (t + 5)) (k (t + 5))
  let (F, B) := m.P C D E F G H A B (x (t + 6)) (k (t + 6))
  let (E, A) := m.P B C D E F G H A (x (t + 7)) (k (t + 7))
  ⟨A, B, C, D, E, F, G, H⟩

/-- `..._process`, for the words of a block and a number of rounds that is eight times `n`. -/
def process (K : List (BitVec 64)) (n : Nat) (words : List (BitVec 64)) (state : Oct 64) : Oct 64 :=
  let W := m.schedule words (8 * n - 16)
  state.add ((List.range n).foldl (fun q i => m.eightRounds K W q (8 * i)) state)

end Macros

end Sha2

/-! ## `sha2.c` -/

namespace Sha2

/-- The macro `SHR`: the mask keeps the word of 32 bits. -/
def SHR (x : BitVec 64) (n : Nat) : BitVec 64 := (x &&& 0xFFFFFFFF) >>> n

/-- The macro `ROTR` on 32 bits. -/
def ROTR (x : BitVec 64) (n : Nat) : BitVec 64 := SHR x n ||| x <<< (32 - n)

/-- The macros `S0` to `S3` of sha2.c. -/
def macros : Macros where
  S0 x := ROTR x 7 ^^^ ROTR x 18 ^^^ SHR x 3
  S1 x := ROTR x 17 ^^^ ROTR x 19 ^^^ SHR x 10
  S2 x := ROTR x 2 ^^^ ROTR x 13 ^^^ ROTR x 22
  S3 x := ROTR x 6 ^^^ ROTR x 11 ^^^ ROTR x 25

/-- The last argument of the macro `P` in each line. -/
def K : List (BitVec 64) :=
  [0x428A2F98, 0x71374491, 0xB5C0FBCF, 0xE9B5DBA5, 0x3956C25B, 0x59F111F1, 0x923F82A4, 0xAB1C5ED5,
    0xD807AA98, 0x12835B01, 0x243185BE, 0x550C7DC3, 0x72BE5D74, 0x80DEB1FE, 0x9BDC06A7, 0xC19BF174,
    0xE49B69C1, 0xEFBE4786, 0x0FC19DC6, 0x240CA1CC, 0x2DE92C6F, 0x4A7484AA, 0x5CB0A9DC, 0x76F988DA,
    0x983E5152, 0xA831C66D, 0xB00327C8, 0xBF597FC7, 0xC6E00BF3, 0xD5A79147, 0x06CA6351, 0x14292967,
    0x27B70A85, 0x2E1B2138, 0x4D2C6DFC, 0x53380D13, 0x650A7354, 0x766A0ABB, 0x81C2C92E, 0x92722C85,
    0xA2BFE8A1, 0xA81A664B, 0xC24B8B70, 0xC76C51A3, 0xD192E819, 0xD6990624, 0xF40E3585, 0x106AA070,
    0x19A4C116, 0x1E376C08, 0x2748774C, 0x34B0BCB5, 0x391C0CB3, 0x4ED8AA4A, 0x5B9CCA4F, 0x682E6FF3,
    0x748F82EE, 0x78A5636F, 0x84C87814, 0x8CC70208, 0x90BEFFFA, 0xA4506CEB, 0xBEF9A3F7, 0xC67178F2]

end Sha2

/-- `sha2_starts` -/
def sha2Starts (is224 : Bool) : Oct 64 :=
  if is224 then ⟨0xC1059ED8, 0x367CD507, 0x3070DD17, 0xF70E5939, 0xFFC00B31, 0x68581511, 0x64F98FA7, 0xBEFA4FA4⟩
  else ⟨0x6A09E667, 0xBB67AE85, 0x3C6EF372, 0xA54FF53A, 0x510E527F, 0x9B05688C, 0x1F83D9AB, 0x5BE0CD19⟩

/-- `sha2_process`: one block of 64 bytes. -/
def sha2Process (state : Oct 64) (data : List UInt8) : Oct 64 :=
  Sha2.macros.process Sha2.K 8 ((List.range 16).map fun i => getUlongBE data (4 * i)) state

/-- The last word is left out for SHA-224. -/
def sha2Output (is224 : Bool) (state : Oct 64) : List UInt8 :=
  putUlongBE state.a ++ putUlongBE state.b ++ putUlongBE state.c ++ putUlongBE state.d ++ putUlongBE state.e ++ putUlongBE state.f ++
    putUlongBE state.g ++ if is224 then [] else putUlongBE state.h

/-- `sha2.c`; the member `is224` of a context is the argument, since nothing but `sha2_starts` writes it. -/
def sha2 (is224 : Bool) : Design (Oct 64) where
  toSizes := sizes32
  starts := sha2Starts is224
  process := sha2Process
  msglen := msglenBE
  output := sha2Output is224
  length_msglen := length_msglenBE
  length_output _ := by
    cases is224
    · exact show 32 ≤ 64 by decide
    · exact show 28 ≤ 64 by decide

/-! ## `sha4.c` -/

namespace Sha4

/-- The macro `SHR` of sha4.c. -/
def SHR (x : BitVec 64) (n : Nat) : BitVec 64 := x >>> n

/-- The macro `ROTR` on 64 bits. -/
def ROTR (x : BitVec 64) (n : Nat) : BitVec 64 := SHR x n ||| x <<< (64 - n)

/-- The macros `S0` to `S3` of sha4.c. -/
def macros : Sha2.Macros where
  S0 x := ROTR x 1 ^^^ ROTR x 8 ^^^ SHR x 7
  S1 x := ROTR x 19 ^^^ ROTR x 61 ^^^ SHR x 6
  S2 x := ROTR x 28 ^^^ ROTR x 34 ^^^ ROTR x 39
  S3 x := ROTR x 14 ^^^ ROTR x 18 ^^^ ROTR x 41

/-- The table `K` of sha4.c. -/
def K : List (BitVec 64) :=
  [0x428A2F98D728AE22, 0x7137449123EF65CD, 0xB5C0FBCFEC4D3B2F, 0xE9B5DBA58189DBBC,
    0x3956C25BF348B538, 0x59F111F1B605D019, 0x923F82A4AF194F9B, 0xAB1C5ED5DA6D8118,
    0xD807AA98A3030242, 0x12835B0145706FBE, 0x243185BE4EE4B28C, 0x550C7DC3D5FFB4E2,
    0x72BE5D74F27B896F, 0x80DEB1FE3B1696B1, 0x9BDC06A725C71235, 0xC19BF174CF692694,
    0xE49B69C19EF14AD2, 0xEFBE4786384F25E3, 0x0FC19DC68B8CD5B5, 0x240CA1CC77AC9C65,
    0x2DE92C6F592B0275, 0x4A7484AA6EA6E483, 0x5CB0A9DCBD41FBD4, 0x76F988DA831153B5,
    0x983E5152EE66DFAB, 0xA831C66D2DB43210, 0xB00327C898FB213F, 0xBF597FC7BEEF0EE4,
    0xC6E00BF33DA88FC2, 0xD5A79147930AA725, 0x06CA6351E003826F, 0x142929670A0E6E70,
    0x27B70A8546D22FFC, 0x2E1B21385C26C926, 0x4D2C6DFC5AC42AED, 0x53380D139D95B3DF,
    0x650A73548BAF63DE, 0x766A0ABB3C77B2A8, 0x81C2C92E47EDAEE6, 0x92722C851482353B,
    0xA2BFE8A14CF10364, 0xA81A664BBC423001, 0xC24B8B70D0F89791, 0xC76C51A30654BE30,
    0xD192E819D6EF5218, 0xD69906245565A910, 0xF40E35855771202A, 0x106AA07032BBD1B8,
    0x19A4C116B8D2D0C8, 0x1E376C085141AB53, 0x2748774CDF8EEB99, 0x34B0BCB5E19B48A8,
    0x391C0CB3C5C95A63, 0x4ED8AA4AE3418ACB, 0x5B9CCA4F7763E373, 0x682E6FF3D6B2B8A3,
    0x748F82EE5DEFB2FC, 0x78A5636F43172F60, 0x84C87814A1F0AB72, 0x8CC702081A6439EC,
    0x90BEFFFA23631E28, 0xA4506CEBDE82BDE9, 0xBEF9A3F7B2C67915, 0xC67178F2E372532B,
    0xCA273ECEEA26619C, 0xD186B8C721C0C207, 0xEADA7DD6CDE0EB1E, 0xF57D4F7FEE6ED178,
    0x06F067AA72176FBA, 0x0A637DC5A2C898A6, 0x113F9804BEF90DAE, 0x1B710B35131C471B,
    0x28DB77F523047D84, 0x32CAAB7B40C72493, 0x3C9EBE0A15C9BEBC, 0x431D67C49C100D4C,
    0x4CC5D4BECB3E42B6, 0x597F299CFC657E2A, 0x5FCB6FAB3AD6FAEC, 0x6C44198C4A475817]

end Sha4

/-- `sha4_starts` -/
def sha4Starts (is384 : Bool) : Oct 64 :=
  if is384 then
    ⟨0xCBBB9D5DC1059ED8, 0x629A292A367CD507, 0x9159015A3070DD17, 0x152FECD8F70E5939,
      0x67332667FFC00B31, 0x8EB44A8768581511, 0xDB0C2E0D64F98FA7, 0x47B5481DBEFA4FA4⟩
  else
    ⟨0x6A09E667F3BCC908, 0xBB67AE8584CAA73B, 0x3C6EF372FE94F82B, 0xA54FF53A5F1D36F1,
      0x510E527FADE682D1, 0x9B05688C2B3E6C1F, 0x1F83D9ABFB41BD6B, 0x5BE0CD19137E2179⟩

/-- `sha4_process`: one block of 128 bytes. -/
def sha4Process (state : Oct 64) (data : List UInt8) : Oct 64 :=
  Sha4.macros.process Sha4.K 10 ((List.range 16).map fun i => getUint64BE data (8 * i)) state

/-- The last two words are left out for SHA-384. -/
def sha4Output (is384 : Bool) (state : Oct 64) : List UInt8 :=
  putUint64BE state.a ++ putUint64BE state.b ++ putUint64BE state.c ++ putUint64BE state.d ++ putUint64BE state.e ++ putUint64BE state.f ++
    if is384 then [] else putUint64BE state.g ++ putUint64BE state.h

/-- `sha4.c`; as in `sha2.c`, but the counter has 64 bits. -/
def sha4 (is384 : Bool) : Design (Oct 64) where
  toSizes := sizes64
  starts := sha4Starts is384
  process := sha4Process
  msglen high low := putUint64BE high ++ putUint64BE low
  output := sha4Output is384
  length_msglen _ _ := rfl
  length_output _ := by
    cases is384
    · exact show 64 ≤ 128 by decide
    · exact show 48 ≤ 128 by decide

end Blockmon.Hash
