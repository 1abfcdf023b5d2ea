import Blockmon.HashCode
import Blockmon.Lib.Standards

/-!
# SHA-1 (`lib/hash/C/sha1.c`)

The rounds of `sha1_process` are numbered from zero, and every five of them go once around the registers. The words of the
schedule, of which only the last sixteen are kept, do not depend on the registers; the model makes them first.
-/

namespace Blockmon.Hash

open Standards (Quint)

namespace Sha1

/-- The macro `S`: rotation of the low 32 bits. -/
def S (x : BitVec 64) (n : Nat) : BitVec 64 := x <<< n ||| (x &&& 0xFFFFFFFF) >>> (32 - n)

/-- The four definitions of the macro `F`. -/
def F (t : Nat) (x y z : BitVec 64) : BitVec 64 :=
  if t < 20 then z ^^^ (x &&& (y ^^^ z))
  else if t < 40 then x ^^^ y ^^^ z
  else if t < 60 then (x &&& y) ||| (z &&& (x ||| y))
  else x ^^^ y ^^^ z

/-- The four definitions of the macro `K`. -/
def K (t : Nat) : BitVec 64 :=
  if t < 20 then 0x5A827999 else if t < 40 then 0x6ED9EBA1 else if t < 60 then 0x8F1BBCDC else 0xCA62C1D6

/-- The array `W` before the round `t`. -/
abbrev Ring := Vector (BitVec 64) 16

/-- `W[t & 0x0F]` -/
def Ring.at (W : Ring) (t : Nat) : BitVec 64 := W[t % 16]

/-- The macro `R`: the array with its new word at the place of the oldest one. -/
def Ring.R (W : Ring) (t : Nat) : Ring :=
  let temp := W.at (t - 3) ^^^ W.at (t - 8) ^^^ W.at (t - 14) ^^^ W.at t
  W.set (t % 16) (S temp 1)

/-- The array when the round `t` reads it. -/
def ring (data : List UInt8) : Nat → Ring
  | 0 => Vector.ofFn fun i => getUlongBE data (4 * i.val)
  | t + 1 => if t + 1 < 16 then ring data t else (ring data t).R (t + 1)

/-- The macro `P` in the round `t`: the new values of its fifth and its second register. -/
def P (x : Nat → BitVec 64) (t : Nat) (a b c d e : BitVec 64) : BitVec 64 × BitVec 64 := (e + (S a 5 + F t b c d + K t + x t), S b 30)

/-- Five rounds, from the round `t` on. -/
def fiveRounds (x : Nat → BitVec 64) (q : Quint 64) (t : Nat) : Quint 64 :=
  let (E, B) := P x t q.a q.b q.c q.d q.e
  let (D, A) := P x (t + 1) E q.a B q.c q.d
  let (C, E) := P x (t + 2) D E A B q.c
  let (B, D) := P x (t + 3) C D E A B
  let (A, C) := P x (t + 4) B C D E A
  ⟨A, B, C, D, E⟩

end Sha1

/-- `sha1_process` -/
def sha1Process (state : Quint 64) (data : List UInt8) : Quint 64 :=
  let x := fun t => (Sha1.ring data t).at t
  state.add ((List.range 16).foldl (fun q n => Sha1.fiveRounds x q (5 * n)) state)

/-- SHA-1 as the context of sha1.c has it. -/
def sha1 : Design (Quint 64) where
  toSizes := sizes32
  starts := ⟨0x67452301, 0xEFCDAB89, 0x98BADCFE, 0x10325476, 0xC3D2E1F0⟩
  process := sha1Process
  msglen := msglenBE
  output state := putUlongBE state.a ++ putUlongBE state.b ++ putUlongBE state.c ++ putUlongBE state.d ++ putUlongBE state.e
  length_msglen := length_msglenBE
  length_output _ := show 20 ≤ 64 by decide

end Blockmon.Hash
