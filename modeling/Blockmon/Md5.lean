import Blockmon.HashCode
import Blockmon.Lib.Standards

/-!
# MD5 (`lib/hash/C/md5.c`)

The lines of `md5_process` are numbered from zero, and every four of them go once around the registers.
-/

namespace Blockmon.Hash

open Standards (Quad)

namespace Md5

/-- The macro `S`: rotation of the low 32 bits. -/
def S (x : BitVec 64) (n : Nat) : BitVec 64 := x <<< n ||| (x &&& 0xFFFFFFFF) >>> (32 - n)

/-- The four definitions of the macro `F`. -/
def F (i : Nat) (x y z : BitVec 64) : BitVec 64 :=
  if i < 16 then z ^^^ (x &&& (y ^^^ z))
  else if i < 32 then y ^^^ (z &&& (x ^^^ y))
  else if i < 48 then x ^^^ y ^^^ z
  else y ^^^ (x ||| ~~~z)

/-- The last three arguments of the macro `P` in each line. -/
def lines : List (Nat × Nat × BitVec 64) :=
  [(0, 7, 0xD76AA478), (1, 12, 0xE8C7B756), (2, 17, 0x242070DB), (3, 22, 0xC1BDCEEE),
    (4, 7, 0xF57C0FAF), (5, 12, 0x4787C62A), (6, 17, 0xA8304613), (7, 22, 0xFD469501),
    (8, 7, 0x698098D8), (9, 12, 0x8B44F7AF), (10, 17, 0xFFFF5BB1), (11, 22, 0x895CD7BE),
    (12, 7, 0x6B901122), (13, 12, 0xFD987193), (14, 17, 0xA679438E), (15, 22, 0x49B40821),
    (1, 5, 0xF61E2562), (6, 9, 0xC040B340), (11, 14, 0x265E5A51), (0, 20, 0xE9B6C7AA),
    (5, 5, 0xD62F105D), (10, 9, 0x02441453), (15, 14, 0xD8A1E681), (4, 20, 0xE7D3FBC8),
    (9, 5, 0x21E1CDE6), (14, 9, 0xC33707D6), (3, 14, 0xF4D50D87), (8, 20, 0x455A14ED),
    (13, 5, 0xA9E3E905), (2, 9, 0xFCEFA3F8), (7, 14, 0x676F02D9), (12, 20, 0x8D2A4C8A),
    (5, 4, 0xFFFA3942), (8, 11, 0x8771F681), (11, 16, 0x6D9D6122), (14, 23, 0xFDE5380C),
    (1, 4, 0xA4BEEA44), (4, 11, 0x4BDECFA9), (7, 16, 0xF6BB4B60), (10, 23, 0xBEBFBC70),
    (13, 4, 0x289B7EC6), (0, 11, 0xEAA127FA), (3, 16, 0xD4EF3085), (6, 23, 0x04881D05),
    (9, 4, 0xD9D4D039), (12, 11, 0xE6DB99E5), (15, 16, 0x1FA27CF8), (2, 23, 0xC4AC5665),
    (0, 6, 0xF4292244), (7, 10, 0x432AFF97), (14, 15, 0xAB9423A7), (5, 21, 0xFC93A039),
    (12, 6, 0x655B59C3), (3, 10, 0x8F0CCC92), (10, 15, 0xFFEFF47D), (1, 21, 0x85845DD1),
    (8, 6, 0x6FA87E4F), (15, 10, 0xFE2CE6E0), (6, 15, 0xA3014314), (13, 21, 0x4E0811A1),
    (4, 6, 0xF7537E82), (11, 10, 0xBD3AF235), (2, 15, 0x2AD7D2BB), (9, 21, 0xEB86D391)]

/-- The macro `P` in the line `i`: the new value of its first register. -/
def P (X : Nat → BitVec 64) (i : Nat) (a b c d : BitVec 64) : BitVec 64 :=
  let (k, s, t) := lines.getD i (0, 0, 0)
  let a := a + (F i b c d + X k + t)
  S a s + b

/-- Four lines, from the line `i` on. -/
def fourLines (X : Nat → BitVec 64) (q : Quad 64) (i : Nat) : Quad 64 :=
  let A := P X i q.a q.b q.c q.d
  let D := P X (i + 1) q.d A q.b q.c
  let C := P X (i + 2) q.c D A q.b
  let B := P X (i + 3) q.b C D A
  ⟨A, B, C, D⟩

end Md5

/-- `md5_process` -/
def md5Process (state : Quad 64) (data : List UInt8) : Quad 64 :=
  let X := fun i => getUlongLE data (4 * i)
  state.add ((List.range 16).foldl (fun q n => Md5.fourLines X q (4 * n)) state)

/-- MD5 as the context of md5.c has it. -/
def md5 : Design (Quad 64) where
  toSizes := sizes32
  starts := ⟨0x67452301, 0xEFCDAB89, 0x98BADCFE, 0x10325476⟩
  process := md5Process
  msglen high low := putUlongLE low ++ putUlongLE high
  output state := putUlongLE state.a ++ putUlongLE state.b ++ putUlongLE state.c ++ putUlongLE state.d
  length_msglen _ _ := rfl
  length_output _ := show 16 ≤ 64 by decide

end Blockmon.Hash
