import Blockmon.Lib.BlockHash
import Mathlib.Data.Nat.Find
import Mathlib.Data.Nat.Prime.Basic

/-!
# The hash functions of the standards

MD5 as in RFC 1321, SHA-1 as in FIPS 180-1, and the four functions of FIPS 180-2. The constants of FIPS 180-2 are given by what they are:
bits of the roots of the first primes.
-/

namespace Standards

open BlockHash

/-! ## Words of a block -/

/-- The `t`-th word of a block, the first byte being the highest one. -/
def wordBE (v : Nat) (b : List UInt8) (t : Nat) : BitVec v := BitVec.ofNat v (Bytes.decode ((b.drop (v / 8 * t)).take (v / 8)).reverse)

/-- A word of a block, the lowest byte first. -/
def wordLE (v : Nat) (b : List UInt8) (t : Nat) : BitVec v := BitVec.ofNat v (Bytes.decode ((b.drop (v / 8 * t)).take (v / 8)))

/-- The bytes of a word, the highest first. -/
def bytesBE {v : Nat} (x : BitVec v) : List UInt8 := (Bytes.encode (v / 8) x.toNat).reverse

/-- The bytes of a word, the lowest first. -/
def bytesLE {v : Nat} (x : BitVec v) : List UInt8 := Bytes.encode (v / 8) x.toNat

/-! ## MD5 -/

/-- Four words. -/
structure Quad (v : Nat) where
  a : BitVec v
  b : BitVec v
  c : BitVec v
  d : BitVec v

namespace Quad

variable {v : Nat}

/-- The sums of the words. -/
def add (s t : Quad v) : Quad v := ⟨s.a + t.a, s.b + t.b, s.c + t.c, s.d + t.d⟩

/-- The words in their order. -/
def toList (s : Quad v) : List (BitVec v) := [s.a, s.b, s.c, s.d]

end Quad

namespace Md5

/-- The functions F, G, H and I. -/
def f (i : Nat) (x y z : BitVec 32) : BitVec 32 :=
  if i < 16 then (x &&& y) ||| (~~~x &&& z)
  else if i < 32 then (x &&& z) ||| (y &&& ~~~z)
  else if i < 48 then x ^^^ y ^^^ z
  else y ^^^ (x ||| ~~~z)

/-- The word that a step takes. -/
def k (i : Nat) : Nat :=
  if i < 16 then i
  else if i < 32 then (5 * i + 1) % 16
  else if i < 48 then (3 * i + 5) % 16
  else 7 * i % 16

/-- The shifts of the four rounds. -/
def s (i : Nat) : Nat :=
  ([[7, 12, 17, 22], [5, 9, 14, 20], [4, 11, 16, 23], [6, 10, 15, 21]].getD (i / 16) []).getD (i % 4) 0

/-- The table of the sines, in the order of the steps. -/
def T : List (BitVec 32) :=
  [0xD76AA478, 0xE8C7B756, 0x242070DB, 0xC1BDCEEE, 0xF57C0FAF, 0x4787C62A, 0xA8304613, 0xFD469501,
    0x698098D8, 0x8B44F7AF, 0xFFFF5BB1, 0x895CD7BE, 0x6B901122, 0xFD987193, 0xA679438E, 0x49B40821,
    0xF61E2562, 0xC040B340, 0x265E5A51, 0xE9B6C7AA, 0xD62F105D, 0x02441453, 0xD8A1E681, 0xE7D3FBC8,
    0x21E1CDE6, 0xC33707D6, 0xF4D50D87, 0x455A14ED, 0xA9E3E905, 0xFCEFA3F8, 0x676F02D9, 0x8D2A4C8A,
    0xFFFA3942, 0x8771F681, 0x6D9D6122, 0xFDE5380C, 0xA4BEEA44, 0x4BDECFA9, 0xF6BB4B60, 0xBEBFBC70,
    0x289B7EC6, 0xEAA127FA, 0xD4EF3085, 0x04881D05, 0xD9D4D039, 0xE6DB99E5, 0x1FA27CF8, 0xC4AC5665,
    0xF4292244, 0x432AFF97, 0xAB9423A7, 0xFC93A039, 0x655B59C3, 0x8F0CCC92, 0xFFEFF47D, 0x85845DD1,
    0x6FA87E4F, 0xFE2CE6E0, 0xA3014314, 0x4E0811A1, 0xF7537E82, 0xBD3AF235, 0x2AD7D2BB, 0xEB86D391]

/-- A step: the words change places, so that the next one works on the same places. -/
def step (X : Nat → BitVec 32) (q : Quad 32) (i : Nat) : Quad 32 where
  a := q.d
  b := q.b + (q.a + f i q.b q.c q.d + X (k i) + T.getD i 0).rotateLeft (s i)
  c := q.b
  d := q.c

/-- The compression of MD5. -/
def compress (h : Quad 32) (block : List UInt8) : Quad 32 := h.add ((List.range 64).foldl (step (wordLE 32 block)) h)

end Md5

/-- MD5. -/
def md5 : Scheme (Quad 32) where
  blen := 64
  blen_pos := by decide
  compress := Md5.compress
  iv := ⟨0x67452301, 0xEFCDAB89, 0x98BADCFE, 0x10325476⟩
  lengthBytes n := Bytes.encode 8 (8 * n)
  out s := (s.toList.map bytesLE).flatten

/-! ## SHA-1 -/

/-- Five words. -/
structure Quint (v : Nat) where
  a : BitVec v
  b : BitVec v
  c : BitVec v
  d : BitVec v
  e : BitVec v

namespace Quint

variable {v : Nat}

/-- The sums of the words. -/
def add (s t : Quint v) : Quint v := ⟨s.a + t.a, s.b + t.b, s.c + t.c, s.d + t.d, s.e + t.e⟩

/-- The words in their order. -/
def toList (s : Quint v) : List (BitVec v) := [s.a, s.b, s.c, s.d, s.e]

end Quint

namespace Sha1

/-- The functions of SHA-1. -/
def f (t : Nat) (x y z : BitVec 32) : BitVec 32 :=
  if t < 20 then (x &&& y) ||| (~~~x &&& z)
  else if t < 40 then x ^^^ y ^^^ z
  else if t < 60 then (x &&& y) ||| (x &&& z) ||| (y &&& z)
  else x ^^^ y ^^^ z

/-- The constants of SHA-1. -/
def K (t : Nat) : BitVec 32 :=
  if t < 20 then 0x5A827999 else if t < 40 then 0x6ED9EBA1 else if t < 60 then 0x8F1BBCDC else 0xCA62C1D6

/-- The schedule of SHA-1. -/
def W (M : Nat → BitVec 32) (t : Nat) : BitVec 32 :=
  if t < 16 then M t else (W M (t - 3) ^^^ W M (t - 8) ^^^ W M (t - 14) ^^^ W M (t - 16)).rotateLeft 1

/-- A round of SHA-1. -/
def step (M : Nat → BitVec 32) (q : Quint 32) (t : Nat) : Quint 32 where
  a := q.a.rotateLeft 5 + f t q.b q.c q.d + q.e + W M t + K t
  b := q.a
  c := q.b.rotateLeft 30
  d := q.c
  e := q.d

/-- The compression of SHA-1. -/
def compress (h : Quint 32) (block : List UInt8) : Quint 32 := h.add ((List.range 80).foldl (step (wordBE 32 block)) h)

end Sha1

/-- SHA-1. -/
def sha1 : Scheme (Quint 32) where
  blen := 64
  blen_pos := by decide
  compress := Sha1.compress
  iv := ⟨0x67452301, 0xEFCDAB89, 0x98BADCFE, 0x10325476, 0xC3D2E1F0⟩
  lengthBytes n := (Bytes.encode 8 (8 * n)).reverse
  out s := (s.toList.map bytesBE).flatten

/-! ## SHA-224, SHA-256, SHA-384 and SHA-512 -/

/-- The integer root of a number. -/
def root (k a : Nat) : Nat := Nat.findGreatest (fun r => r ^ k ≤ a) a

/-- The first `v` bits of the fractional part of a root. -/
def rootBits (k v p : Nat) : BitVec v := BitVec.ofNat v (root k (p * 2 ^ (k * v)))

/-- The first eighty primes. -/
def primes : List Nat := (List.range 410).filter fun n => Nat.Prime n

/-- A prime, by its number. -/
def prime (i : Nat) : Nat := primes.getD i 0

/-- Eight words. -/
structure Oct (v : Nat) where
  a : BitVec v
  b : BitVec v
  c : BitVec v
  d : BitVec v
  e : BitVec v
  f : BitVec v
  g : BitVec v
  h : BitVec v

namespace Oct

variable {v : Nat}

/-- The sums of the words. -/
def add (s t : Oct v) : Oct v := ⟨s.a + t.a, s.b + t.b, s.c + t.c, s.d + t.d, s.e + t.e, s.f + t.f, s.g + t.g, s.h + t.h⟩

/-- The words in their order. -/
def toList (s : Oct v) : List (BitVec v) := [s.a, s.b, s.c, s.d, s.e, s.f, s.g, s.h]

/-- Eight words from a function. -/
def ofFn (F : Nat → BitVec v) : Oct v := ⟨F 0, F 1, F 2, F 3, F 4, F 5, F 6, F 7⟩

end Oct

/-- What the functions on words of 32 and of 64 bits differ in: the rotations of the sums, with the shift of the small ones in the
last place, and the number of rounds. -/
structure Sha2 (v : Nat) where
  sum0 : Nat × Nat × Nat
  sum1 : Nat × Nat × Nat
  small0 : Nat × Nat × Nat
  small1 : Nat × Nat × Nat
  rounds : Nat

namespace Sha2

variable {v : Nat} (P : Sha2 v)

/-- Three rotations. -/
def sum (r : Nat × Nat × Nat) (x : BitVec v) : BitVec v := x.rotateRight r.1 ^^^ x.rotateRight r.2.1 ^^^ x.rotateRight r.2.2

/-- Two rotations and a shift. -/
def small (r : Nat × Nat × Nat) (x : BitVec v) : BitVec v := x.rotateRight r.1 ^^^ x.rotateRight r.2.1 ^^^ x >>> r.2.2

/-- The choice by the first word. -/
def Ch (x y z : BitVec v) : BitVec v := (x &&& y) ^^^ (~~~x &&& z)

/-- The majority. -/
def Maj (x y z : BitVec v) : BitVec v := (x &&& y) ^^^ (x &&& z) ^^^ (y &&& z)

/-- The constants: the cube roots of the primes. -/
def K (v t : Nat) : BitVec v := rootBits 3 v (prime t)

/-- The schedule of SHA-2. -/
def W (M : Nat → BitVec v) (t : Nat) : BitVec v :=
  if t < 16 then M t else small P.small1 (W M (t - 2)) + W M (t - 7) + small P.small0 (W M (t - 15)) + W M (t - 16)

/-- The first sum of a round. -/
def T1 (M : Nat → BitVec v) (q : Oct v) (t : Nat) : BitVec v := q.h + sum P.sum1 q.e + Ch q.e q.f q.g + K v t + P.W M t

/-- The second sum of a round. -/
def T2 (q : Oct v) : BitVec v := sum P.sum0 q.a + Maj q.a q.b q.c

/-- A round of SHA-2. -/
def step (M : Nat → BitVec v) (q : Oct v) (t : Nat) : Oct v where
  a := P.T1 M q t + P.T2 q
  b := q.a
  c := q.b
  d := q.c
  e := q.d + P.T1 M q t
  f := q.e
  g := q.f
  h := q.g

/-- The compression of SHA-2. -/
def compress (h : Oct v) (block : List UInt8) : Oct v := h.add ((List.range P.rounds).foldl (P.step (wordBE v block)) h)

end Sha2

/-- SHA-2 on words of 32 bits. -/
def sha2On32 : Sha2 32 where
  sum0 := (2, 13, 22)
  sum1 := (6, 11, 25)
  small0 := (7, 18, 3)
  small1 := (17, 19, 10)
  rounds := 64

/-- SHA-2 on words of 64 bits. -/
def sha2On64 : Sha2 64 where
  sum0 := (28, 34, 39)
  sum1 := (14, 18, 41)
  small0 := (1, 8, 7)
  small1 := (19, 61, 6)
  rounds := 80

/-- SHA-256. -/
def sha256 : Scheme (Oct 32) where
  blen := 64
  blen_pos := by decide
  compress := sha2On32.compress
  iv := Oct.ofFn fun i => rootBits 2 32 (prime i)
  lengthBytes n := (Bytes.encode 8 (8 * n)).reverse
  out s := (s.toList.map bytesBE).flatten

/-- Its states start with the second 32 bits of the roots of the ninth to sixteenth prime, and its digest has seven words. -/
def sha224 : Scheme (Oct 32) where
  blen := 64
  blen_pos := by decide
  compress := sha2On32.compress
  iv := Oct.ofFn fun i => (rootBits 2 64 (prime (8 + i))).setWidth 32
  lengthBytes n := (Bytes.encode 8 (8 * n)).reverse
  out s := ((s.toList.take 7).map bytesBE).flatten

/-- SHA-512. -/
def sha512 : Scheme (Oct 64) where
  blen := 128
  blen_pos := by decide
  compress := sha2On64.compress
  iv := Oct.ofFn fun i => rootBits 2 64 (prime i)
  lengthBytes n := (Bytes.encode 16 (8 * n)).reverse
  out s := (s.toList.map bytesBE).flatten

/-- Its states start with the roots of the ninth to sixteenth prime, and its digest has six words. -/
def sha384 : Scheme (Oct 64) where
  blen := 128
  blen_pos := by decide
  compress := sha2On64.compress
  iv := Oct.ofFn fun i => rootBits 2 64 (prime (8 + i))
  lengthBytes n := (Bytes.encode 16 (8 * n)).reverse
  out s := ((s.toList.take 6).map bytesBE).flatten

/-! ## Roots -/

/-- A root is the number whose power is next below. -/
theorem root_eq {k a r : Nat} (hk : 0 < k) (hle : r ^ k ≤ a) (hlt : a < (r + 1) ^ k) : root k a = r := by
  have hself : r ≤ r ^ k := Nat.le_self_pow (Nat.ne_of_gt hk) r
  refine (Nat.findGreatest_eq_iff).mpr ⟨Nat.le_trans hself hle, fun _ => hle, ?_⟩
  intro n hn _ hpow
  have hstep : (r + 1) ^ k ≤ n ^ k := Nat.pow_le_pow_left hn k
  omega

/-- Bits that a number makes with a whole part in front of it. -/
theorem rootBits_eq {k v p whole : Nat} {x : BitVec v} (hk : 0 < k) (hle : (whole * 2 ^ v + x.toNat) ^ k ≤ p * 2 ^ (k * v))
    (hlt : p * 2 ^ (k * v) < (whole * 2 ^ v + x.toNat + 1) ^ k) : rootBits k v p = x := by
  refine BitVec.eq_of_toNat_eq ?_
  rw [rootBits, root_eq hk hle hlt, BitVec.toNat_ofNat, Nat.mul_comm, Nat.mul_add_mod, Nat.mod_eq_of_lt x.isLt]

/-- The primes below 21. -/
def smallPrimes : List Nat := [2, 3, 5, 7, 11, 13, 17, 19]

/-- The small primes are below 21. -/
theorem lt_of_mem_smallPrimes : ∀ p ∈ smallPrimes, p < 21 := by
  decide

/-- They are the primes below 21. -/
theorem mem_smallPrimes : ∀ p < 21, p.Prime ↔ p ∈ smallPrimes := by
  decide

/-- A number that is no prime has a prime factor up to its square root. -/
theorem prime_iff {n : Nat} (hn : n < 21 * 21) : n.Prime ↔ 2 ≤ n ∧ ∀ p ∈ smallPrimes, p ∣ n → n = p := by
  constructor
  · intro hprime
    refine ⟨hprime.two_le, fun p hp hdvd => ?_⟩
    have hsmall : p.Prime := (mem_smallPrimes p (lt_of_mem_smallPrimes p hp)).mpr hp
    exact ((Nat.prime_dvd_prime_iff_eq hsmall hprime).mp hdvd).symm
  · rintro ⟨htwo, hnone⟩
    by_contra hnot
    have hfactor : n.minFac.Prime := Nat.minFac_prime (by omega)
    have hsq : n.minFac * n.minFac ≤ n := by
      rw [← Nat.pow_two]
      exact Nat.minFac_sq_le_self (by omega) hnot
    have hlt : n.minFac < 21 := Nat.mul_self_lt_mul_self_iff.mp (Nat.lt_of_le_of_lt hsq hn)
    have hself := hnone n.minFac ((mem_smallPrimes _ hlt).mp hfactor) (Nat.minFac_dvd n)
    exact hnot (hself ▸ hfactor)

/-- The first eighty primes, as numbers. -/
theorem primes_eq : primes =
    [2, 3, 5, 7, 11, 13, 17, 19, 23, 29, 31, 37, 41, 43, 47, 53, 59, 61, 67, 71, 73, 79, 83, 89, 97, 101, 103, 107, 109, 113, 127, 131, 137, 139,
      149, 151, 157, 163, 167, 173, 179, 181, 191, 193, 197, 199, 211, 223, 227, 229, 233, 239, 241, 251, 257, 263, 269, 271, 277, 281, 283, 293,
      307, 311, 313, 317, 331, 337, 347, 349, 353, 359, 367, 373, 379, 383, 389, 397, 401, 409] := by
  have hsmall : primes = (List.range 410).filter fun n => 2 ≤ n ∧ ∀ p ∈ smallPrimes, p ∣ n → n = p := by
    refine List.filter_congr fun n hn => ?_
    rw [decide_eq_decide]
    exact prime_iff (Nat.lt_trans (List.mem_range.mp hn) (by decide))
  rw [hsmall]
  decide

/-- Whether numbers are the first `v` bits of the fractional parts of the roots of other numbers, whose whole parts are below 8. -/
def AreRoots (k v : Nat) (ps xs : List Nat) : Prop :=
  ∀ i < xs.length, ∃ whole < 8, (whole * 2 ^ v + xs.getD i 0) ^ k ≤ ps.getD i 0 * 2 ^ (k * v) ∧
    ps.getD i 0 * 2 ^ (k * v) < (whole * 2 ^ v + xs.getD i 0 + 1) ^ k

instance decidableAreRoots (k v : Nat) (ps xs : List Nat) : Decidable (AreRoots k v ps xs) :=
  inferInstanceAs (Decidable (∀ i < xs.length, ∃ whole < 8, _))

/-- Listed roots are the ones computed. -/
theorem AreRoots.rootBits {k v : Nat} {ps xs : List Nat} (h : AreRoots k v ps xs) (hk : 0 < k) {i : Nat} (hi : i < xs.length)
    (hx : xs.getD i 0 < 2 ^ v) : rootBits k v (ps.getD i 0) = BitVec.ofNat v (xs.getD i 0) := by
  obtain ⟨whole, _, hle, hlt⟩ := h i hi
  have hto : (BitVec.ofNat v (xs.getD i 0)).toNat = xs.getD i 0 := by
    rw [BitVec.toNat_ofNat, Nat.mod_eq_of_lt hx]
  rw [← hto] at hle hlt
  exact rootBits_eq hk hle hlt

end Standards
