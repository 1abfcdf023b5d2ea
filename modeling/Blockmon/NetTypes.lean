import Mathlib.Algebra.Order.Ring.Int
import Mathlib.Data.Rat.Floor
import Blockmon.PacketFilter

/-!
# Times (`messages/NetTypes.hpp`, `messages/NetTypes.cpp`)

A `double` is a rational number, and its conversion to an integer type that does not hold the result is a fault. `long` and `time_t` have 64
bits.
-/

namespace Blockmon.NetTypes

/-- A conversion of a `double` may overflow. -/
inductive Fault where
  | overflow
deriving DecidableEq

/-- `timespec` -/
structure Timespec where
  tv_sec : Int64
  tv_nsec : Int64

/-- `ntptime` -/
structure Ntptime where
  sec : UInt32
  frac : UInt32

/-- `k10_3` -/
def k10_3 : UInt64 := 1000
/-- `k10_6` -/
def k10_6 : UInt64 := 1000000
/-- `k10_9` -/
def k10_9 : UInt64 := 1000000000
/-- `k2_32` -/
def k2_32 : UInt64 := (2 : UInt64) <<< 32

/-- `static_cast<double>` -/
def toDouble (x : UInt64) : ℚ := x.toNat

/-- `static_cast<uint32_t>`; the digits behind the point are dropped. -/
def toUInt32 (x : ℚ) : Except Fault UInt32 :=
  let n := if 0 ≤ x then ⌊x⌋ else ⌈x⌉
  if 0 ≤ n ∧ n < 2 ^ 32 then .ok (UInt32.ofNat n.toNat) else .error .overflow

/-- `timespec_to_us` -/
def timespecToUs (ts : Timespec) : UInt64 := ts.tv_sec.toUInt64 * k10_6 + ts.tv_nsec.toUInt64 / k10_3

/-- `us_to_timespec` -/
def usToTimespec (us : UInt64) : Timespec where
  tv_sec := (us / k10_6).toInt64
  tv_nsec := ((us % k10_6) * k10_3).toInt64

/-- `us_to_ntp` -/
def usToNtp (us : UInt64) : Except Fault Ntptime := do
  let sec := (us / k10_6).toUInt32
  let frac ← toUInt32 (toDouble (us % k10_6) / toDouble k10_6 * toDouble k2_32)
  return { sec, frac }

/-- `timespec_to_ntp` -/
def timespecToNtp (ts : Timespec) : Except Fault Ntptime := do
  let sec := ts.tv_sec.toUInt64.toUInt32
  let frac ← toUInt32 ((ts.tv_nsec.toInt : ℚ) / toDouble k10_9 * toDouble k2_32)
  return { sec, frac }

/-- `ntp_to_us` -/
def ntpToUs (nt : Ntptime) : Except Fault UInt64 := do
  let us ← toUInt32 (toDouble nt.frac.toUInt64 * toDouble k10_6 / toDouble k2_32)
  return nt.sec.toUInt64 * k10_6 + us.toUInt64

/-- `ntp_to_timespec` -/
def ntpToTimespec (nt : Ntptime) : Except Fault Timespec := do
  let tv_sec := nt.sec.toUInt64.toInt64
  let nsec ← toUInt32 (toDouble nt.frac.toUInt64 * toDouble k10_9 / toDouble k2_32)
  return { tv_sec, tv_nsec := nsec.toUInt64.toInt64 }

end Blockmon.NetTypes

/-!
## IPv4 addresses as text (`messages/NetTypes.cpp`, `messages/Packet.hpp`, `messages/TicketMsg.cpp`)

A text is a list of characters. The functions of boost are parameters. A `char` is signed, and the host stores the least significant byte first.
Writing behind the end of a buffer is a fault, as is reading behind the end of a vector.
-/

namespace Blockmon.IPText

open Blockmon.Messages (Parse)
open Blockmon.Messages.Packet (ipSrc ipDst)

/-- How a conversion of a text may stop. -/
inductive Stop where
  | badLexicalCast
  | outOfBounds
deriving DecidableEq

/-- `boost::split` at the points, and `boost::lexical_cast<uint32_t>`. -/
structure Boost where
  split : List Char → List (List Char)
  lexicalCast : List Char → Except Stop UInt32

/-- An unsigned number in a stream. -/
def decimal (n : Nat) : List Char := Nat.toDigits 10 n

/-! ## `NetTypes` -/

/-- `ipv4_to_string` -/
def ipv4ToString (ipv4 : UInt32) : List Char :=
  decimal ((ipv4 &&& 0xFF000000) >>> 24).toNat ++ ['.'] ++ decimal ((ipv4 &&& 0x00FF0000) >>> 16).toNat ++ ['.'] ++
    decimal ((ipv4 &&& 0x0000FF00) >>> 8).toNat ++ ['.'] ++ decimal (ipv4 &&& 0x000000FF).toNat

/-- An element of the vector as a number. -/
def Boost.part (B : Boost) (strvec : List (List Char)) (i : Nat) : Except Stop UInt32 :=
  match strvec[i]? with
  | none => .error .outOfBounds
  | some str => B.lexicalCast str

/-- `string_to_ipv4` -/
def stringToIpv4 (B : Boost) (str : List Char) : Except Stop UInt32 := do
  let strvec := B.split str
  let a := (← B.part strvec 0) <<< 24
  let a := a ||| (← B.part strvec 1) <<< 16
  let a := a ||| (← B.part strvec 2) <<< 8
  let a := a ||| (← B.part strvec 3)
  return a

/-! ## `Packet` -/

/-- `%d` -/
def printInt (v : Int) : List Char := if v < 0 then '-' :: decimal v.natAbs else decimal v.natAbs

/-- A `char` of the array `tmp`. -/
def toChar (v : UInt32) : Int8 := v.toUInt8.toInt8

/-- The text that `sprintf` writes into a buffer of 16 bytes, with a zero behind it. -/
def ipStr (ip : UInt32) : Except Messages.Fault (List Char) :=
  let text := printInt (toChar (ip >>> 24)).toInt ++ ['.'] ++ printInt (toChar (ip >>> 16)).toInt ++ ['.'] ++
    printInt (toChar (ip >>> 8)).toInt ++ ['.'] ++ printInt (toChar ip).toInt
  if text.length + 1 ≤ 16 then .ok text else .error .outOfBounds

/-- `ip_src_str` -/
def ipSrcStr : Parse (List Char) := do ofExcept (ipStr (← ipSrc))

/-- `ip_dst_str` -/
def ipDstStr : Parse (List Char) := do ofExcept (ipStr (← ipDst))

/-! ## `TicketMsg` -/

/-- A byte of the number in memory. -/
def tmpChar (ip : UInt32) (i : Nat) : UInt8 := (Bytes.encode 4 ip.toNat).getD i 0

/-- `ip_to_string` -/
def ipToString (ip : UInt32) : List Char :=
  decimal (tmpChar ip 3).toNat ++ ['.'] ++ decimal (tmpChar ip 2).toNat ++ ['.'] ++ decimal (tmpChar ip 1).toNat ++ ['.'] ++
    decimal (tmpChar ip 0).toNat

end Blockmon.IPText
