import Blockmon.HashCode
import Blockmon.Lib.Standards

/-!
# The class `SHA1` (`lib/bloom/sha1.h`, `lib/bloom/sha1.cpp`)

An `unsigned` has 32 bits, so that the masks with 32 ones change nothing; the model leaves them out. The block is a list of bytes, which
becomes longer if something is written behind its end. The operators `<<` and the other forms of `Input` call `Input` for an array.
-/

namespace Blockmon.Bloom

open Standards (Quint)

/-- The members of the class. -/
structure SHA1 where
  H : Quint 32
  lengthLow : BitVec 32
  lengthHigh : BitVec 32
  messageBlock : List UInt8
  messageBlockIndex : Nat
  computed : Bool
  corrupted : Bool

namespace SHA1

/-- `CircularShift` -/
def circularShift (bits : Nat) (word : BitVec 32) : BitVec 32 := word <<< bits ||| word >>> (32 - bits)

/-! ## `ProcessMessageBlock` -/

/-- The first sixteen words. -/
def firstWords (block : List UInt8) : List (BitVec 32) :=
  (List.range 16).map fun t =>
    let byte := fun i => BitVec.ofNat 32 (block.getD i 0).toNat
    byte (t * 4) <<< 24 ||| byte (t * 4 + 1) <<< 16 ||| byte (t * 4 + 2) <<< 8 ||| byte (t * 4 + 3)

/-- The array `W` after `n` more words. -/
def words (W : List (BitVec 32)) : Nat → List (BitVec 32)
  | 0 => W
  | n + 1 =>
    let W := words W n
    let word := fun i => W.getD i 0
    W ++ [circularShift 1 (word (W.length - 3) ^^^ word (W.length - 8) ^^^ word (W.length - 14) ^^^ word (W.length - 16))]

/-- The loop over twenty rounds from the round `first` on, with its function of `B`, `C` and `D`. -/
def rounds (W : List (BitVec 32)) (K : BitVec 32) (f : BitVec 32 → BitVec 32 → BitVec 32 → BitVec 32) (first : Nat) (q : Quint 32) : Quint 32 :=
  (List.range 20).foldl
    (fun q i =>
      let temp := circularShift 5 q.a + f q.b q.c q.d + q.e + W.getD (first + i) 0 + K
      { a := temp, b := q.a, c := circularShift 30 q.b, d := q.c, e := q.d }) q

/-- `ProcessMessageBlock` -/
def processMessageBlock (s : SHA1) : SHA1 :=
  let W := words (firstWords s.messageBlock) 64
  let q := rounds W 0x5A827999 (fun B C D => (B &&& C) ||| (~~~B &&& D)) 0 s.H
  let q := rounds W 0x6ED9EBA1 (fun B C D => B ^^^ C ^^^ D) 20 q
  let q := rounds W 0x8F1BBCDC (fun B C D => (B &&& C) ||| (B &&& D) ||| (C &&& D)) 40 q
  let q := rounds W 0xCA62C1D6 (fun B C D => B ^^^ C ^^^ D) 60 q
  { s with H := s.H.add q, messageBlockIndex := 0 }

/-! ## The public functions -/

/-- The constructor, on fresh memory for the block. -/
def reset (s : SHA1) : SHA1 :=
  { s with
    H := ⟨0x67452301, 0xEFCDAB89, 0x98BADCFE, 0x10325476, 0xC3D2E1F0⟩
    lengthLow := 0
    lengthHigh := 0
    messageBlockIndex := 0
    computed := false
    corrupted := false }

/-- The constructor on memory that was not written. -/
def new (memory : Nat → UInt8) : SHA1 :=
  reset ⟨⟨0, 0, 0, 0, 0⟩, 0, 0, (List.range 64).map memory, 0, false, false⟩

/-- `Message_Block[Message_Block_Index++] = b` -/
def put (s : SHA1) (b : UInt8) : SHA1 :=
  { s with messageBlock := Bytes.overwrite s.messageBlock s.messageBlockIndex [b], messageBlockIndex := s.messageBlockIndex + 1 }

/-- The length of a message with one more byte, in bits. -/
def countByte (s : SHA1) : SHA1 :=
  let lengthLow := s.lengthLow + 8
  if lengthLow = 0 then
    let lengthHigh := s.lengthHigh + 1
    { s with lengthLow := lengthLow, lengthHigh := lengthHigh, corrupted := if lengthHigh = 0 then true else s.corrupted }
  else { s with lengthLow := lengthLow }

/-- One pass of the loop of `Input`. -/
def inputByte (s : SHA1) (b : UInt8) : SHA1 :=
  let s := (s.put b).countByte
  if s.messageBlockIndex = 64 then s.processMessageBlock else s

/-- The loop of `Input`: it ends at the first byte that finds the object corrupted. -/
def inputLoop (s : SHA1) : List UInt8 → SHA1
  | [] => s
  | b :: bs => if s.corrupted then s else inputLoop (s.inputByte b) bs

/-- `Input` -/
def input (s : SHA1) (message : List UInt8) : SHA1 :=
  if message.length = 0 then s
  else if s.computed || s.corrupted then { s with corrupted := true }
  else s.inputLoop message

/-- `while(Message_Block_Index < n) Message_Block[Message_Block_Index++] = 0` -/
def fillTo (n : Nat) (s : SHA1) : SHA1 := (List.range (n - s.messageBlockIndex)).foldl (fun s _ => s.put 0) s

/-- `PadMessage` -/
def padMessage (s : SHA1) : SHA1 :=
  let s := if 55 < s.messageBlockIndex then ((s.put 0x80).fillTo 64).processMessageBlock.fillTo 56 else (s.put 0x80).fillTo 56
  let byte := fun (x : BitVec 32) n => Words.byteAt x n
  let length := [byte s.lengthHigh 24, byte s.lengthHigh 16, byte s.lengthHigh 8, byte s.lengthHigh 0,
    byte s.lengthLow 24, byte s.lengthLow 16, byte s.lengthLow 8, byte s.lengthLow 0]
  processMessageBlock { s with messageBlock := Bytes.overwrite s.messageBlock 56 length }

/-- The object it leaves, and the digest unless the result is `false`. -/
def result (s : SHA1) : SHA1 × Option (List (BitVec 32)) :=
  if s.corrupted then (s, none)
  else
    let s := if s.computed then s else { s.padMessage with computed := true }
    (s, some s.H.toList)

/-! ## Runs -/

/-- The calls of the class. -/
inductive Call where
  | reset
  | input (message : List UInt8)
  | result

/-- The results that calls of the public functions return, one after the other. -/
def run (s : SHA1) : List Call → List (Option (List (BitVec 32)))
  | [] => []
  | .reset :: calls => run s.reset calls
  | .input message :: calls => run (s.input message) calls
  | .result :: calls => s.result.2 :: run s.result.1 calls

end SHA1

end Blockmon.Bloom
