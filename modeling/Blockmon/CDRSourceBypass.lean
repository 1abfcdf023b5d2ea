import Blockmon.Lib.CStrings
import Mathlib.Data.UInt

/-!
# Call records (`usr/app_bypass/blocks/CDRSourceBypass.cpp`)

The block reads lines with fields between separators and sends the tags of a line. The arrays of the block and the one for the offsets are memory of
their own: an access outside of an array is a fault, as is the use of an offset that has not been written for the line. An `int` of the time that
overflows is a fault of another kind. What a member holds at first is not known, so it is part of the state from the start. The handles of the tags
and the times of the report are left out.
-/

namespace Blockmon

open CStrings (suffix str strncpy strcat strstr)

/-- What goes wrong in memory, and `atoi` on a number that is no `int` -/
inductive CDRFault where
  | outOfBounds
  | unwritten
  | overflow
deriving DecidableEq

namespace CDRSource

/-- `SIZE_MSG` -/
abbrev SIZE_MSG : Nat := 256

/-- `SIZE_CID` -/
abbrev SIZE_CID : Nat := 128

/-- The tags of `m_fields`. -/
inductive Tag where
  | srcId
  | dstId
  | srcDst
  | fail
  | out
  | call
  | timestamp
deriving DecidableEq

/-- `m_fields` and `m_tag_vector` -/
def fields : List Tag := [.srcId, .dstId, .srcDst, .fail, .out, .call, .timestamp]

/-- The value of a tag: an `int` or a text of fixed size. -/
inductive TagValue where
  | int (v : Int)
  | array (v : List.Vector UInt8 SIZE_CID)

/-- A message, with the tag `line` and those of `m_fields`. -/
structure PairMsg where
  line : List.Vector UInt8 SIZE_CID
  tags : List (Tag × TagValue)

/-- `'|'` -/
def separator : UInt8 := 0x7c

/-- `':'` -/
def colon : UInt8 := 0x3a

/-- `"SMS0"` -/
def SMS0 : List UInt8 := [0x53, 0x4d, 0x53, 0x30]

/-- `"1"` -/
def one : List UInt8 := [0x31]

end CDRSource

open CDRSource

/-- The buffers of the block and its counters. -/
structure CDRSource where
  mesg : List.Vector UInt8 SIZE_MSG
  line : List.Vector UInt8 SIZE_CID
  callS : List.Vector UInt8 SIZE_CID
  callD : List.Vector UInt8 SIZE_CID
  callId : List.Vector UInt8 SIZE_CID
  timestamp : List.Vector UInt8 SIZE_CID
  msgRecv : Nat
  msgSent : Nat

namespace CDRSource

/-- What is none outside of an array. -/
def inside {α : Type} : Option α → Except CDRFault α
  | some a => .ok a
  | none => .error .outOfBounds

/-! ## The separators -/

/-- The loop over a line from the position `i` on, which ends at the first zero. -/
def separators : {n : Nat} → Nat → List.Vector UInt8 n → List Nat → Except CDRFault (List.Vector UInt8 n × List Nat)
  | 0, _, _, _ => .error .outOfBounds
  | _ + 1, i, mesg, offset =>
    if mesg.head = 0 then .ok (mesg, offset)
    else if mesg.head = separator then
      if offset.length < 9 then do
        let (rest, offset) ← separators (i + 1) mesg.tail (offset ++ [i])
        return (0 ::ᵥ rest, offset)
      else .error .outOfBounds
    else do
      let (rest, offset) ← separators (i + 1) mesg.tail offset
      return (mesg.head ::ᵥ rest, offset)

/-- `offset[k]` -/
def offsetAt (offset : List Nat) (k : Nat) : Except CDRFault Int :=
  match offset[k]? with
  | some i => .ok i
  | none => .error .unwritten

/-! ## The time of a record -/

/-- The value of an expression of type `int`. -/
def int (v : Int) : Except CDRFault Int := if -2 ^ 31 ≤ v ∧ v < 2 ^ 31 then .ok v else .error .overflow

/-- The digits that `atoi` reads, up to the first other character. -/
def digits (v : Int) : List UInt8 → Int
  | [] => v
  | c :: s => if 0x30 ≤ c ∧ c ≤ 0x39 then digits (v * 10 + (c - 0x30).toNat) s else v

/-- `atoi`: blanks, a sign and digits. -/
def atoi (s : List UInt8) : Except CDRFault Int :=
  match s.dropWhile fun c => c = 0x20 ∨ (0x09 ≤ c ∧ c ≤ 0x0d) with
  | 0x2d :: s => int (-digits 0 s)
  | 0x2b :: s => int (digits 0 s)
  | s => int (digits 0 s)

/-- The loop over `keylist`, with the number `u` of the key and the seconds so far. -/
def seconds (u : Nat) (sec : Int) : List (List UInt8) → Except CDRFault Int
  | [] => .ok sec
  | str1 :: keylist => do
    let h ← atoi str1
    match u with
    | 0 => seconds 1 (← int (sec + (← int (h * 3600)))) keylist
    | 1 => seconds 2 (← int (sec + (← int (h * 60)))) keylist
    | 2 => seconds 3 (← int (sec + h)) keylist
    | _ => return sec

/-! ## The tags -/

/-- `strstr(mesg+offset[6]+1,"SMS0") != NULL` -/
def isSms (b : CDRSource) (offset : List Nat) : Except CDRFault Bool := do
  inside (strstr (← inside (suffix b.mesg.toList ((← offsetAt offset 6) + 1))) SMS0)

/-- The block after a tag, and what is added to the message. -/
def composeTag (b : CDRSource) (offset : List Nat) : Tag → Except CDRFault (CDRSource × List (Tag × TagValue))
  | .timestamp => do
    let timestamp ← inside (strncpy b.timestamp (← inside (suffix b.mesg.toList ((← offsetAt offset 7) - 8))) 8)
    let min ← inside (str timestamp.toList)
    let sec ← seconds 0 0 (min.splitOn colon)
    return ({ b with timestamp := timestamp }, [(.timestamp, .int sec)])
  | .fail => do
    let fail := if (← offsetAt offset 8) - (← offsetAt offset 7) > 2 then 0 else 1
    return (b, [(.fail, .int fail)])
  | .srcId => do
    let position ← if ← b.isSms offset then offsetAt offset 0 else offsetAt offset 1
    let callS ← inside (strncpy b.callS (← inside (suffix b.mesg.toList (position - 10))) SIZE_CID)
    return ({ b with callS := callS }, [(.srcId, .array callS)])
  | .dstId => do
    if ← b.isSms offset then return (b, [])
    else
      let callD ← inside (strncpy b.callD (← inside (suffix b.mesg.toList ((← offsetAt offset 3) - 10))) SIZE_CID)
      return ({ b with callD := callD }, [(.dstId, .array callD)])
  | .out => do
    let out := if ← inside (strstr (← inside (suffix b.mesg.toList ((← offsetAt offset 4) - 1))) one) then 0 else 1
    return (b, [(.out, .int out)])
  | .call => do
    let call := if ← b.isSms offset then 0 else 1
    return (b, [(.call, .int call)])
  | .srcDst => do
    let callId ← inside (strncpy b.callId b.callS.toList SIZE_CID)
    let callId ← inside (strcat callId [separator, 0])
    let callId ← inside (strcat callId b.callD.toList)
    return ({ b with callId := callId }, [(.srcDst, .array callId)])

/-- The loop over the tags. -/
def composeTags (offset : List Nat) : List Tag → CDRSource × List (Tag × TagValue) → Except CDRFault (CDRSource × List (Tag × TagValue))
  | [], r => .ok r
  | tag :: tags, (b, done) => do
    let (b, new) ← b.composeTag offset tag
    composeTags offset tags (b, done ++ new)

/-! ## A line -/

/-- What `getline` stores of a line. -/
def getline (stored : List UInt8) (mesg : List.Vector UInt8 SIZE_MSG) : List.Vector UInt8 SIZE_MSG :=
  ⟨stored.take (SIZE_MSG - 1) ++ 0 :: mesg.toList.drop ((stored.take (SIZE_MSG - 1)).length + 1), by simp [SIZE_MSG]; omega⟩

/-- The body of the loop after the line with the headers. -/
def parseLine (b : CDRSource) : Except CDRFault (CDRSource × PairMsg) := do
  let line ← inside (strncpy b.line b.mesg.toList SIZE_CID)
  let (mesg, offset) ← separators 0 b.mesg []
  let (b, tags) ← composeTags offset fields ({ b with line := line, mesg := mesg }, [])
  return ({ b with msgSent := b.msgSent + 1 }, { line := line, tags := tags })

/-- A line, and the messages that are sent for it. -/
def doLine (b : CDRSource) (stored : List UInt8) : Except CDRFault (CDRSource × List PairMsg) := do
  let b := { b with mesg := getline stored b.mesg, msgRecv := b.msgRecv + 1 }
  if b.msgRecv ≠ 1 then
    let (b, m) ← b.parseLine
    return (b, [m])
  else return (b, [])

/-- The loop over the lines. -/
def doLines : List (List UInt8) → CDRSource → Except CDRFault (CDRSource × List PairMsg)
  | [], b => .ok (b, [])
  | stored :: lines, b => do
    let (b, sent) ← b.doLine stored
    let (b, rest) ← doLines lines b
    return (b, sent ++ rest)

/-- What the calls of `getline` read. A line that has no room sets the failbit, and from then on the calls store an empty line without coming
to the end of the file; the loop does not get past the first of these (`not_safe_long`). -/
def readLines : List (List UInt8) → List (List UInt8)
  | [] => []
  | line :: lines => line :: if line.length < SIZE_MSG then readLines lines else [[]]

/-- `_do_async`, with the lines of the file that do not end with it. -/
def doAsync (lines : List (List UInt8)) (b : CDRSource) : Except CDRFault (CDRSource × List PairMsg) := doLines (readLines lines) b

end CDRSource

end Blockmon
