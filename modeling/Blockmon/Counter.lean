import Blockmon.Lib.Floats

/-!
# The counter block (`blocks/Counter.hpp`, `blocks/Counter.cpp`)

The constructor leaves three members as they are in memory: their first values are parameters. What a `double` holds is exact, and a time is a
number of nanoseconds.
-/

namespace Blockmon

/-- A message by what the block reads of it. -/
inductive CounterMsg where
  | flow (packets bytes : UInt64)
  | packet (length : UInt64)
  | other (type : UInt16)

/-- The members of the block. -/
structure Counter (K : Type) where
  pktCnt : UInt64
  byteCnt : UInt64
  flowCnt : UInt64
  pktRate : K
  byteRate : K
  flowRate : K
  reset : UInt32
  pktCntPrev : UInt64
  byteCntPrev : UInt64
  flowCntPrev : UInt64
  lastT : Int

/-- What is in memory where the constructor writes nothing. -/
structure CounterMemory (K : Type) where
  flowCnt : UInt64
  flowRate : K
  flowCntPrev : UInt64

namespace Counter

variable {K : Type} [ExactDouble K]

/-- The constructor: the flow members keep what was in memory. -/
def new (memory : CounterMemory K) (now : Int) : Counter K where
  pktCnt := 0
  byteCnt := 0
  flowCnt := memory.flowCnt
  pktRate := 0
  byteRate := 0
  flowRate := memory.flowRate
  reset := 0
  pktCntPrev := 0
  byteCntPrev := 0
  flowCntPrev := memory.flowCntPrev
  lastT := now

/-- The reset that a write to the variable has asked for. -/
def applyReset (b : Counter K) : Counter K :=
  if b.reset = 1 then { b with flowCnt := 0, pktCnt := 0, byteCnt := 0, flowRate := 0, pktRate := 0, byteRate := 0, reset := 0 } else b

/-- `_receive_msg` -/
def receiveMsg (m : CounterMsg) (b : Counter K) : Except String (Counter K) :=
  match m with
  | .flow packets bytes =>
    let b := b.applyReset
    .ok { b with flowCnt := b.flowCnt + 1, pktCnt := b.pktCnt + packets, byteCnt := b.byteCnt + bytes }
  | .packet length =>
    let b := b.applyReset
    .ok { b with pktCnt := b.pktCnt + 1, byteCnt := b.byteCnt + length }
  | .other _ => .error "wrong message type in counter"

/-- The differences that the rates are computed from. -/
def pktDiff (b : Counter K) : UInt64 := b.pktCnt - b.pktCntPrev
/-- The bytes since the last timer event. -/
def byteDiff (b : Counter K) : UInt64 := b.byteCnt - b.byteCntPrev
/-- The flows since the last timer event. -/
def flowDiff (b : Counter K) : UInt64 := b.flowCnt - b.flowCntPrev

/-- `_handle_timer`: the rates over the time that went by. -/
def handleTimer (n : Int) (b : Counter K) : Counter K :=
  let seconds : K := ((n - b.lastT).tdiv 1000 : Int) / ((1000000 : ℕ) : K)
  { b with
    pktRate := (b.pktDiff.toNat : K) / seconds
    byteRate := (b.byteDiff.toNat : K) / seconds
    flowRate := (b.flowDiff.toNat : K) / seconds
    pktCntPrev := b.pktCnt
    byteCntPrev := b.byteCnt
    flowCntPrev := b.flowCnt
    lastT := n }

/-- A write of 1 to the variable `reset`. -/
def writeReset (b : Counter K) : Counter K := { b with reset := 1 }

end Counter

end Blockmon
