import Blockmon.Filter
import Blockmon.Flow
import Blockmon.Lib.PriorityQueue

/-!
# The selector of the heaviest flows (`blocks/TopNFlowSelector.cpp`)

The heap keeps the flow with the fewest packets on top, the one to give way. What the queue does with its comparison is that of
`PriorityQueue`; the first element of an empty one is not defined.
-/

namespace Blockmon.Filtering

/-- `packets` of the flow. -/
def npackets (m : Flow) : UInt64 := m.packets

/-- A priority queue that gives the flow with the fewest packets. -/
abbrev FlowHeap := PriorityQueue Flow fun m => (npackets m).toNat

/-- The block. -/
structure TopNFlowSelector (P : FlowHeap) where
  heap : P.Q
  len : UInt32
  msecsT : UInt32

/-- `top` of an empty queue. -/
inductive HeapFault where
  | emptyHeap
deriving DecidableEq

namespace TopNFlowSelector

variable {P : FlowHeap}

/-- The constructor. -/
def new (P : FlowHeap) : TopNFlowSelector P where
  heap := P.empty
  len := 10
  msecsT := 100

/-- What an attribute of a child says, if both are there. -/
def uintOf (T : Texts) (n : XmlNode) (child attr : String) (default : UInt32) : UInt32 :=
  match (n.child child).bind fun c => c.attr attr with
  | none => default
  | some text => T.asUint text

/-- The block, and the period of its timer in microseconds. -/
def configure (T : Texts) (n : XmlNode) (b : TopNFlowSelector P) : TopNFlowSelector P × UInt32 :=
  let b := { b with
    len := uintOf T n "top_flows" "number" b.len
    msecsT := uintOf T n "period" "msecs" b.msecsT }
  (b, b.msecsT * 1000)

/-- `m_heap.size()`. -/
def size (b : TopNFlowSelector P) : Nat := (P.elems b.heap).card

/-- `_receive_msg`: a full heap takes the flow in the place of the smallest. -/
def receiveMsg (m : Flow) (b : TopNFlowSelector P) : Except HeapFault (TopNFlowSelector P) :=
  if b.size < b.len.toNat then .ok { b with heap := P.push m b.heap }
  else
    match P.pop b.heap with
    | none => .error .emptyHeap
    | some (top, rest) =>
      if npackets m > npackets top then .ok { b with heap := P.push m rest }
      else .ok b

/-- What is sent, and the block after it. -/
def handleTimer (b : TopNFlowSelector P) : List Flow × TopNFlowSelector P :=
  ((P.drain b.heap).1, { b with heap := (P.drain b.heap).2 })

end TopNFlowSelector

/-- What reaches the selector. -/
inductive SelectorEvent where
  | flow (m : Flow)
  | timer

namespace TopNFlowSelector

variable {P : FlowHeap}

/-- What an event makes it send, and the block after it. -/
def step (b : TopNFlowSelector P) : SelectorEvent → Except HeapFault (List Flow × TopNFlowSelector P)
  | .flow m => (b.receiveMsg m).map fun b => ([], b)
  | .timer => .ok b.handleTimer

/-- What is sent, event by event, and the block in the end. -/
def run (b : TopNFlowSelector P) : List SelectorEvent → Except HeapFault (List (List Flow) × TopNFlowSelector P)
  | [] => .ok ([], b)
  | e :: events => do
    let (sent, b) ← b.step e
    let (rest, b) ← b.run events
    .ok (sent :: rest, b)

end TopNFlowSelector

end Blockmon.Filtering
