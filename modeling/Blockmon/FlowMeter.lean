import Blockmon.Flow
import Blockmon.Lib.Lts
import Blockmon.Lib.Ring

/-!
# The flow meter (`blocks/FlowMeter.cpp`)

A hash table holds the flow records by key and a circular queue says in which order they are checked for expiration. Both hold
pointers to the same records, which are changed in place, so the model has a heap: a pointer is the number of an allocation. What
the block sends out is the list of pointers handed to its output gate.

The clock readings `get_BM_time()` are arguments of the handlers. The timer loop takes a bound on its iterations and has no result
when the bound is too small. The `int` products wrap around.
-/

namespace Blockmon

/-- Slot of the flow queue: a pointer to the table entry, null after a move, and the last time when the flow was checked. -/
structure QueueSlot where
  flowPtr : Option Nat
  lastChecked : ustime
deriving DecidableEq

/-- The slot as the constructor makes it. -/
def QueueSlot.new : QueueSlot := { flowPtr := none, lastChecked := 0 }

/-- What arrives at an input gate: a packet, or a message of another type. -/
inductive Msg where
  | packet (p : Packet)
  | other
deriving DecidableEq

/-- The parameters of the block: an element may be absent, and its `ms` attribute may be missing. -/
structure FlowMeterParams where
  idleTimeout : Option (Option UInt32)
  activeTimeout : Option (Option UInt32)
  storePackets : Option Bool

/-- The flow table, the queue of slots as a ring, and the parameters. A flow is a place in `heap`, which shared pointers refer to. -/
structure FlowMeter where
  heap : Nat → Flow
  next : Nat
  flowTable : FlowKey → Option Nat
  flowQueue : Nat → QueueSlot
  queueHead : Nat
  queueTail : Nat
  idleTimeoutMs : Int32
  activeTimeoutMs : UInt32
  storePackets : Bool
  sent : List Nat

namespace FlowMeter

/-- `Q_SIZE` -/
def Q_SIZE : Nat := 128 * 1024

/-- The constructor. -/
def new : FlowMeter :=
  { heap := fun _ => Flow.new ⟨0, 0, 0, 0, 0⟩, next := 0, flowTable := fun _ => none, flowQueue := fun _ => QueueSlot.new,
    queueHead := 0, queueTail := 0, idleTimeoutMs := 500, activeTimeoutMs := 100, storePackets := false, sent := [] }

/-- The idle timeout in microseconds, an `int` product. -/
def idleTimeoutUs (m : FlowMeter) : Int32 := m.idleTimeoutMs * 1000

/-- The `ms` attribute of a timeout element, if the element is there. -/
def timeoutMs (elem : Option (Option UInt32)) : Except String (Option UInt32) :=
  match elem with
  | none => .ok none
  | some none => .error "FlowMeter: malformed timeout paramter"
  | some (some ms) => .ok (some ms)

/-- `_configure`: the state it leaves, and the period of the timer that it sets unless it throws. -/
def configure (m : FlowMeter) (n : FlowMeterParams) : FlowMeter × Except String ustime :=
  match timeoutMs n.idleTimeout with
  | .error e => (m, .error e)
  | .ok idle =>
    let m := { m with idleTimeoutMs := (idle.map UInt32.toInt32).getD m.idleTimeoutMs }
    match timeoutMs n.activeTimeout with
    | .error e => (m, .error e)
    | .ok active =>
      let m := { m with activeTimeoutMs := active.getD m.activeTimeoutMs }
      ({ m with storePackets := n.storePackets.getD m.storePackets }, .ok m.idleTimeoutUs.toInt64.toUInt64)

/-! ## The heap and the queue -/

/-- `new Flow`: the pointer is the number of the allocation. -/
def alloc (m : FlowMeter) (f : Flow) : FlowMeter := { m with heap := Function.update m.heap m.next f, next := m.next + 1 }

/-- Change the record at an address in place. -/
def modify (m : FlowMeter) (r : Nat) (f : Flow → Flow) : FlowMeter :=
  { m with heap := Function.update m.heap r (f (m.heap r)) }

/-- `m_flow_table[key] = flow_sp`. -/
def insert (m : FlowMeter) (key : FlowKey) (r : Nat) : FlowMeter :=
  { m with flowTable := Function.update m.flowTable key (some r) }

/-- `m_flow_table.erase(key)`. -/
def erase (m : FlowMeter) (key : FlowKey) : FlowMeter := { m with flowTable := Function.update m.flowTable key none }

/-- A flow is sent through the output gate. -/
def sendOut (m : FlowMeter) (r : Nat) : FlowMeter := { m with sent := m.sent ++ [r] }

/-- Dequeue a slot; no result if the queue was empty. The cell keeps a null pointer. -/
def popSlot (m : FlowMeter) : Option (QueueSlot × FlowMeter) :=
  if m.queueHead = m.queueTail then none
  else
    let slot := m.flowQueue m.queueHead
    some (slot,
      { m with
        flowQueue := Function.update m.flowQueue m.queueHead { slot with flowPtr := none }
        queueHead := (m.queueHead + 1) &&& (Q_SIZE - 1) })

/-- Enqueue a slot; false if the queue was full. -/
def pushSlot (m : FlowMeter) (slot : QueueSlot) : Bool × FlowMeter :=
  let nextTail := (m.queueTail + 1) &&& (Q_SIZE - 1)
  if nextTail = m.queueHead then (false, m)
  else (true, { m with flowQueue := Function.update m.flowQueue m.queueTail slot, queueTail := nextTail })

/-! ## The handlers -/

/-- Flows whose last packet is older than this limit are considered as expired. -/
def usLimit (m : FlowMeter) (tnow : ustime) : ustime := tnow - m.idleTimeoutUs.toInt64.toUInt64

/-- The loop of `_handle_timer`, with a bound on its iterations. -/
def handleTimerLoop (tnow us_limit : ustime) : Nat → FlowMeter → Option FlowMeter
  | 0, _ => none
  | fuel + 1, m =>
    match m.popSlot with
    | none => some m
    | some (curSlot, m) =>
      match curSlot.flowPtr with
      | none => none
      | some r =>
        let curFlow := m.heap r
        if curFlow.endTime < us_limit then
          handleTimerLoop tnow us_limit fuel ((m.erase curFlow.key).sendOut r)
        else
          let m := (m.pushSlot { curSlot with lastChecked := tnow }).2
          if curSlot.lastChecked > us_limit then some m else handleTimerLoop tnow us_limit fuel m

/-- `_handle_timer` -/
def handleTimer (m : FlowMeter) (tnow : ustime) (fuel : Nat) : Option FlowMeter :=
  handleTimerLoop tnow (m.usLimit tnow) fuel m

/-- The changes to the record of a packet's flow that do not depend on whether the record is new. -/
def countPacket (m : FlowMeter) (p : Packet) (us_now : ustime) (f : Flow) : Flow :=
  let f := ((f.expandInterval us_now).incrementBytes p.length).incrementPackets 1
  if m.storePackets then f.addPacket p else f

/-- The active timeout has passed for a record. -/
def activeExpired (m : FlowMeter) (us_now : ustime) (f : Flow) : Bool :=
  (us_now - f.startTime) / 1000 > m.activeTimeoutMs.toUInt64

/-- `_receive_msg`: the state it leaves, and whether it returns or throws. -/
def receiveMsg (m : FlowMeter) (msg : Msg) (us_now : ustime) : FlowMeter × Except String Unit :=
  match msg with
  | .other => (m, .error "FlowMeter: wrong message type (only Packet is accepted)")
  | .packet packet =>
    match m.flowTable packet.key with
    | none =>
      let flow_sp := m.next
      let m := (m.alloc (m.countPacket packet us_now (Flow.new packet.key))).insert packet.key flow_sp
      match m.pushSlot { flowPtr := some flow_sp, lastChecked := us_now } with
      | (true, m) => (m, .ok ())
      | (false, m) => (m, .error "FlowMeter: queue is full")
    | some flow =>
      let m :=
        if m.activeExpired us_now (m.heap flow) then
          let m := m.modify flow (·.expandInterval us_now)
          let copy := m.next
          ((m.alloc (m.heap flow).clone).sendOut copy).modify flow Flow.reset
        else m
      (m.modify flow (m.countPacket packet us_now), .ok ())

/-! ## Runs -/

/-- What the scheduler delivers to the block: a message or a timer, with the clock reading of the handler. A timer event is one
whose handler returns within the bound. -/
inductive Input where
  | msg (m : Msg) (us_now : ustime)
  | timer (tnow : ustime) (fuel : Nat)
deriving DecidableEq

/-- The state after an event. An exception is caught outside of the block and leaves the block as it is when thrown. -/
def step (m : FlowMeter) : Input → Option FlowMeter
  | .msg msg us_now => some (m.receiveMsg msg us_now).1
  | .timer tnow fuel => m.handleTimer tnow fuel

/-- A new block after `_configure`, if the parameters are accepted. -/
def configured (n : FlowMeterParams) : Option FlowMeter :=
  match new.configure n with
  | (m, .ok _) => some m
  | (_, .error _) => none

/-! ## Reading a state -/

/-- The slots between the head and the tail of the queue. -/
def slots (m : FlowMeter) : List QueueSlot := Ring.window Q_SIZE m.flowQueue m.queueHead m.queueTail

/-- The record of a key. -/
def entry (m : FlowMeter) (key : FlowKey) : Option Flow := (m.flowTable key).map m.heap

/-- The messages sent out, as they are now. -/
def exported (m : FlowMeter) : List Flow := m.sent.map m.heap

end FlowMeter

end Blockmon
