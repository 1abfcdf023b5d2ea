import Blockmon.Filter
import Blockmon.Flow

/-!
# The flow filter (`blocks/FlowFilter.cpp`)

`m` is a shared pointer, empty once a receiver has taken it, and `flow` a plain pointer to the same message, which may be gone when a send returns.
What becomes of the message is up to the receivers, so it is a parameter. Sending makes no `return`: the code behind it is reached.
-/

namespace Blockmon.Filtering

/-- The members that `FlowFilter` adds to its base class. -/
structure FlowFilter extends Filter where
  srcPort : UInt16
  dstPort : UInt16

/-- What the receivers do with a message: they leave the pointer, or take it and keep the message, or take it and are through with it. -/
inductive Fate where
  | left
  | kept
  | gone
deriving DecidableEq

/-- A read through the pointer of a message that was moved away. -/
inductive FlowFilterFault where
  | dangling
deriving DecidableEq

namespace FlowFilter

open Filtering.Filter

/-- The constructor. -/
def new : FlowFilter where
  toFilter := Filter.new
  srcPort := 0
  dstPort := 0

/-- `_configure`: the base class first, then the ports. -/
def configure (T : Texts) (n : XmlNode) (f : FlowFilter) : Except String FlowFilter := do
  let base ← Filter.configure T n f.toFilter
  let (srcPortMode, srcPort) ← parseField n "src_port" base.srcPortMode f.srcPort (readNumber T "src_port")
  let (dstPortMode, dstPort) ← parseField n "dst_port" base.dstPortMode f.dstPort (readNumber T "dst_port")
  .ok {
    toFilter := { base with srcPortMode := srcPortMode, dstPortMode := dstPortMode }
    srcPort := srcPort
    dstPort := dstPort }

/-- `m` after `packet_passed`. -/
def pointerAfter (fate : Fate) (flow : Flow) : Option Flow := if fate = .left then some flow else none

/-- What `flow` points to after `packet_passed`. -/
def flowAfter (fate : Fate) (flow : Flow) : Option Flow := if fate = .gone then none else some flow

/-- `flow->key()`. -/
def key (flow : Option Flow) : Except FlowFilterFault FlowKey :=
  match flow with
  | none => .error .dangling
  | some flow => .ok flow.key

/-- A field that is looked at only if it is configured: whether the filtering goes on. -/
def check (mode : UInt8) (flow : Option Flow) (test : FlowKey → Bool) : Except FlowFilterFault Bool := do
  if isIndirect mode then .ok (goAhead (test (← key flow)) mode)
  else .ok true

/-- The end of `_receive_msg`: what is sent. -/
def receivePorts (f : FlowFilter) (m flow : Option Flow) : Except FlowFilterFault (List (Option Flow)) := do
  if !(← check f.srcPortMode flow fun k => f.srcPort = k.src_port) then .ok []
  else if !(← check f.dstPortMode flow fun k => f.dstPort = k.dst_port) then .ok []
  else .ok [m]

/-- `_receive_msg`: the messages that are sent, null where the pointer was moved away. -/
def receiveMsg (fate : Fate) (f : FlowFilter) (flow : Flow) : Except FlowFilterFault (List (Option Flow)) := do
  if !(← check f.ipSrcMode (some flow) fun k => matchesAddress f.ipSrc k.src_ip4) then .ok []
  else if !(← check f.ipDstMode (some flow) fun k => matchesAddress f.ipDst k.dst_ip4) then .ok []
  else if !(← check f.layer4Mode (some flow) fun k => f.layer4Proto = k.proto.toUInt16) then .ok []
  else if flow.key.proto ≠ Messages.Packet.kUDP ∧ flow.key.proto ≠ Messages.Packet.kTCP then
    -- the message is sent, and the ports are looked at all the same
    let rest ← f.receivePorts (pointerAfter fate flow) (flowAfter fate flow)
    .ok (some flow :: rest)
  else f.receivePorts (some flow) (some flow)

end FlowFilter

end Blockmon.Filtering
