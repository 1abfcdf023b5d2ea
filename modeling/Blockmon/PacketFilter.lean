import Blockmon.Filter

/-!
# The packet filter (`blocks/PacketFilter.cpp`)

The accessors of a packet parse it when they are called, so receiving is a computation on the packet. A message is a pointer of which nothing is
known; what is sent out of the gate is listed.
-/

namespace Blockmon.Messages.Packet

/-- A parser and a member of the packet. -/
def member {α : Type} (parser : Parse Unit) (read : Packet → α) : Parse α := do
  parser
  return read (← get)

/-- `l3_protocol` -/
def l3Protocol : Parse UInt16 := member parseMac fun p => p.pkttype
/-- `ip_src` -/
def ipSrc : Parse UInt32 := member parseIphdr fun p => p.key.src_ip4
/-- `ip_dst` -/
def ipDst : Parse UInt32 := member parseIphdr fun p => p.key.dst_ip4
/-- `l4_protocol` -/
def l4Protocol : Parse UInt8 := member parseIphdr fun p => p.key.proto
/-- `src_port` -/
def srcPort : Parse UInt16 := member parsePorts fun p => p.key.src_port
/-- `dst_port` -/
def dstPort : Parse UInt16 := member parsePorts fun p => p.key.dst_port
/-- `is_udp` -/
def isUdp : Parse Bool := member parseIphdr fun p => p.key.proto = kUDP

end Blockmon.Messages.Packet

namespace Blockmon.Filtering

open Blockmon.Messages (Parse)
open Blockmon.Messages (Packet)
open Blockmon.Messages.Packet (kPktTypeIP4)

/-- The members that `PacketFilter` adds to its base class. -/
structure PacketFilter extends Filter where
  layer3Proto : UInt16
  layer3Mode : UInt8
  srcPorts : List UInt16
  dstPorts : List UInt16

namespace PacketFilter

open Filtering.Filter

/-! ## The configuration -/

/-- The numbers of a node that is configured, behind those that there are already. -/
def readPorts (T : Texts) (portList : List UInt16) (portNodeName : String) (nodePort : XmlNode) : Except String (List UInt16) := do
  let numbers ← (nodePort.named "number").mapM fun nodeNumber => do
    .ok (T.asUint (← require nodeNumber "value" portNodeName)).toUInt16
  if (portList ++ numbers).isEmpty then .ok [(T.asUint (← require nodePort "number" portNodeName)).toUInt16]
  else .ok (portList ++ numbers)

/-- `parse_port_configuration` -/
def parsePortConfiguration (T : Texts) (mode : UInt8) (portList : List UInt16) (nodeParam : XmlNode) (portNodeName : String) :
    Except String (UInt8 × List UInt16) := parseField nodeParam portNodeName mode portList (readPorts T portList portNodeName)

/-- The constructor: every mode is zero. -/
def new : PacketFilter where
  toFilter := Filter.new
  layer3Proto := 0
  layer3Mode := 0
  srcPorts := []
  dstPorts := []

/-- `_configure`: the base class first, then the level-3 protocol and the ports. -/
def configure (T : Texts) (n : XmlNode) (f : PacketFilter) : Except String PacketFilter := do
  let base ← Filter.configure T n f.toFilter
  let (layer3Mode, layer3Proto) ← parseField n "l3_protocol" f.layer3Mode f.layer3Proto (readNumber T "l3_protocol")
  let (srcPortMode, srcPorts) ← parsePortConfiguration T base.srcPortMode f.srcPorts n "src_port"
  let (dstPortMode, dstPorts) ← parsePortConfiguration T base.dstPortMode f.dstPorts n "dst_port"
  .ok {
    toFilter := { base with srcPortMode := srcPortMode, dstPortMode := dstPortMode }
    layer3Proto := layer3Proto
    layer3Mode := layer3Mode
    srcPorts := srcPorts
    dstPorts := dstPorts }

/-! ## Receiving -/

/-- The loop of `go_ahead`. -/
def searchPort (isModeDiscard : Bool) (port : UInt16) : List UInt16 → Bool
  | [] => isModeDiscard
  | p :: ports => if p = port then !isModeDiscard else searchPort isModeDiscard port ports

/-- `go_ahead` on one port. -/
def goAhead (mode : UInt8) (portList : List UInt16) (port : UInt16) : Bool :=
  if isIndirect mode then searchPort (mode &&& (1 <<< FILTER_OUT) ≠ 0) port portList else true

/-- A field that is looked at only if it is configured. -/
def check (mode : UInt8) (test : Parse Bool) : Parse Bool := do
  if isIndirect mode then return Filter.goAhead (← test) mode
  else return true

variable {τ : Type}

/-- The part of `_receive_msg` for TCP and UDP. -/
def receivePorts (f : PacketFilter) (m : τ) : Parse (List τ) := do
  if !goAhead f.srcPortMode f.srcPorts (← Packet.srcPort) then return []
  else if !goAhead f.dstPortMode f.dstPorts (← Packet.dstPort) then return []
  else return [m]

/-- The part of `_receive_msg` for IPv4; `is_tcp` is asked only if `is_udp` is not so. -/
def receiveIp (f : PacketFilter) (m : τ) : Parse (List τ) := do
  if !(← check f.ipSrcMode do return matchesAddress f.ipSrc (← Packet.ipSrc)) then return []
  else if !(← check f.ipDstMode do return matchesAddress f.ipDst (← Packet.ipDst)) then return []
  else if !(← check f.layer4Mode do return f.layer4Proto = (← Packet.l4Protocol).toUInt16) then return []
  else if ← Packet.isUdp then receivePorts f m
  else if ← Packet.isTcp then receivePorts f m
  else return [m]

/-- `_receive_msg`: what passes the level-3 test and is not IPv4 is sent on at once. -/
def receiveMsg (f : PacketFilter) (m : τ) : Parse (List τ) := do
  if !(← check f.layer3Mode do return f.layer3Proto = (← Packet.l3Protocol)) then return []
  else if (← Packet.l3Protocol) ≠ kPktTypeIP4 then return [m]
  else receiveIp f m

end PacketFilter

end Blockmon.Filtering
