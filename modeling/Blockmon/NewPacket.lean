import Blockmon.Packet

/-!
# Packets as slices (`messages/NewPacket.hpp`, `core/dissectors`)

The packet class of a build with `USE_SIMPLE_PACKET`. The frame is copied into a memory of `net::payload::size_of()` bytes. A header is
looked for when it is needed, behind the header of the protocol that carries it, and the pointer to it is kept. A pointer is an offset in
that memory, or nothing for a null pointer. Using a null pointer and reading outside of the memory are faults of the model. The structures
of the system's headers are laid out as the comments in `core/dissectors` say, and the host stores the least significant byte first.
-/

namespace Blockmon.Messages

/-- The types of the headers in a `packet_slice`. -/
inductive Header where
  | ethernet
  | ipv4
  | tcp
  | udp
  | icmp
  | payload
deriving DecidableEq

/-- A header that has not been looked for has no pointer in the slice yet, which is `undefinedptr`. -/
structure NewPacket where
  memory : List UInt8
  slice : Header → Option (Option Nat)
  flowKey : FlowKey

namespace NewPacket

/-- How a call may fail: an access outside of the packet, a null pointer that is followed, or an exception. -/
inductive Fault where
  | outOfBounds
  | nullPointer
  | runtimeError (what : String)
deriving DecidableEq

/-- A call on a packet, which notes the headers that it finds. -/
abbrev Dissect := EStateM Fault NewPacket

/-- `SimplePacket`: the memory is what it was where nothing is copied to. -/
def simplePacket (memory rawPacket : List UInt8) : NewPacket where
  memory := rawPacket.take memory.length ++ memory.drop rawPacket.length
  slice h := if h = .ethernet then some (some 0) else none
  flowKey := ⟨0, 0, 0, 0, 0⟩

/-! ## Members of the headers -/

/-- A read of bytes of the packet. -/
def load (off n : Nat) : Dissect (List UInt8) := do
  let p ← get
  if p.memory.length < off + n then throw .outOfBounds
  else return (p.memory.drop off).take n

/-- A read of one byte. -/
def byteAt (off : Nat) : Dissect UInt8 := return u8 (← load off 1) 0

/-- A read of two bytes, as the machine has them. -/
def shortAt (off : Nat) : Dissect UInt16 := return u16 (← load off 2) 0

/-- A read of four bytes, as the machine has them. -/
def longAt (off : Nat) : Dissect UInt32 := return u32 (← load off 4) 0

/-- `ether_type` -/
def etherType (eth : Nat) : Dissect UInt16 := return ntohs (← shortAt (eth + 12))

/-- `ihl`, a bit field. -/
def ihl (ip : Nat) : Dissect Nat := return (← byteAt ip).toNat % 2 ^ 4

/-- `tos` -/
def tos (ip : Nat) : Dissect UInt8 := byteAt (ip + 1)

/-- `tot_len` -/
def totLen (ip : Nat) : Dissect UInt16 := return ntohs (← shortAt (ip + 2))

/-- `ttl` -/
def ttl (ip : Nat) : Dissect UInt8 := byteAt (ip + 8)

/-- `protocol` -/
def protocol (ip : Nat) : Dissect UInt8 := byteAt (ip + 9)

/-- `saddr` -/
def saddr (ip : Nat) : Dissect UInt32 := longAt (ip + 12)

/-- `daddr` -/
def daddr (ip : Nat) : Dissect UInt32 := longAt (ip + 16)

/-- The ports of the TCP and of the UDP header. -/
def source (l4 : Nat) : Dissect UInt16 := return ntohs (← shortAt l4)

/-- `dest` -/
def dest (l4 : Nat) : Dissect UInt16 := return ntohs (← shortAt (l4 + 2))

/-- `seq` -/
def seq (tcp : Nat) : Dissect UInt32 := return ntohl (← longAt (tcp + 4))

/-- `ack_seq` -/
def ackSeq (tcp : Nat) : Dissect UInt32 := return ntohl (← longAt (tcp + 8))

/-- `doff`, a bit field. -/
def doff (tcp : Nat) : Dissect Nat := return (← byteAt (tcp + 12)).toNat / 2 ^ 4

/-- One of the bits `fin`, `syn`, `rst`, `psh`, `ack` and `urg`, in this order. -/
def flagBit (bit tcp : Nat) : Dissect Bool := return (← byteAt (tcp + 13)).toNat.testBit bit

/-- `fin` -/
def fin : Nat → Dissect Bool := flagBit 0
/-- `syn` -/
def syn : Nat → Dissect Bool := flagBit 1
/-- `rst` -/
def rst : Nat → Dissect Bool := flagBit 2
/-- `psh` -/
def psh : Nat → Dissect Bool := flagBit 3
/-- `ack` -/
def ack : Nat → Dissect Bool := flagBit 4
/-- `urg` -/
def urg : Nat → Dissect Bool := flagBit 5

/-- `window` -/
def window (tcp : Nat) : Dissect UInt16 := return ntohs (← shortAt (tcp + 14))

/-- `urg_ptr` -/
def urgPtr (tcp : Nat) : Dissect UInt16 := return ntohs (← shortAt (tcp + 18))

/-- `len` -/
def len (udp : Nat) : Dissect UInt16 := return ntohs (← shortAt (udp + 4))

end NewPacket

open NewPacket

/-- `proto()`: the protocol that the header carries. -/
def Header.proto : Header → Nat → Dissect UInt16
  | .ethernet, p => NewPacket.etherType p
  | .ipv4, p => return (← protocol p).toUInt16
  | _, _ => return 0

/-- `size_of()`. -/
def Header.sizeOf : Header → Nat → Dissect Nat
  | .ethernet, p => do
    if (← NewPacket.etherType p) = Packet.kPktType1q then return sizeofEthhdr + 4
    else return sizeofEthhdr
  | .ipv4, p => return (← ihl p) * 4
  | .tcp, p => return (← doff p) * 4
  | .udp, _ => return 8
  | .icmp, _ => return 8
  | .payload, _ => return (← get).memory.length

namespace NewPacket

/-! ## Looking for headers -/

/-- The header carries the protocol that is searched for, if one is. -/
def carries (proto : UInt16) (h : Header) (p : Nat) : Dissect Bool :=
  if proto = 0 then return true else return proto = (← h.proto p)

/-- The end of the first of the parents that carries the protocol. -/
def getParent (proto : UInt16) : List (Header × Dissect (Option Nat)) → Dissect (Option Nat)
  | [] => return none
  | (h, getHeader) :: parents => do
    match ← getHeader with
    | none => getParent proto parents
    | some p => if ← carries proto h p then return some (p + (← h.sizeOf p)) else getParent proto parents

/-- What was found of a header is noted. -/
def setHeader (h : Header) (ptr : Option Nat) (p : NewPacket) : NewPacket :=
  { p with slice := fun h' => if h' = h then some ptr else p.slice h' }

/-- `get_header` for a type of header with the protocol and the parents of its `header_traits`. -/
def getHeader (h : Header) (proto : UInt16) (parents : List (Header × Dissect (Option Nat))) : Dissect (Option Nat) := do
  match (← get).slice h with
  | some ptr => return ptr
  | none =>
    let ptr ← getParent proto parents
    modify (setHeader h ptr)
    return ptr

/-- The search for the Ethernet header. -/
def ethernet : Dissect (Option Nat) := getHeader .ethernet 0 []

/-- The search for the IP header. -/
def ipv4 : Dissect (Option Nat) := getHeader .ipv4 Packet.kPktTypeIP4 [(.ethernet, ethernet)]

/-- The search for the TCP header. -/
def tcp : Dissect (Option Nat) := getHeader .tcp 6 [(.ipv4, ipv4)]

/-- The search for the UDP header. -/
def udp : Dissect (Option Nat) := getHeader .udp 17 [(.ipv4, ipv4)]

/-- The search for the header of ICMP. -/
def icmp : Dissect (Option Nat) := getHeader .icmp 1 [(.ipv4, ipv4)]

/-- The search for the payload, behind the first header that is found. -/
def payload : Dissect (Option Nat) :=
  getHeader .payload 0 [(.udp, udp), (.tcp, tcp), (.icmp, icmp), (.ipv4, ipv4), (.ethernet, ethernet)]

/-- `get_header` by the type of the header. -/
def find : Header → Dissect (Option Nat)
  | .ethernet => ethernet
  | .ipv4 => ipv4
  | .tcp => tcp
  | .udp => udp
  | .icmp => icmp
  | .payload => payload

/-! ## Accessors -/

/-- A pointer that is followed. -/
def deref : Option Nat → Dissect Nat
  | none => throw .nullPointer
  | some p => return p

/-- A member of a header. -/
def member {α : Type} (header : Dissect (Option Nat)) (read : Nat → Dissect α) : Dissect α := do
  read (← deref (← header))

/-- `l3_protocol` -/
def l3Protocol : Dissect UInt16 := member ethernet NewPacket.etherType

/-- `l4_protocol` -/
def l4Protocol : Dissect UInt8 := member ipv4 protocol

/-- The test for a protocol above IP. -/
def isL4 (proto : UInt8) : Dissect Bool := do
  if (← l3Protocol) ≠ Packet.kPktTypeIP4 then return false
  else return (← l4Protocol) = proto

/-- `is_tcp` -/
def isTcp : Dissect Bool := isL4 6

/-- `is_udp` -/
def isUdp : Dissect Bool := isL4 17

/-- `is_icmp` -/
def isIcmp : Dissect Bool := return (← l4Protocol) = 1

/-- Both port accessors. -/
def port (read : Nat → Dissect UInt16) (what : String) : Dissect UInt16 := do
  if ← isUdp then member udp read
  else if ← isTcp then member tcp read
  else throw (.runtimeError what)

/-- `src_port` -/
def srcPort : Dissect UInt16 := port source "NewPacket::src_port"

/-- `dst_port` -/
def dstPort : Dissect UInt16 := port dest "NewPacket::dst_port"

/-- `l4hdr` -/
def l4hdr : Dissect (Option Nat) := do
  match ← udp with
  | some p => return some p
  | none => tcp

/-- `ip->tot_len_() - ip->size_of() - l4->size_of()`, returned as 16 bits. -/
def lenBehind (ip : Option Nat) (h : Header) (l4 : Option Nat) : Dissect UInt16 := do
  let ip ← deref ip
  return (← totLen ip) - .ofNat (← Header.ipv4.sizeOf ip) - .ofNat (← h.sizeOf (← deref l4))

/-- `payload_len` -/
def payloadLen : Dissect UInt16 := do
  let eth ← ethernet
  let ip ← ipv4
  let udp ← udp
  let tcp ← tcp
  let icmp ← icmp
  if (← NewPacket.etherType (← deref eth)) = Packet.kPktTypeIP4 then
    if ← isTcp then lenBehind ip .tcp tcp
    else if ← isUdp then lenBehind ip .udp udp
    else if ← isIcmp then lenBehind ip .icmp icmp
    else return 0
  else return 0

/-- The predicates of the TCP flags. -/
def tcpHas (bit : Nat → Dissect Bool) : Dissect Bool := do
  if ← isTcp then member tcp bit else return false

/-- A member that is only there when a flag is set. -/
def whenFlag {α : Type} (bit : Nat → Dissect Bool) (read : Nat → Dissect α) (tcp : Nat) : Dissect (Option α) := do
  if ← bit tcp then return some (← read tcp) else return none

/-- `tcp_ack` -/
def tcpAck : Dissect (Option UInt32) := member tcp (whenFlag ack ackSeq)

/-- `tcp_urg`, which the caller gets in one byte. -/
def tcpUrg : Dissect (Option UInt8) := member tcp (whenFlag urg fun tcp => return (← urgPtr tcp).toUInt8)

/-- A member of the key is set. -/
def setKey (f : FlowKey → FlowKey) : Dissect Unit := modify fun p => { p with flowKey := f p.flowKey }

/-- The key is filled, member by member. -/
def fillKey : Dissect Unit := do
  let srcIp4 ← member ipv4 saddr
  setKey fun k => { k with src_ip4 := srcIp4 }
  let dstIp4 ← member ipv4 daddr
  setKey fun k => { k with dst_ip4 := dstIp4 }
  let srcPort ← srcPort
  setKey fun k => { k with src_port := srcPort }
  let dstPort ← dstPort
  setKey fun k => { k with dst_port := dstPort }
  let proto ← l4Protocol
  setKey fun k => { k with proto := proto }

/-- A key counts as filled when its source address is not zero. -/
def key : Dissect FlowKey := do
  let k := (← get).flowKey
  if k.src_ip4 ≠ 0 then return k
  else
    fillKey
    return (← get).flowKey

/-- The accessors under the names of `Packet`; `tcp_flags` is deleted. -/
def call : Accessor → Option (Dissect Value)
  | .iphdr => some do return .pointer (← ipv4)
  | .l4hdr => some do return .pointer (← l4hdr)
  | .payload => some do return .pointer (← payload)
  | .payloadLen => some do return .number (← payloadLen).toNat
  | .l3Protocol => some do return .number (← l3Protocol).toNat
  | .ipSrc => some do return .number (← member ipv4 saddr).toNat
  | .ipDst => some do return .number (← member ipv4 daddr).toNat
  | .srcPort => some do return .number (← srcPort).toNat
  | .dstPort => some do return .number (← dstPort).toNat
  | .l4Protocol => some do return .number (← l4Protocol).toNat
  | .key => some do return .key (← key)
  | .isTcp => some do return .bool (← isTcp)
  | .isUdp => some do return .bool (← isUdp)
  | .ipTos => some do return .number (← member ipv4 tos).toNat
  | .ipTtl => some do return .number (← member ipv4 ttl).toNat
  | .ipLength => some do return .number (← member ipv4 totLen).toNat
  | .ipHeaderLength => some do return .number ((← member ipv4 ihl) * 4)
  | .tcpFlags => none
  | .tcpHasSyn => some do return .bool (← tcpHas syn)
  | .tcpHasAck => some do return .bool (← tcpHas ack)
  | .tcpHasFin => some do return .bool (← tcpHas fin)
  | .tcpHasRst => some do return .bool (← tcpHas rst)
  | .tcpHasPsh => some do return .bool (← tcpHas psh)
  | .tcpAck => some do return .optional ((← tcpAck).map (·.toNat))
  | .tcpUrg => some do return .optional ((← tcpUrg).map (·.toNat))
  | .tcpSeq => some do return .number (← member tcp seq).toNat
  | .tcpWin => some do return .number (← member tcp window).toNat
  | .tcpHeaderLength => some do return .number ((← member tcp doff) * 4)
  | .udpLength => some do return .number (← member udp len).toNat

end NewPacket

end Blockmon.Messages
