import Blockmon.Flow
import Blockmon.Lib.Bytes
import Blockmon.Lib.Exn

/-!
# Packets (`messages/Packet.hpp`, `messages/Packet.cpp`)

A packet is a captured buffer whose headers are parsed when an accessor needs them. There are four parsers, each with a flag that says that
it need not run (again); a parser that finds the packet too short sets the flags of the later ones as well. A pointer into the buffer is an
offset, or nothing for a null pointer. The structures of `messages/NetTypes.hpp` are packed, and the host stores the least significant
byte first. Reading outside of the buffer, a difference `m_caplen - offset` below zero and a loop that does not end are faults of the
model, so that it can be said that they do not occur. The mutexes are left out, as the calls come one after the other.
-/

namespace Blockmon.Messages

/-- What should not happen. -/
inductive Fault where
  | outOfBounds
  | underflow
  | noEnd
deriving DecidableEq

/-- `const_buffer<uint8_t>`; the length is a `size_t`. -/
structure ConstBuffer where
  bytes : List UInt8
  length_lt : bytes.length < 2 ^ 64

/-- `Packet` -/
structure Packet where
  buffer : ConstBuffer
  mactype : Int
  iphdrPtr : Option Nat
  l4hdrPtr : Option Nat
  l4payloadPtr : Option Nat
  machdrParsed : Bool
  iphdrParsed : Bool
  portsParsed : Bool
  l4hdrParsed : Bool
  pkttype : UInt16
  key : FlowKey
  iptos : UInt8
  ipttl : UInt8
  iplen : UInt16
  iphlen : UInt8
  tcpflags : UInt8
  tcpseq : UInt32
  tcpack : UInt32
  tcpurg : UInt32
  tcpwin : UInt32
  tcphlen : UInt8
  udplen : UInt16
  payloadLen : Nat

/-- The type of a link with Ethernet headers. -/
def kEthernet : Int := 1

/-- The type of a link without. -/
def kRawIP : Int := 2

namespace Packet

/-- The type of a packet whose MAC header is cut off. -/
def kPktTypeRuntL2 : UInt16 := 0xFFF2
/-- The type of a packet whose IP header is cut off. -/
def kPktTypeRuntL3 : UInt16 := 0xFFF3
/-- The type of a packet whose header above IP is cut off. -/
def kPktTypeRuntL4 : UInt16 := 0xFFF4
/-- The type of IPv4. -/
def kPktTypeIP4 : UInt16 := 0x0800
/-- The type of a tag. -/
def kPktType1q : UInt16 := 0x8100

/-- The number of UDP. -/
def kUDP : UInt8 := 17
/-- The number of TCP. -/
def kTCP : UInt8 := 6

/-- The flag FIN. -/
def kFIN : UInt8 := 0x01
/-- The flag SYN. -/
def kSYN : UInt8 := 0x02
/-- The flag RST. -/
def kRST : UInt8 := 0x04
/-- The flag PSH. -/
def kPSH : UInt8 := 0x08
/-- The flag ACK. -/
def kACK : UInt8 := 0x10
/-- The flag URG. -/
def kURG : UInt8 := 0x20

/-- `m_caplen`. -/
def caplen (p : Packet) : Nat := p.buffer.bytes.length

/-- The constructor. The members that it does not set are what they are in the memory it is given. -/
def new (memory : Packet) (buffer : ConstBuffer) (macType : Int) : Packet :=
  { memory with
    buffer := buffer
    mactype := macType
    iphdrPtr := none
    l4hdrPtr := none
    l4payloadPtr := none
    machdrParsed := false
    iphdrParsed := false
    portsParsed := false
    l4hdrParsed := false
    key := ⟨0, 0, 0, 0, 0⟩
    payloadLen := 0 }

end Packet

/-! ## Headers in memory -/

/-- `sizeof(struct ethhdr)` -/
def sizeofEthhdr : Nat := 14
/-- The size of a tag. -/
def sizeofEth1qhdr : Nat := 4
/-- `sizeof(struct ip4hdr)` -/
def sizeofIp4hdr : Nat := 20
/-- `sizeof(struct porthdr)` -/
def sizeofPorthdr : Nat := 4
/-- `sizeof(struct tcphdr)` -/
def sizeofTcphdr : Nat := 17
/-- `sizeof(struct udphdr)` -/
def sizeofUdphdr : Nat := 8

/-- A member of one byte at an offset in a structure. -/
def u8 (h : List UInt8) (i : Nat) : UInt8 := h.getD i 0

/-- Two bytes, as the machine has them. -/
def u16 (h : List UInt8) (i : Nat) : UInt16 := .ofNat (Bytes.decode ((h.drop i).take 2))

/-- Four bytes, as the machine has them. -/
def u32 (h : List UInt8) (i : Nat) : UInt32 := .ofNat (Bytes.decode ((h.drop i).take 4))

/-- `ntohs` -/
def ntohs (v : UInt16) : UInt16 := .ofNat (Bytes.swap 2 v.toNat)

/-- `ntohl` -/
def ntohl (v : UInt32) : UInt32 := .ofNat (Bytes.swap 4 v.toNat)

/-- The header length in bytes; the version is not used. -/
def decodeHlv (hlv : UInt8) : UInt8 := (hlv &&& 0x0f) <<< 2

/-- `decode_payoff` -/
def decodePayoff (payoff : UInt8) : UInt8 := (payoff &&& 0xf0) >>> 2

/-! ## Parsers -/

/-- A parser of the packet. -/
abbrev Parse := EStateM Fault Packet

namespace Packet

/-- The structure of `n` bytes at an offset. -/
def load (off n : Nat) : Parse (List UInt8) := do
  let p ← get
  if p.caplen < off + n then throw .outOfBounds
  else return (p.buffer.bytes.drop off).take n

/-- `m_caplen - off`. -/
def left (off : Nat) : Parse Nat := do
  let p ← get
  if p.caplen < off then throw .underflow
  else return p.caplen - off

/-- No header can be parsed. -/
def runtL2 : Parse Unit :=
  modify fun p =>
    { p with pkttype := kPktTypeRuntL2, iphdrParsed := true, portsParsed := true, l4hdrParsed := true, machdrParsed := true }

/-- The loop over the 802.1q headers, `macbuf` being an offset: where it ends, or nothing if the packet is too short. -/
def parse1q : Nat → Nat → Parse (Option Nat)
  | 0, _ => throw .noEnd
  | n + 1, macbuf => do
    if (← get).pkttype = kPktType1q then
      if (← left macbuf) < sizeofEthhdr then return none
      else
        let e1qh ← load macbuf sizeofEth1qhdr
        modify fun p => { p with pkttype := ntohs (u16 e1qh 2) }
        parse1q n (macbuf + sizeofEth1qhdr)
    else return some macbuf

/-- The end of `parse_mac`. -/
def storeIphdr (macbuf : Nat) : Parse Unit :=
  modify fun p =>
    if p.pkttype = kPktTypeIP4 then { p with iphdrPtr := some macbuf, machdrParsed := true }
    else { p with iphdrParsed := true, portsParsed := true, l4hdrParsed := true, machdrParsed := true }

/-- `parse_mac` -/
def parseMac : Parse Unit := do
  let p ← get
  if p.machdrParsed then return
  else if p.mactype = kEthernet then
    if p.caplen < sizeofEthhdr then runtL2
    else
      let eh ← load 0 sizeofEthhdr
      modify fun p => { p with pkttype := ntohs (u16 eh 12) }
      match ← parse1q (p.caplen + 1) sizeofEthhdr with
      | none => runtL2
      | some macbuf => storeIphdr macbuf
  else
    if p.mactype = kRawIP then modify fun p => { p with pkttype := kPktTypeIP4 }
    storeIphdr 0

/-- What is read from the IP header. -/
def setIp (iph : List UInt8) (p : Packet) : Packet :=
  { p with
    key := { p.key with src_ip4 := ntohl (u32 iph 12), dst_ip4 := ntohl (u32 iph 16), proto := u8 iph 9 }
    iptos := u8 iph 1
    ipttl := u8 iph 8
    iplen := ntohs (u16 iph 2)
    iphlen := decodeHlv (u8 iph 0) }

/-- The part of `parse_iphdr` for a packet with an IP header. -/
def readIphdr (iphoff : Nat) : Parse Unit := do
  if sizeofIp4hdr ≤ (← left iphoff) then
    let iph ← load iphoff sizeofIp4hdr
    modify (setIp iph)
    let iphlen := (← get).iphlen.toNat
    if iphlen ≤ (← left iphoff) then modify fun p => { p with l4hdrPtr := some (iphoff + iphlen) }
  else modify fun p => { p with pkttype := kPktTypeRuntL3, portsParsed := true, l4hdrParsed := true }

/-- `parse_iphdr` -/
def parseIphdr : Parse Unit := do
  if (← get).iphdrParsed then return
  else
    parseMac
    (← get).iphdrPtr.forM readIphdr
    modify fun p => { p with iphdrParsed := true }

/-- The ports are set from their bytes. -/
def setPorts (ph : List UInt8) (p : Packet) : Packet :=
  { p with key := { p.key with src_port := ntohs (u16 ph 0), dst_port := ntohs (u16 ph 2) } }

/-- The payload behind a header of `n` bytes. The length is computed with `int` and kept as a `size_t`. -/
def setPayload (l4hoff n : Nat) (p : Packet) : Packet :=
  { p with
    l4payloadPtr := some (l4hoff + n)
    payloadLen := Bytes.unsigned (2 ^ 64) ((p.iplen.toNat : Int) - p.iphlen.toNat - n) }

/-- The length of UDP is set from its bytes. -/
def setUdplen (uh : List UInt8) (p : Packet) : Packet := { p with udplen := ntohs (u16 uh 4) }

/-- The part of `parse_ports` for a packet with a layer 4 header. -/
def readPorts (l4hoff : Nat) : Parse Unit := do
  let proto := (← get).key.proto
  if proto = kTCP ∨ proto = kUDP then
    if sizeofPorthdr ≤ (← left l4hoff) then
      let ph ← load l4hoff sizeofPorthdr
      modify (setPorts ph)
      if proto = kUDP then
        if sizeofUdphdr ≤ (← left l4hoff) then
          let uh ← load l4hoff sizeofUdphdr
          modify (setUdplen uh)
          modify (setPayload l4hoff sizeofUdphdr)
    else modify fun p => { p with pkttype := kPktTypeRuntL4, l4hdrParsed := true }

/-- `parse_ports` -/
def parsePorts : Parse Unit := do
  if (← get).portsParsed then return
  else
    parseIphdr
    (← get).l4hdrPtr.forM readPorts
    modify fun p => { p with portsParsed := true }

/-- What is read from the TCP header, of which the window and the urgent pointer are one byte each. -/
def setTcp (tcph : List UInt8) (p : Packet) : Packet :=
  { p with
    key := { p.key with src_port := ntohs (u16 tcph 0), dst_port := ntohs (u16 tcph 2) }
    tcpflags := u8 tcph 13
    tcpseq := ntohl (u32 tcph 4)
    tcpack := ntohl (u32 tcph 8)
    tcpurg := (u8 tcph 16).toUInt32
    tcpwin := (u8 tcph 14).toUInt32
    tcphlen := decodePayoff (u8 tcph 12) }

/-- The part of `parse_tcphdr` for a packet with a layer 4 header. -/
def readTcphdr (tcphoff : Nat) : Parse Unit := do
  if (← get).key.proto = kTCP then
    if sizeofTcphdr ≤ (← left tcphoff) then
      let tcph ← load tcphoff sizeofTcphdr
      modify (setTcp tcph)
      let tcphlen := (← get).tcphlen.toNat
      if tcphlen ≤ (← left tcphoff) then modify (setPayload tcphoff tcphlen)
    else modify fun p => { p with pkttype := kPktTypeRuntL4 }

/-- `parse_tcphdr` -/
def parseTcphdr : Parse Unit := do
  if (← get).l4hdrParsed then return
  else
    parseIphdr
    (← get).l4hdrPtr.forM readTcphdr
    modify fun p => { p with l4hdrParsed := true }

end Packet

/-! ## Accessors -/

/-- The accessors that parse. -/
inductive Accessor where
  | iphdr
  | l4hdr
  | payload
  | payloadLen
  | l3Protocol
  | ipSrc
  | ipDst
  | srcPort
  | dstPort
  | l4Protocol
  | key
  | isTcp
  | isUdp
  | ipTos
  | ipTtl
  | ipLength
  | ipHeaderLength
  | tcpFlags
  | tcpHasSyn
  | tcpHasAck
  | tcpHasFin
  | tcpHasRst
  | tcpHasPsh
  | tcpAck
  | tcpUrg
  | tcpSeq
  | tcpWin
  | tcpHeaderLength
  | udpLength
deriving DecidableEq

/-- What an accessor returns; `optional` is the argument that is set when the result is `true`. -/
inductive Value where
  | pointer (off : Option Nat)
  | number (n : Nat)
  | key (k : FlowKey)
  | bool (b : Bool)
  | optional (n : Option Nat)
deriving DecidableEq

namespace Packet

/-- `is_tcp` -/
def isTcp : Parse Bool := do
  parseIphdr
  return (← get).key.proto = kTCP

/-- `payload` -/
def payload : Parse (Option Nat) := do
  if ← isTcp then parseTcphdr else parsePorts
  return (← get).l4payloadPtr

/-- A parser and a member. -/
def after (parser : Parse Unit) (member : Packet → Value) : Parse Value := do
  parser
  return member (← get)

/-- A flag in the TCP flags. -/
def hasFlag (flag : UInt8) (p : Packet) : Bool := p.tcpflags &&& flag ≠ 0

end Packet

open Blockmon.Messages.Packet in
/-- The call of an accessor. -/
def Accessor.call : Accessor → Parse Value
  | .iphdr => after parseMac fun p => .pointer p.iphdrPtr
  | .l4hdr => after parseIphdr fun p => .pointer p.l4hdrPtr
  | .payload => return .pointer (← Packet.payload)
  | .payloadLen => do
    let _ ← Packet.payload
    return .number (← get).payloadLen
  | .l3Protocol => after parseMac fun p => .number p.pkttype.toNat
  | .ipSrc => after parseIphdr fun p => .number p.key.src_ip4.toNat
  | .ipDst => after parseIphdr fun p => .number p.key.dst_ip4.toNat
  | .srcPort => after parsePorts fun p => .number p.key.src_port.toNat
  | .dstPort => after parsePorts fun p => .number p.key.dst_port.toNat
  | .l4Protocol => after parseIphdr fun p => .number p.key.proto.toNat
  | .key => after parsePorts fun p => .key p.key
  | .isTcp => return .bool (← Packet.isTcp)
  | .isUdp => after parseIphdr fun p => .bool (p.key.proto = kUDP)
  | .ipTos => after parseIphdr fun p => .number p.iptos.toNat
  | .ipTtl => after parseIphdr fun p => .number p.ipttl.toNat
  | .ipLength => after parseIphdr fun p => .number p.iplen.toNat
  | .ipHeaderLength => after parseIphdr fun p => .number p.iphlen.toNat
  | .tcpFlags => after parseTcphdr fun p => .number p.tcpflags.toNat
  | .tcpHasSyn => after parseTcphdr fun p => .bool (hasFlag kSYN p)
  | .tcpHasAck => after parseTcphdr fun p => .bool (hasFlag kACK p)
  | .tcpHasFin => after parseTcphdr fun p => .bool (hasFlag kFIN p)
  | .tcpHasRst => after parseTcphdr fun p => .bool (hasFlag kRST p)
  | .tcpHasPsh => after parseTcphdr fun p => .bool (hasFlag kPSH p)
  | .tcpAck => after parseTcphdr fun p => .optional (if hasFlag kACK p then some p.tcpack.toNat else none)
  | .tcpUrg => after parseTcphdr fun p => .optional (if hasFlag kURG p then some p.tcpurg.toUInt8.toNat else none)
  | .tcpSeq => after parseTcphdr fun p => .number p.tcpseq.toNat
  | .tcpWin => after parseTcphdr fun p => .number p.tcpwin.toNat
  | .tcpHeaderLength => after parseTcphdr fun p => .number p.tcphlen.toNat
  | .udpLength => after parsePorts fun p => .number p.udplen.toNat

/-- A sequence of accessor calls. -/
def callAll (as : List Accessor) : Parse Unit := forM as fun a => do let _ ← a.call

end Blockmon.Messages
