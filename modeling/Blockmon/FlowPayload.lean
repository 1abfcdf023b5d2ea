import Blockmon.Lib.Exn
import Blockmon.Lib.StableSort

/-!
# The payload of a flow (`messages/Flow.cpp`, `messages/Flow.hpp`)

A packet of the list is given by what its accessors say; they say the same at every call. `payload` are the bytes at `payload()`, and
reading outside of them is a fault of the model, so that it can be said that it does not occur. The counters of type `size_t` are natural
numbers, as the payloads lie in memory; the length of a payload is a difference of `size_t`, and the sequence numbers are of 32 bits.
-/

namespace Blockmon.Messages

/-- The protocol of the packet, as far as `get_payload` asks. -/
inductive L4 where
  | tcp
  | udp
  | other
deriving DecidableEq

/-- What the code reads of a packet of the flow, and its payload bytes. -/
structure FlowPacket where
  l4 : L4
  tcpHasSyn : Bool
  tcpSeq : UInt32
  ipLength : UInt16
  ipHeaderLength : UInt8
  tcpHeaderLength : UInt8
  udpLength : UInt16
  payload : List UInt8
deriving DecidableEq

/-- The exceptions of `get_payload` and a read behind the bytes of a payload. -/
inductive FlowError where
  | runtimeError (what : String)
  | outOfPayload
deriving DecidableEq

/-- `m_flow_packets` and `m_list_sorted`. -/
structure FlowPayload where
  flowPackets : List FlowPacket
  listSorted : Bool
deriving DecidableEq

namespace FlowPacket

/-- `is_tcp` -/
def isTcp (p : FlowPacket) : Bool := p.l4 = .tcp

/-- `is_udp` -/
def isUdp (p : FlowPacket) : Bool := p.l4 = .udp

/-- `sizeof(udphdr)`. -/
def sizeofUdphdr : Int := 8

/-- The difference as a `size_t`. -/
def sizeT (n : Int) : Nat := (n % 2 ^ 64).toNat

/-- `payload_len` of the packet as `Flow.cpp` computes it, in `size_t` -/
def payloadLength (p : FlowPacket) : Except FlowError Nat :=
  if p.isTcp then .ok (sizeT (p.ipLength.toNat - p.ipHeaderLength.toNat - p.tcpHeaderLength.toNat))
  else if p.isUdp then .ok (sizeT (p.udpLength.toNat - sizeofUdphdr))
  else .error (.runtimeError "FlowMeter: subsequent packet in flow neither TCP nor UDP")

/-- `memcpy` from `payload() + payload_offset`. -/
def read (p : FlowPacket) (payloadOffset nbytes : Nat) : Except FlowError (List UInt8) :=
  if payloadOffset + nbytes ≤ p.payload.length then .ok ((p.payload.drop payloadOffset).take nbytes) else .error .outOfPayload

end FlowPacket

/-! ## The sorting phase -/

/-- The values of `packet_type` in `get_payload` -/
inductive PacketType where
  | packetsTcp
  | packetsUdp
  | packetsUnknown
deriving DecidableEq

/-- The variables of the loop over the unsorted list; `syn` is the place of a packet in the list, or nothing for its end. -/
structure Scan where
  packetType : PacketType
  syn : Option Nat
  first : Bool

namespace Scan

/-- Before the first packet: no type, no SYN. -/
def init : Scan := { packetType := .packetsUnknown, syn := none, first := true }

/-- The packet that decides the type is not asked for its SYN. -/
def step (s : Scan) (i : FlowPacket × Nat) : Except FlowError Scan :=
  if !i.1.isTcp && !i.1.isUdp then
    .error (.runtimeError "FlowMeter: can get flow payload only for TCP or UDP flows at the moment")
  else if s.packetType = .packetsUnknown then
    .ok { s with packetType := if i.1.isTcp then .packetsTcp else .packetsUdp, first := false }
  else if s.packetType = .packetsUdp ∧ i.1.isTcp ∨ s.packetType = .packetsTcp ∧ i.1.isUdp then
    .error (.runtimeError "FlowMeter: flow contains both TCP and UDP packets")
  else if s.packetType = .packetsUdp ∧ !s.first then
    .error (.runtimeError "FlowMeter: flow contains more than one UDP packet")
  else if s.packetType = .packetsTcp ∧ i.1.tcpHasSyn then .ok { s with syn := some i.2, first := false }
  else .ok { s with first := false }

/-- The scan of the packets before they are sorted. -/
def loop (s : Scan) : List (FlowPacket × Nat) → Except FlowError Scan
  | [] => .ok s
  | i :: rest => do
    let s ← s.step i
    s.loop rest

end Scan

/-- The list sorted, and turned at the node that `syn` points to: the nodes before it become `last_part`. -/
def arrange (packets : List FlowPacket) (syn : Option Nat) : List FlowPacket :=
  let nodes := StableSort.sortBy (fun i => i.1.tcpSeq.toNat) packets.zipIdx
  let lastPart := nodes.takeWhile fun i => some i.2 ≠ syn
  ((nodes.dropWhile fun i => some i.2 ≠ syn) ++ lastPart).map Prod.fst

/-- The packet list as the copy loop sees it: sorted for TCP, as it stands for UDP. -/
def sorted (packets : List FlowPacket) : Except FlowError (List FlowPacket) := do
  let s ← Scan.init.loop packets.zipIdx
  if s.packetType = .packetsTcp then .ok (arrange packets s.syn) else .ok packets

/-! ## The copy phase -/

/-- The variables of the copying loop; `buffer` is what stands before `p`. -/
structure Copy where
  effectiveOffset : Nat
  bytesSkipped : Nat
  bytesCopied : Nat
  buffer : List UInt8
  bytesRemaining : Nat
  expectedSequenceNumber : UInt32
  first : Bool
  more : Bool

namespace Copy

/-- The state of the copy loop before the first packet. -/
def init (offset nbytes : Nat) : Copy :=
  { effectiveOffset := offset, bytesSkipped := 0, bytesCopied := 0, buffer := [], bytesRemaining := nbytes,
    expectedSequenceNumber := 0, first := true, more := true }

/-- What is done at the first packet. -/
def atFirst (c : Copy) (packet : FlowPacket) : Except FlowError Copy :=
  if !c.first then .ok c
  else if packet.isUdp then .ok { c with effectiveOffset := 0, first := false }
  else if packet.isTcp then
    if packet.tcpHasSyn then .ok { c with expectedSequenceNumber := packet.tcpSeq, first := false }
    else .ok { c with more := false, first := false }
  else .error (.runtimeError "FlowMeter: can get flow payload only for TCP or UDP flows at the moment")

/-- The bytes of a packet, copied or skipped. -/
def copy (c : Copy) (offset : Nat) (packet : FlowPacket) (payloadLength : Nat) : Except FlowError Copy :=
  if c.bytesSkipped + c.bytesCopied + payloadLength > c.effectiveOffset then do
    let bytesToCopy := min c.bytesRemaining payloadLength
    let payloadOffset := if c.bytesSkipped + c.bytesCopied = 0 then c.effectiveOffset else 0
    let bytes ← packet.read payloadOffset bytesToCopy
    .ok { c with
      bytesCopied := c.bytesCopied + bytesToCopy
      bytesRemaining := c.bytesRemaining - bytesToCopy
      buffer := c.buffer ++ bytes
      bytesSkipped := offset }
  else .ok { c with bytesSkipped := c.bytesSkipped + payloadLength }

/-- The look for a hole, which comes after the packet's own bytes. -/
def follow (c : Copy) (packet : FlowPacket) (payloadLength : Nat) : Except FlowError Copy :=
  if packet.isTcp then
    if packet.tcpSeq = c.expectedSequenceNumber then
      .ok { c with expectedSequenceNumber := c.expectedSequenceNumber + UInt32.ofNat (payloadLength + 1) }
    else .ok { c with more := false }
  else if packet.isUdp then .ok { c with more := false }
  else .error (.runtimeError "FlowMeter: subsequent packet in flow neither TCP nor UDP (can't happen, but apparently did)")

/-- One packet of the copy loop. -/
def step (c : Copy) (offset : Nat) (packet : FlowPacket) : Except FlowError Copy := do
  let c ← c.atFirst packet
  let payloadLength ← packet.payloadLength
  if c.more then do
    let c ← c.copy offset packet payloadLength
    c.follow packet payloadLength
  else .ok c

/-- The copy loop: it stops at the first hole and when the bytes asked for are there. -/
def loop (c : Copy) (offset : Nat) : List FlowPacket → Except FlowError Copy
  | [] => .ok c
  | packet :: rest =>
    if c.more && 0 < c.bytesRemaining then do
      let c ← c.step offset packet
      c.loop offset rest
    else .ok c

end Copy

namespace FlowPayload

/-- The constructors that take no list. -/
def new : FlowPayload := { flowPackets := [], listSorted := false }

/-- The list is sorted once. -/
def sortPackets : EStateM FlowError FlowPayload PUnit := fun f =>
  if f.listSorted then .ok ⟨⟩ f
  else
    match sorted f.flowPackets with
    | .ok packets => .ok ⟨⟩ { flowPackets := packets, listSorted := true }
    | .error e => .error e f

/-- What is copied into the buffer, and the value returned. -/
def getPayload (offset nbytes : Nat) : EStateM FlowError FlowPayload (List UInt8 × Nat) := do
  let f ← get
  if f.flowPackets = [] then pure ([], 0)
  else do
    sortPackets
    let f ← get
    let c ← ofExcept ((Copy.init offset nbytes).loop offset f.flowPackets)
    pure (c.buffer, c.bytesCopied)

/-- `add_packet` -/
def addPacket (f : FlowPayload) (p : FlowPacket) : FlowPayload := { f with flowPackets := f.flowPackets ++ [p] }

/-- The members of the copy. -/
def clone (f : FlowPayload) : FlowPayload := { new with flowPackets := f.flowPackets, listSorted := f.listSorted }

/-- The object as new. -/
def reset (_ : FlowPayload) : FlowPayload := { flowPackets := [], listSorted := false }

end FlowPayload

end Blockmon.Messages
