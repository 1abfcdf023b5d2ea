import Blockmon.Lemmas.PacketOrder

/-!
# Accessors of a packet

Whatever accessors are called, and in whatever order: nothing outside of the captured bytes is read, and an accessor returns the same
value. The exception is `l3_protocol`, which returns the packet type, where the later parsers note that a packet is too short.
-/

namespace Blockmon.Messages

namespace Packet

variable {p q s : Packet}

/-! ## Pointers -/

/-- In every stage of a fresh packet the offsets are inside. -/
theorem Fresh.inBounds_of_stage (h : p.Fresh) (hs : Stage p s) : s.InBounds := by
  cases hs with
  | fresh => exact h.inBounds
  | mac => exact h.inBounds.mac
  | ip => exact h.inBounds.ip
  | ports => exact h.inBounds.ports
  | tcp => exact h.inBounds.tcp
  | portsTcp => exact h.inBounds.ports.tcp
  | tcpPorts => exact h.inBounds.tcp.ports

/-- The bytes stay those of the packet. -/
theorem buffer_mac (p : Packet) : p.mac.buffer = p.buffer := by
  unfold mac
  split
  · rfl
  · split
    · rfl
    · split <;> rfl

/-- The bytes stay those of the packet. -/
theorem Fresh.buffer_ip (h : p.Fresh) : p.ip.buffer = p.buffer := by
  rw [h.ip_eq, ← buffer_mac p]
  cases p.mac.iphdrPtr with
  | none => rfl
  | some off => exact frame_readIp Packet.buffer (fun _ _ => rfl) (fun _ _ => rfl) (fun _ => rfl) off p.mac

/-- In every stage the bytes are those of the packet. -/
theorem Fresh.buffer_of_stage (h : p.Fresh) (hs : Stage p s) : s.buffer = p.buffer := by
  rcases h.stage_cases hs with rfl | rfl | ⟨-, -, hview⟩
  · rfl
  · exact buffer_mac p
  · exact (congrArg (fun v => v.1.1) hview).trans h.buffer_ip

end Packet

/-! ## What an accessor returns -/

open Blockmon.Messages.Packet

/-- The packet that an accessor leaves. -/
def Accessor.stage : Accessor → Packet → Packet
  | .iphdr | .l3Protocol => Packet.mac
  | .l4hdr | .ipSrc | .ipDst | .l4Protocol | .isTcp | .isUdp | .ipTos | .ipTtl | .ipLength | .ipHeaderLength => Packet.ip
  | .srcPort | .dstPort | .key | .udpLength => Packet.ports
  | .tcpFlags | .tcpHasSyn | .tcpHasAck | .tcpHasFin | .tcpHasRst | .tcpHasPsh | .tcpAck | .tcpUrg | .tcpSeq | .tcpWin
  | .tcpHeaderLength => Packet.tcp
  | .payload | .payloadLen => payloadStage

/-- The value that it reads there. -/
def Accessor.read : Accessor → Packet → Value
  | .iphdr, p => .pointer p.iphdrPtr
  | .l4hdr, p => .pointer p.l4hdrPtr
  | .payload, p => .pointer p.l4payloadPtr
  | .payloadLen, p => .number p.payloadLen
  | .l3Protocol, p => .number p.pkttype.toNat
  | .ipSrc, p => .number p.key.src_ip4.toNat
  | .ipDst, p => .number p.key.dst_ip4.toNat
  | .srcPort, p => .number p.key.src_port.toNat
  | .dstPort, p => .number p.key.dst_port.toNat
  | .l4Protocol, p => .number p.key.proto.toNat
  | .key, p => .key p.key
  | .isTcp, p => .bool (p.key.proto = kTCP)
  | .isUdp, p => .bool (p.key.proto = kUDP)
  | .ipTos, p => .number p.iptos.toNat
  | .ipTtl, p => .number p.ipttl.toNat
  | .ipLength, p => .number p.iplen.toNat
  | .ipHeaderLength, p => .number p.iphlen.toNat
  | .tcpFlags, p => .number p.tcpflags.toNat
  | .tcpHasSyn, p => .bool (hasFlag kSYN p)
  | .tcpHasAck, p => .bool (hasFlag kACK p)
  | .tcpHasFin, p => .bool (hasFlag kFIN p)
  | .tcpHasRst, p => .bool (hasFlag kRST p)
  | .tcpHasPsh, p => .bool (hasFlag kPSH p)
  | .tcpAck, p => .optional (if hasFlag kACK p then some p.tcpack.toNat else none)
  | .tcpUrg, p => .optional (if hasFlag kURG p then some p.tcpurg.toUInt8.toNat else none)
  | .tcpSeq, p => .number p.tcpseq.toNat
  | .tcpWin, p => .number p.tcpwin.toNat
  | .tcpHeaderLength, p => .number p.tcphlen.toNat
  | .udpLength, p => .number p.udplen.toNat

/-- A member after its parser. -/
theorem run_after {p q : Packet} {parser : Parse Unit} (h : parser.run p = .ok () q) (member : Packet → Value) :
    (after parser member).run p = .ok (member q) q := by
  unfold after
  rw [Exn.run_bind_of_ok h]
  rfl

/-- The test for TCP. -/
theorem run_isTcp {p : Packet} (h : p.InBounds) : Packet.isTcp.run p = .ok (p.ip.key.proto = kTCP) p.ip := by
  unfold Packet.isTcp
  rw [Exn.run_bind_of_ok (run_parseIphdr h)]
  rfl

/-- The payload's pointer. -/
theorem run_payload {p : Packet} (h : p.InBounds) : Packet.payload.run p = .ok (payloadStage p).l4payloadPtr (payloadStage p) := by
  unfold Packet.payload payloadStage
  rw [Exn.run_bind_of_ok (run_isTcp h)]
  by_cases ht : p.ip.key.proto = kTCP
  · rw [if_pos ht, if_pos (by simpa using ht), Exn.run_bind_of_ok (run_parseTcphdr h.ip)]
    rfl
  · rw [if_neg ht, if_neg (by simpa using ht), Exn.run_bind_of_ok (run_parsePorts h.ip)]
    rfl

/-- An accessor reads in its stage. -/
theorem run_call {p : Packet} (h : p.InBounds) (a : Accessor) : a.call.run p = .ok (a.read (a.stage p)) (a.stage p) := by
  have hmac := run_parseMac (p := p)
  have hip := run_parseIphdr h
  have hports := run_parsePorts h
  have htcp := run_parseTcphdr h
  cases a with
  | payload => exact Exn.run_bind_of_ok (run_payload h)
  | payloadLen => exact Exn.run_bind_of_ok (run_payload h)
  | isTcp => exact Exn.run_bind_of_ok (run_isTcp h)
  | iphdr => exact run_after hmac _
  | l3Protocol => exact run_after hmac _
  | l4hdr => exact run_after hip _
  | ipSrc => exact run_after hip _
  | ipDst => exact run_after hip _
  | l4Protocol => exact run_after hip _
  | isUdp => exact run_after hip _
  | ipTos => exact run_after hip _
  | ipTtl => exact run_after hip _
  | ipLength => exact run_after hip _
  | ipHeaderLength => exact run_after hip _
  | srcPort => exact run_after hports _
  | dstPort => exact run_after hports _
  | key => exact run_after hports _
  | udpLength => exact run_after hports _
  | _ => exact run_after htcp _

/-- An accessor leads from one stage to another. -/
theorem Packet.Fresh.stage_stage {p s : Packet} (h : p.Fresh) (hs : Stage p s) (a : Accessor) : Stage p (a.stage s) := by
  cases a with
  | iphdr | l3Protocol => exact (h.stage_mac hs).1
  | l4hdr | ipSrc | ipDst | l4Protocol | isTcp | isUdp | ipTos | ipTtl | ipLength | ipHeaderLength => exact (h.stage_ip hs).1
  | srcPort | dstPort | key | udpLength => exact (h.stage_ports hs).1
  | payload | payloadLen => exact (h.stage_payload hs).1
  | _ => exact (h.stage_tcp hs).1

/-- Any sequence of accessor calls. -/
theorem Packet.Fresh.run_callAll {p s : Packet} (h : p.Fresh) (hs : Stage p s) (as : List Accessor) :
    ∃ s', (callAll as).run s = .ok () s' ∧ Stage p s' := by
  induction as generalizing s with
  | nil => exact ⟨s, rfl, hs⟩
  | cons a as ih =>
    obtain ⟨s', hrest, hs'⟩ := ih (h.stage_stage hs a)
    have ha : (do let _ ← a.call : Parse Unit).run s = .ok () (a.stage s) := Exn.run_bind_of_ok (run_call (h.inBounds_of_stage hs) a)
    refine ⟨s', ?_, hs'⟩
    unfold callAll
    rw [List.forM_cons, Exn.run_bind_of_ok ha]
    exact hrest

/-- No sequence of accessor calls reads outside of the captured bytes, subtracts below zero or runs on without end; the pointers it leaves
lie between the start and the end of the buffer. -/
theorem packet_stays_inside (memory : Packet) (buffer : ConstBuffer) (macType : Int) (as : List Accessor) :
    ∃ p, (callAll as).run (Packet.new memory buffer macType) = .ok () p ∧
      (∀ off, p.iphdrPtr = some off → off ≤ buffer.bytes.length) ∧ (∀ off, p.l4hdrPtr = some off → off ≤ buffer.bytes.length) ∧
      ∀ off, p.l4payloadPtr = some off → off ≤ buffer.bytes.length := by
  have hfresh := fresh_new memory buffer macType
  obtain ⟨p, hrun, hstage⟩ := hfresh.run_callAll Stage.fresh as
  have hbuffer : p.caplen = buffer.bytes.length := congrArg (fun b => b.bytes.length) (hfresh.buffer_of_stage hstage)
  obtain ⟨hiphdr, hl4hdr, hpayload⟩ := hfresh.inBounds_of_stage hstage
  rw [hbuffer] at hiphdr hl4hdr hpayload
  exact ⟨p, hrun, hiphdr, hl4hdr, hpayload⟩

/-! ## Order -/

/-- Keys with the same addresses and ports are the same. -/
theorem key_eq {k l : FlowKey} (haddresses : (k.src_ip4, k.dst_ip4, k.proto) = (l.src_ip4, l.dst_ip4, l.proto))
    (hports : (k.src_port, k.dst_port) = (l.src_port, l.dst_port)) : k = l := by
  cases k
  cases l
  cases haddresses
  cases hports
  rfl

/-- An accessor returns the same in every state of a packet. -/
theorem Packet.Fresh.read_stage {p s : Packet} (h : p.Fresh) (hs : Stage p s) {a : Accessor} (ha : a ≠ .l3Protocol) :
    a.read (a.stage s) = a.read (a.stage p) := by
  have hmac := (h.stage_mac hs).2
  have hip := (h.stage_ip hs).2
  obtain ⟨-, hportsIp, hports, -⟩ := h.stage_ports hs
  have htcp := (h.stage_tcp hs).2.1
  have hpayload := (h.stage_payload hs).2
  cases a with
  | l3Protocol => exact absurd rfl ha
  | iphdr => exact congrArg Value.pointer hmac
  | l4hdr => exact congrArg (fun v => Value.pointer v.1.2.2) hip
  | ipSrc => exact congrArg (fun v => Value.number v.2.1.1.toNat) hip
  | ipDst => exact congrArg (fun v => Value.number v.2.1.2.1.toNat) hip
  | l4Protocol => exact congrArg (fun v => Value.number v.2.1.2.2.toNat) hip
  | isTcp => exact congrArg (fun v => Value.bool (v.2.1.2.2 = kTCP)) hip
  | isUdp => exact congrArg (fun v => Value.bool (v.2.1.2.2 = kUDP)) hip
  | ipTos => exact congrArg (fun v => Value.number v.2.2.1.toNat) hip
  | ipTtl => exact congrArg (fun v => Value.number v.2.2.2.1.toNat) hip
  | ipLength => exact congrArg (fun v => Value.number v.2.2.2.2.1.toNat) hip
  | ipHeaderLength => exact congrArg (fun v => Value.number v.2.2.2.2.2.toNat) hip
  | srcPort => exact congrArg (fun v => Value.number v.1.toNat) hports
  | dstPort => exact congrArg (fun v => Value.number v.2.1.toNat) hports
  | udpLength => exact congrArg (fun v => Value.number v.2.2.toNat) hports
  | key =>
    -- the addresses and the protocol are of the IP header, the ports are not
    have haddresses := hportsIp.trans h.ports_frame.1.symm
    exact congrArg Value.key (key_eq (congrArg (fun v => v.2.1) haddresses) (congrArg (fun v => (v.1, v.2.1)) hports))
  | payload => exact congrArg (fun v => Value.pointer v.1) hpayload
  | payloadLen => exact congrArg (fun v => Value.number v.2) hpayload
  | tcpFlags => exact congrArg (fun v => Value.number v.1.toNat) htcp
  | tcpHasSyn => exact congrArg (fun v => Value.bool (v.1 &&& kSYN ≠ 0)) htcp
  | tcpHasAck => exact congrArg (fun v => Value.bool (v.1 &&& kACK ≠ 0)) htcp
  | tcpHasFin => exact congrArg (fun v => Value.bool (v.1 &&& kFIN ≠ 0)) htcp
  | tcpHasRst => exact congrArg (fun v => Value.bool (v.1 &&& kRST ≠ 0)) htcp
  | tcpHasPsh => exact congrArg (fun v => Value.bool (v.1 &&& kPSH ≠ 0)) htcp
  | tcpAck => exact congrArg (fun v => Value.optional (if decide (v.1 &&& kACK ≠ 0) then some v.2.2.1.toNat else none)) htcp
  | tcpUrg =>
    exact congrArg (fun v => Value.optional (if decide (v.1 &&& kURG ≠ 0) then some v.2.2.2.1.toUInt8.toNat else none)) htcp
  | tcpSeq => exact congrArg (fun v => Value.number v.2.1.toNat) htcp
  | tcpWin => exact congrArg (fun v => Value.number v.2.2.2.2.1.toNat) htcp
  | tcpHeaderLength => exact congrArg (fun v => Value.number v.2.2.2.2.2.toNat) htcp

/-- What an accessor returns after others. -/
theorem Packet.Fresh.run_last {p : Packet} (h : p.Fresh) (as : List Accessor) {a : Accessor} (ha : a ≠ .l3Protocol) :
    ∃ q, (do callAll as; a.call : Parse Value).run p = .ok (a.read (a.stage p)) q := by
  obtain ⟨s, hrun, hs⟩ := h.run_callAll Stage.fresh as
  refine ⟨a.stage s, ?_⟩
  rw [Exn.run_bind_of_ok hrun, run_call (h.inBounds_of_stage hs) a, h.read_stage hs ha]

/-- What an accessor returns does not depend on the accessors that were called before it. -/
theorem accessor_order_independent (memory : Packet) (buffer : ConstBuffer) (macType : Int) (as bs : List Accessor) {a : Accessor}
    (ha : a ≠ .l3Protocol) :
    ∃ v p q, (do callAll as; a.call : Parse Value).run (Packet.new memory buffer macType) = .ok v p ∧
      (do callAll bs; a.call : Parse Value).run (Packet.new memory buffer macType) = .ok v q := by
  have hfresh := fresh_new memory buffer macType
  obtain ⟨p, hp⟩ := hfresh.run_last as ha
  obtain ⟨q, hq⟩ := hfresh.run_last bs ha
  exact ⟨_, p, q, hp, hq⟩

/-- Memory without anything in it. -/
def Packet.zeroed : Packet where
  buffer := ⟨[], by decide⟩
  mactype := 0
  iphdrPtr := none
  l4hdrPtr := none
  l4payloadPtr := none
  machdrParsed := false
  iphdrParsed := false
  portsParsed := false
  l4hdrParsed := false
  pkttype := 0
  key := ⟨0, 0, 0, 0, 0⟩
  iptos := 0
  ipttl := 0
  iplen := 0
  iphlen := 0
  tcpflags := 0
  tcpseq := 0
  tcpack := 0
  tcpurg := 0
  tcpwin := 0
  tcphlen := 0
  udplen := 0
  payloadLen := 0

/-- An IP header with the given total length and protocol, and no options. -/
def ipHeader (len : UInt16) (proto : UInt8) : List UInt8 :=
  [0x45, 0] ++ (Bytes.encode 2 len.toNat).reverse ++ [0, 0, 0, 0, 64, proto, 0, 0, 10, 0, 0, 1, 10, 0, 0, 2]

/-- The source port of a TCP packet with nothing behind its ports, when the payload is looked for before and when it is not. -/
theorem accessor_order_independent_truncated :
    ∃ v p q, (do callAll [.payload, .tcpSeq]; Accessor.srcPort.call : Parse Value).run
        (Packet.new Packet.zeroed ⟨ipHeader 40 kTCP ++ [0x12, 0x34, 0, 80], by decide⟩ kRawIP) = .ok v p ∧
      (do callAll [.l3Protocol]; Accessor.srcPort.call : Parse Value).run
        (Packet.new Packet.zeroed ⟨ipHeader 40 kTCP ++ [0x12, 0x34, 0, 80], by decide⟩ kRawIP) = .ok v q :=
  accessor_order_independent Packet.zeroed ⟨ipHeader 40 kTCP ++ [0x12, 0x34, 0, 80], by decide⟩ kRawIP [.payload, .tcpSeq] [.l3Protocol]
    (by decide)

end Blockmon.Messages
