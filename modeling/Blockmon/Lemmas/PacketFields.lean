import Blockmon.PacketFilter
import Blockmon.Theorems.Packet
import Blockmon.Lemmas.Payload

/-!
# The fields of a captured packet

A packet whose headers up to the payload have been captured: whatever accessors were called before, the type is the one of IPv4 and the fields are
those of the headers. The parsers change the type only of a packet that is too short.
-/

namespace Blockmon.Messages

/-- The fields that a packet can be selected by. -/
structure Fields where
  l3Protocol : UInt16
  ipSrc : UInt32
  ipDst : UInt32
  l4Protocol : UInt8
  srcPort : UInt16
  dstPort : UInt16

/-- The fields in the headers of an IPv4 packet. -/
def fieldsAt (bytes : List UInt8) (iphoff : Nat) : Fields where
  l3Protocol := Packet.kPktTypeIP4
  ipSrc := ntohl (u32 bytes (iphoff + 12))
  ipDst := ntohl (u32 bytes (iphoff + 16))
  l4Protocol := ipProto bytes iphoff
  srcPort := ntohs (u16 bytes (iphoff + ipHeaderLength bytes iphoff))
  dstPort := ntohs (u16 bytes (iphoff + ipHeaderLength bytes iphoff + 2))

namespace Packet

variable {p q s : Packet}

/-! ## The packet type -/

/-- The IP header does not change the type of the packet. -/
theorem pkttype_readIp {iphoff : Nat} (hlen : sizeofIp4hdr ≤ q.caplen - iphoff) : (readIp iphoff q).pkttype = q.pkttype := by
  unfold readIp
  rw [if_pos hlen]
  dsimp only
  split <;> rfl

/-- The ports do not change the type of the packet. -/
theorem pkttype_readPort {l4hoff : Nat} (hlen : sizeofPorthdr ≤ q.caplen - l4hoff) : (readPort l4hoff q).pkttype = q.pkttype := by
  unfold readPort
  by_cases hproto : q.key.proto = kTCP ∨ q.key.proto = kUDP
  · rw [if_pos hproto, if_pos hlen]
    dsimp only
    split
    · unfold readUdp
      split <;> rfl
    · rfl
  · rw [if_neg hproto]

/-- TCP does not change the type of the packet. -/
theorem pkttype_readTcp {tcphoff : Nat} (hlen : q.key.proto = kTCP → sizeofTcphdr ≤ q.caplen - tcphoff) :
    (readTcp tcphoff q).pkttype = q.pkttype := by
  unfold readTcp
  split
  · rename_i ht
    rw [if_pos (hlen ht)]
    dsimp only
    split <;> rfl
  · rfl

/-- An IPv4 packet whose layer 4 header is captured, as far as the parsers need it. -/
structure Typed (l4off : Nat) (q : Packet) : Prop where
  pkttype : q.pkttype = kPktTypeIP4
  iphdrParsed : q.iphdrParsed = true
  l4hdrPtr : q.l4hdrPtr = some l4off
  ports : sizeofPorthdr ≤ q.caplen - l4off
  tcp : q.key.proto = kTCP → sizeofTcphdr ≤ q.caplen - l4off

variable {l4off : Nat}

/-- The type does not depend on what the view of the IP header does not show. -/
theorem Typed.of_ipView (h : Typed l4off q) (hview : ipView s = ipView q) (hparsed : s.iphdrParsed = true) (htype : s.pkttype = q.pkttype) :
    Typed l4off s := by
  have hbuffer : s.buffer = q.buffer := congrArg (fun v => v.1.1) hview
  have hptr : s.l4hdrPtr = q.l4hdrPtr := congrArg (fun v => v.1.2.2) hview
  have hproto : s.key.proto = q.key.proto := congrArg (fun v => v.2.1.2.2) hview
  refine ⟨htype.trans h.pkttype, hparsed, hptr.trans h.l4hdrPtr, ?_, ?_⟩
  · rw [caplen_congr hbuffer]
    exact h.ports
  · rw [caplen_congr hbuffer, hproto]
    exact h.tcp

/-- The parser of the ports keeps the type. -/
theorem Typed.parsePorts (h : Typed l4off q) : Typed l4off q.ports := by
  refine h.of_ipView (frame_ports h.iphdrParsed).1 (frame_ports h.iphdrParsed).2.2.2.1 ?_
  cases hparsed : q.portsParsed with
  | true => rw [ports_of_parsed hparsed]
  | false =>
    rw [ports_of_ptr h.iphdrParsed hparsed h.l4hdrPtr]
    exact pkttype_readPort h.ports

/-- The parser of TCP keeps the type. -/
theorem Typed.parseTcp (h : Typed l4off q) : Typed l4off q.tcp := by
  refine h.of_ipView (frame_tcp h.iphdrParsed).1 (frame_tcp h.iphdrParsed).2.2.1 ?_
  cases hparsed : q.l4hdrParsed with
  | true => rw [tcp_of_parsed hparsed]
  | false =>
    rw [tcp_of_ptr h.iphdrParsed hparsed h.l4hdrPtr]
    exact pkttype_readTcp h.tcp

/-! ## Captured headers -/

section Captured

variable (h : p.Fresh) (hmac : p.mactype = kEthernet ∨ p.mactype = kRawIP) {iphoff n : Nat}
  (hheaders : HeadersAt p.mactype p.buffer.bytes iphoff n)

include hheaders

/-- There is enough for the ports, and with TCP for the rest of the header. -/
theorem captured_le : iphoff + ipHeaderLength p.buffer.bytes iphoff + sizeofUdphdr ≤ p.caplen ∧
    (ipProto p.buffer.bytes iphoff = kTCP → iphoff + ipHeaderLength p.buffer.bytes iphoff + sizeofTcphdr ≤ p.caplen) := by
  have hl4hdr := hheaders.l4hdr
  have hle : sizeofUdphdr ≤ sizeofTcphdr := by decide
  unfold caplen
  rcases hheaders.l4 with ⟨ht, htcp, -⟩ | ⟨hu, hn⟩
  · exact ⟨by omega, fun _ => htcp⟩
  · refine ⟨by rw [hn] at hl4hdr; exact hl4hdr, fun ht => ?_⟩
    rw [hu] at ht
    exact absurd ht kUDP_ne_kTCP

include h hmac

/-- What the packet has of a captured IP header. -/
theorem Fresh.ipView_captured : ipView p.ip = ((p.buffer, some iphoff, some (iphoff + ipHeaderLength p.buffer.bytes iphoff)),
    (ntohl (u32 p.buffer.bytes (iphoff + 12)), ntohl (u32 p.buffer.bytes (iphoff + 16)), ipProto p.buffer.bytes iphoff),
    u8 p.buffer.bytes (iphoff + 1), u8 p.buffer.bytes (iphoff + 8), ntohs (u16 p.buffer.bytes (iphoff + 2)),
    decodeHlv (u8 p.buffer.bytes iphoff)) := by
  have hle := (captured_le hheaders).1
  rw [h.ipView_at hmac hheaders.ip hheaders.iphdr]
  unfold ipViewAt
  dsimp only
  rw [if_pos (by omega)]

/-- What the packet has of captured ports. -/
theorem Fresh.portsView_captured : (p.ports.key.src_port, p.ports.key.dst_port) =
    ((fieldsAt p.buffer.bytes iphoff).srcPort, (fieldsAt p.buffer.bytes iphoff).dstPort) := by
  have hview := h.ipView_captured hmac hheaders
  have hbuffer : p.ip.buffer = p.buffer := congrArg (fun v => v.1.1) hview
  have hptr : p.ip.l4hdrPtr = some (iphoff + ipHeaderLength p.buffer.bytes iphoff) := congrArg (fun v => v.1.2.2) hview
  have hproto : p.ip.key.proto = ipProto p.buffer.bytes iphoff := congrArg (fun v => v.2.1.2.2) hview
  have hle := (captured_le hheaders).1
  have hl4 : p.ip.key.proto = kTCP ∨ p.ip.key.proto = kUDP := by
    rw [hproto]
    exact hheaders.l4.imp (fun ht => ht.1) fun hu => hu.1
  have hread : portsView p.ports = ((fieldsAt p.buffer.bytes iphoff).srcPort, (fieldsAt p.buffer.bytes iphoff).dstPort,
      if p.ip.key.proto = kUDP then ntohs (u16 p.buffer.bytes (iphoff + ipHeaderLength p.buffer.bytes iphoff + 4)) else p.ip.udplen) := by
    rw [h.portsView_ptr hptr hl4 (by rw [caplen_congr hbuffer]; omega), hbuffer]
    rfl
  exact Prod.ext (congrArg (fun v => v.1) hread) (congrArg (fun v => v.2.1) hread)

/-- What the packet has of a captured MAC header. -/
theorem Fresh.mac_captured : p.mac = { p with pkttype := kPktTypeIP4, iphdrPtr := some iphoff, machdrParsed := true } := by
  have hheader := (macHeader_iff hmac hheaders.iphdr).mpr hheaders.ip
  rcases h.mac_cases with ⟨off, hheader', hparsed⟩ | ⟨hnone, -⟩
  · rw [hheader] at hheader'
    rw [hparsed, (Prod.mk.inj (Option.some.inj hheader')).2]
  · exact absurd hheader (hnone iphoff)

/-- A captured header is of IP. -/
theorem Fresh.typed_ip : Typed (iphoff + ipHeaderLength p.buffer.bytes iphoff) p.ip := by
  have hview := h.ipView_captured hmac hheaders
  have hbuffer : p.ip.buffer = p.buffer := congrArg (fun v => v.1.1) hview
  have hproto : p.ip.key.proto = ipProto p.buffer.bytes iphoff := congrArg (fun v => v.2.1.2.2) hview
  obtain ⟨hle, htcp⟩ := captured_le hheaders
  have hlen : sizeofPorthdr ≤ sizeofUdphdr := by decide
  refine ⟨?_, h.ipParsed.iphdrParsed, congrArg (fun v => v.1.2.2) hview, ?_, fun ht => ?_⟩
  · have hcaptured : sizeofIp4hdr ≤ p.mac.caplen - iphoff := by
      have hiphdr := hheaders.iphdr
      rw [caplen_congr (buffer_mac p)]
      unfold caplen
      omega
    rw [h.ip_eq, h.mac_captured hmac hheaders]
    exact pkttype_readIp (q := { p with pkttype := kPktTypeIP4, iphdrPtr := some iphoff, machdrParsed := true })
      (by rw [h.mac_captured hmac hheaders] at hcaptured; exact hcaptured)
  · rw [caplen_congr hbuffer]
    omega
  · rw [caplen_congr hbuffer]
    have := htcp (hproto.symm.trans ht)
    omega

/-- The type of a captured packet after any accessors. -/
theorem Fresh.pkttype_stage (hs : Stage p s) : s.mac.pkttype = kPktTypeIP4 := by
  have hip := h.typed_ip hmac hheaders
  have htype : p.mac.pkttype = kPktTypeIP4 := by rw [h.mac_captured hmac hheaders]
  have hports := hip.parsePorts
  have htcp := hip.parseTcp
  rw [h.ports_eq] at hports
  rw [h.tcp_eq] at htcp
  rcases h.stage_cases hs with rfl | rfl | ⟨hmac', -, -⟩
  · exact htype
  · rw [h.mac_mac]
    exact htype
  rw [hmac']
  cases hs with
  | fresh =>
    rw [← hmac']
    exact htype
  | mac => exact htype
  | ip => exact hip.pkttype
  | ports => exact hports.pkttype
  | tcp => exact htcp.pkttype
  | portsTcp => exact hports.parseTcp.pkttype
  | tcpPorts => exact htcp.parsePorts.pkttype

end Captured

/-! ## The accessors -/

section Accessors

open Exn

variable {α : Type}

/-- A member is read in every stage. -/
theorem yields_member {parser : Parse Unit} {read : Packet → α} {stage : Packet → Packet} {a : α}
    (hrun : ∀ s, Stage p s → parser.run s = .ok () (stage s)) (hstage : ∀ s, Stage p s → Stage p (stage s) ∧ read (stage s) = a) :
    Yields (Stage p) (member parser read) (.ok a) := by
  intro s hs
  obtain ⟨hs', hread⟩ := hstage s hs
  refine ⟨stage s, hs', ?_⟩
  unfold member
  rw [Exn.run_bind_of_ok (hrun s hs), ← hread]
  rfl

variable (h : p.Fresh) (hmac : p.mactype = kEthernet ∨ p.mactype = kRawIP) {iphoff n : Nat}
  (hheaders : HeadersAt p.mactype p.buffer.bytes iphoff n)

include h hmac hheaders

/-- The protocol above Ethernet. -/
theorem yields_l3Protocol : Yields (Stage p) l3Protocol (.ok (fieldsAt p.buffer.bytes iphoff).l3Protocol) :=
  yields_member (fun _ _ => run_parseMac) fun _ hs => ⟨(h.stage_mac hs).1, h.pkttype_stage hmac hheaders hs⟩

omit hmac hheaders in
/-- The accessors that need the IP header. -/
theorem yields_ip {read : Packet → α} (hread : ∀ s : Packet, ipView s = ipView p.ip → read s = read p.ip) :
    Yields (Stage p) (member parseIphdr read) (.ok (read p.ip)) :=
  yields_member (fun _ hs => run_parseIphdr (h.inBounds_of_stage hs)) fun s hs => ⟨(h.stage_ip hs).1, hread s.ip (h.stage_ip hs).2⟩

/-- The source address. -/
theorem yields_ipSrc : Yields (Stage p) ipSrc (.ok (fieldsAt p.buffer.bytes iphoff).ipSrc) := by
  have hfield : p.ip.key.src_ip4 = (fieldsAt p.buffer.bytes iphoff).ipSrc := congrArg (fun v => v.2.1.1) (h.ipView_captured hmac hheaders)
  rw [← hfield]
  exact yields_ip h fun s hview => congrArg (fun v => v.2.1.1) hview

/-- The destination address. -/
theorem yields_ipDst : Yields (Stage p) ipDst (.ok (fieldsAt p.buffer.bytes iphoff).ipDst) := by
  have hfield : p.ip.key.dst_ip4 = (fieldsAt p.buffer.bytes iphoff).ipDst := congrArg (fun v => v.2.1.2.1) (h.ipView_captured hmac hheaders)
  rw [← hfield]
  exact yields_ip h fun s hview => congrArg (fun v => v.2.1.2.1) hview

/-- The protocol above IP. -/
theorem yields_l4Protocol : Yields (Stage p) l4Protocol (.ok (fieldsAt p.buffer.bytes iphoff).l4Protocol) := by
  have hfield : p.ip.key.proto = (fieldsAt p.buffer.bytes iphoff).l4Protocol := congrArg (fun v => v.2.1.2.2) (h.ipView_captured hmac hheaders)
  rw [← hfield]
  exact yields_ip h fun s hview => congrArg (fun v => v.2.1.2.2) hview

/-- The test for UDP. -/
theorem yields_isUdp : Yields (Stage p) isUdp (.ok (decide ((fieldsAt p.buffer.bytes iphoff).l4Protocol = kUDP))) := by
  have hfield : p.ip.key.proto = (fieldsAt p.buffer.bytes iphoff).l4Protocol := congrArg (fun v => v.2.1.2.2) (h.ipView_captured hmac hheaders)
  rw [← hfield]
  have hread : ∀ s : Packet, ipView s = ipView p.ip → decide (s.key.proto = kUDP) = decide (p.ip.key.proto = kUDP) := fun s hview =>
    congrArg (fun v => decide (v.2.1.2.2 = kUDP)) hview
  exact yields_ip h hread

/-- The test for TCP. -/
theorem yields_isTcp : Yields (Stage p) isTcp (.ok (decide ((fieldsAt p.buffer.bytes iphoff).l4Protocol = kTCP))) := by
  have hfield : p.ip.key.proto = (fieldsAt p.buffer.bytes iphoff).l4Protocol := congrArg (fun v => v.2.1.2.2) (h.ipView_captured hmac hheaders)
  rw [← hfield]
  have hread : ∀ s : Packet, ipView s = ipView p.ip → decide (s.key.proto = kTCP) = decide (p.ip.key.proto = kTCP) := fun s hview =>
    congrArg (fun v => decide (v.2.1.2.2 = kTCP)) hview
  exact yields_ip h hread

/-- The accessors that need the ports. -/
theorem yields_ports (read : UInt16 × UInt16 → α) : Yields (Stage p) (member parsePorts fun q => read (q.key.src_port, q.key.dst_port))
    (.ok (read ((fieldsAt p.buffer.bytes iphoff).srcPort, (fieldsAt p.buffer.bytes iphoff).dstPort))) := by
  rw [← h.portsView_captured hmac hheaders]
  refine yields_member (fun _ hs => run_parsePorts (h.inBounds_of_stage hs)) fun s hs => ⟨(h.stage_ports hs).1, ?_⟩
  exact congrArg read (congrArg (fun v => (v.1, v.2.1)) (h.stage_ports hs).2.2.1)

/-- The source port. -/
theorem yields_srcPort : Yields (Stage p) srcPort (.ok (fieldsAt p.buffer.bytes iphoff).srcPort) :=
  yields_ports h hmac hheaders Prod.fst

/-- The destination port. -/
theorem yields_dstPort : Yields (Stage p) dstPort (.ok (fieldsAt p.buffer.bytes iphoff).dstPort) :=
  yields_ports h hmac hheaders Prod.snd

end Accessors

end Packet

end Blockmon.Messages
