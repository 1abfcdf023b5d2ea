import Blockmon.Lemmas.Payload

/-!
# Frames

An Ethernet frame with at most one 802.1q header that carries IPv4 and TCP or UDP, and what `Packet` reads from it.
-/

namespace Blockmon.Messages

/-- The length of the header behind the IP header, and where it is. -/
def l4Offset (bytes : List UInt8) (iphoff : Nat) : Nat := iphoff + ipHeaderLength bytes iphoff

/-- The length of the header above IP. -/
def l4HeaderLength (bytes : List UInt8) (iphoff : Nat) : Nat :=
  if ipProto bytes iphoff = Packet.kTCP then tcpHeaderLength bytes (l4Offset bytes iphoff) else sizeofUdphdr

/-- A well-formed frame that has been captured with all the bytes that its IP header counts. There may be padding behind them. -/
structure Frame extends ConstBuffer where
  tagged : Bool
  iphoff : Nat
  iphoff_eq : iphoff = if tagged then 18 else 14
  tag : tagged = true → etherType bytes 12 = Packet.kPktType1q
  type : etherType bytes (iphoff - 2) = Packet.kPktTypeIP4
  ihl_ge : sizeofIp4hdr ≤ ipHeaderLength bytes iphoff
  proto : ipProto bytes iphoff = Packet.kTCP ∨ ipProto bytes iphoff = Packet.kUDP
  doff_ge : ipProto bytes iphoff = Packet.kTCP → 20 ≤ tcpHeaderLength bytes (l4Offset bytes iphoff)
  headers_le : ipHeaderLength bytes iphoff + l4HeaderLength bytes iphoff ≤ ipLength bytes iphoff
  captured : iphoff + ipLength bytes iphoff ≤ bytes.length

namespace Frame

variable (f : Frame)

/-- Where the header above IP begins. -/
def l4off : Nat := l4Offset f.bytes f.iphoff

/-- The frame is of TCP. -/
def isTcp : Prop := ipProto f.bytes f.iphoff = Packet.kTCP

instance : Decidable f.isTcp := inferInstanceAs (Decidable (_ = _))

/-- Behind the headers. -/
def payloadOff : Nat := f.l4off + l4HeaderLength f.bytes f.iphoff

/-- The size of the payload by the lengths in the headers. -/
def payloadSize : Nat := ipLength f.bytes f.iphoff - ipHeaderLength f.bytes f.iphoff - l4HeaderLength f.bytes f.iphoff

/-- Headers end before the captured bytes do. -/
theorem payloadOff_le : f.payloadOff ≤ f.bytes.length := by
  have hheaders := f.headers_le
  have hcaptured := f.captured
  unfold payloadOff l4off l4Offset
  omega

/-- The IP header has twenty bytes at least. -/
theorem iphoff_le : f.iphoff + sizeofIp4hdr ≤ f.l4off := by
  have hihl := f.ihl_ge
  unfold l4off l4Offset
  omega

/-- The header above IP has those of UDP at least. -/
theorem l4off_le : f.l4off + sizeofUdphdr ≤ f.payloadOff := by
  unfold payloadOff l4HeaderLength sizeofUdphdr
  split
  · rename_i ht
    have hdoff := f.doff_ge ht
    unfold l4off at hdoff ⊢
    omega
  · exact Nat.le_refl _

/-- The TCP header has twenty bytes at least. -/
theorem tcp_le (ht : f.isTcp) : f.l4off + 20 ≤ f.payloadOff := by
  have hdoff := f.doff_ge ht
  unfold isTcp at ht
  unfold payloadOff l4HeaderLength
  rw [if_pos ht]
  unfold l4off
  omega

/-- The packet type behind the Ethernet addresses. -/
theorem etherType_eq : etherType f.bytes 12 = if f.tagged then Packet.kPktType1q else Packet.kPktTypeIP4 := by
  have htype := f.type
  cases htagged : f.tagged with
  | true => rw [if_pos rfl, f.tag htagged]
  | false =>
    rw [f.iphoff_eq, htagged] at htype
    exact htype

/-- A frame that is not of TCP is of UDP. -/
theorem isUdp (ht : ¬f.isTcp) : ipProto f.bytes f.iphoff = Packet.kUDP := f.proto.resolve_left ht

end Frame

namespace Packet

variable {f : Frame} {p : Packet}

/-! ## The parsers on a frame -/

/-- A packet of the frame for which no parser has run. -/
structure Of (f : Frame) (p : Packet) : Prop where
  fresh : p.Fresh
  buffer : p.buffer = f.toConstBuffer
  mactype : p.mactype = kEthernet

/-- A new packet is of the frame. -/
theorem of_new (f : Frame) (memory : Packet) : Of f (Packet.new memory f.toConstBuffer kEthernet) := ⟨fresh_new _ _ _, rfl, rfl⟩

/-- The IP header of the frame is where it says. -/
theorem ipAt_frame (f : Frame) : IpAt kEthernet f.bytes f.iphoff := by
  have hoff := f.iphoff_eq
  have htype := f.type
  right
  cases htagged : f.tagged with
  | true =>
    rw [htagged] at hoff
    refine ⟨rfl, 1, hoff, fun i hi => ?_, ?_⟩
    · rw [Nat.lt_one_iff.mp hi]
      exact f.tag htagged
    · rw [hoff] at htype
      exact htype
  | false =>
    rw [htagged] at hoff
    refine ⟨rfl, 0, hoff, fun i hi => absurd hi (Nat.not_lt_zero i), ?_⟩
    rw [hoff] at htype
    exact htype

/-- What the packet has of the IP header. -/
theorem Of.ipView_ip (h : Of f p) :
    ipView p.ip = ((f.toConstBuffer, some f.iphoff, some f.l4off),
      (ntohl (u32 f.bytes (f.iphoff + 12)), ntohl (u32 f.bytes (f.iphoff + 16)), ipProto f.bytes f.iphoff), u8 f.bytes (f.iphoff + 1),
      u8 f.bytes (f.iphoff + 8), ntohs (u16 f.bytes (f.iphoff + 2)), decodeHlv (u8 f.bytes f.iphoff)) := by
  have hip := f.iphoff_le
  have hl4 := f.l4off_le
  have hpayload := f.payloadOff_le
  have hipAt : IpAt p.mactype p.buffer.bytes f.iphoff := by
    rw [h.mactype, h.buffer]
    exact ipAt_frame f
  have hlen : f.iphoff + sizeofIp4hdr ≤ p.caplen := by
    unfold caplen
    rw [h.buffer]
    omega
  rw [h.fresh.ipView_at (Or.inl h.mactype) hipAt hlen]
  unfold ipViewAt caplen
  dsimp only
  rw [h.buffer, if_pos]
  · rfl
  · unfold Frame.l4off l4Offset at hl4
    omega

/-- The pointer to the IP header. -/
theorem Of.iphdrPtr (h : Of f p) : p.mac.iphdrPtr = some f.iphoff :=
  h.fresh.ip_iphdrPtr.symm.trans (congrArg (fun v => v.1.2.1) h.ipView_ip)

/-- The pointer to the header above. -/
theorem Of.l4hdrPtr (h : Of f p) : p.ip.l4hdrPtr = some f.l4off := congrArg (fun v => v.1.2.2) h.ipView_ip

/-- The protocol in the key. -/
theorem Of.proto (h : Of f p) : p.ip.key.proto = ipProto f.bytes f.iphoff := congrArg (fun v => v.2.1.2.2) h.ipView_ip

/-- The bytes stay those of the frame. -/
theorem Of.buffer_ip (h : Of f p) : p.ip.buffer = f.toConstBuffer := congrArg (fun v => v.1.1) h.ipView_ip

/-- What the packet has of the ports. -/
theorem Of.portsView (h : Of f p) :
    ∃ udplen, portsView p.ports = (ntohs (u16 f.bytes f.l4off), ntohs (u16 f.bytes (f.l4off + 2)), udplen) ∧
      (¬f.isTcp → udplen = ntohs (u16 f.bytes (f.l4off + 4))) := by
  have hl4 := f.l4off_le
  have hpayload := f.payloadOff_le
  have hproto : p.ip.key.proto = kTCP ∨ p.ip.key.proto = kUDP := by
    rw [h.proto]
    exact f.proto
  have hlen : sizeofUdphdr ≤ p.ip.caplen - f.l4off := by
    unfold caplen
    rw [h.buffer_ip]
    omega
  rw [h.fresh.portsView_ptr h.l4hdrPtr hproto hlen, h.buffer_ip]
  refine ⟨_, rfl, fun ht => ?_⟩
  rw [if_pos (h.proto.trans (f.isUdp ht))]

/-- What the packet has of TCP. -/
theorem Of.tcpView (h : Of f p) :
    tcpView p.tcp = if f.isTcp then
      (u8 f.bytes (f.l4off + 13), ntohl (u32 f.bytes (f.l4off + 4)), ntohl (u32 f.bytes (f.l4off + 8)),
        (u8 f.bytes (f.l4off + 16)).toUInt32, (u8 f.bytes (f.l4off + 14)).toUInt32, decodePayoff (u8 f.bytes (f.l4off + 12)))
      else Packet.tcpView p := by
  have hpayload := f.payloadOff_le
  rw [← h.fresh.tcp_eq]
  by_cases ht : f.isTcp
  · have htcp := f.tcp_le ht
    have hlen : sizeofTcphdr ≤ p.ip.caplen - f.l4off := by
      unfold caplen sizeofTcphdr
      rw [h.buffer_ip]
      omega
    rw [if_pos ht, tcp_of_ptr h.fresh.ipParsed.iphdrParsed (h.fresh.ipParsed.open h.l4hdrPtr).2 h.l4hdrPtr, tcpView_tcpDone,
      tcpView_readTcp (h.proto.trans ht) hlen, h.buffer_ip]
  · have hne : p.ip.key.proto ≠ kTCP := by
      rw [h.proto, f.isUdp ht]
      exact kUDP_ne_kTCP
    rw [if_neg ht, tcp_of_ne h.fresh.ipParsed.iphdrParsed hne, tcpView_tcpDone, h.fresh.tcpView_ip]

/-- The headers of the frame. -/
theorem headersAt_frame (f : Frame) : HeadersAt kEthernet f.bytes f.iphoff (l4HeaderLength f.bytes f.iphoff) := by
  have hip := f.iphoff_le
  have hl4 := f.l4off_le
  have hpayload := f.payloadOff_le
  refine ⟨ipAt_frame f, by omega, ?_, hpayload⟩
  unfold l4HeaderLength
  by_cases ht : f.isTcp
  · have htcp := f.tcp_le ht
    unfold Frame.isTcp at ht
    rw [if_pos ht]
    refine Or.inl ⟨ht, ?_, rfl⟩
    have hlen : f.l4off + sizeofTcphdr ≤ f.bytes.length := by
      unfold sizeofTcphdr
      omega
    exact hlen
  · rw [if_neg (show ¬ipProto f.bytes f.iphoff = kTCP from ht)]
    exact Or.inr ⟨f.isUdp ht, rfl⟩

/-- What the packet has of the payload. -/
theorem Of.payloadView (h : Of f p) : payloadView (payloadStage p) = (some f.payloadOff, f.payloadSize) := by
  have hheaders : HeadersAt p.mactype p.buffer.bytes f.iphoff (l4HeaderLength f.bytes f.iphoff) := by
    rw [h.mactype, h.buffer]
    exact headersAt_frame f
  rcases h.fresh.payload_cases (Or.inl h.mactype) with ⟨iphoff, n, hheaders', hview⟩ | ⟨hnone, -⟩
  · obtain ⟨hoff, hn⟩ := headersAt_unique (Or.inl h.mactype) hheaders' hheaders
    rw [hview, hoff, hn, h.buffer]
    have hlength := f.headers_le
    have hlt : ipLength f.bytes f.iphoff < 2 ^ 16 := UInt16.toNat_lt _
    refine Prod.ext rfl ?_
    unfold Bytes.unsigned Frame.payloadSize
    dsimp only
    omega
  · exact absurd hheaders (hnone _ _)

end Packet

end Blockmon.Messages
