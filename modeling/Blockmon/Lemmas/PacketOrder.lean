import Blockmon.Lemmas.Packet

/-!
# The parsers in any order

A parser that has run does nothing when it is called again, and one that has not yet run leaves the members of the others as they are. The
ports are written by two parsers, which find them in the same place. So a packet is in one of seven states, whatever accessors were called.
-/

namespace Blockmon.Messages

namespace Packet

variable {p q : Packet}

/-! ## What has been parsed stays parsed -/

/-- A flag that is set can be set again. -/
theorem ipDone_of_parsed (h : p.iphdrParsed = true) : p.ipDone = p := by
  unfold ipDone
  rw [← h]

/-- Ports that were parsed are done. -/
theorem portsDone_of_parsed (h : p.portsParsed = true) : p.portsDone = p := by
  unfold portsDone
  rw [← h]

/-- A header that was parsed is done. -/
theorem tcpDone_of_parsed (h : p.l4hdrParsed = true) : p.tcpDone = p := by
  unfold tcpDone
  rw [← h]

/-- A packet behind whose IP header the later parsers look. -/
structure IpParsed (q : Packet) : Prop where
  machdrParsed : q.machdrParsed = true
  iphdrParsed : q.iphdrParsed = true
  ports : q.portsParsed = true → q.l4hdrPtr = none
  tcp : q.l4hdrParsed = true → q.l4hdrPtr = none

/-- After `parse_mac` the flags of the later parsers are set only if there is nothing to parse. -/
theorem Fresh.mac_flags (h : p.Fresh) :
    p.mac.machdrParsed = true ∧ p.mac.l4hdrPtr = none ∧ (p.mac.iphdrParsed = true → p.mac.iphdrPtr = none ∧ p.mac.portsParsed = true ∧
      p.mac.l4hdrParsed = true) ∧ (p.mac.iphdrParsed = false → p.mac.portsParsed = false ∧ p.mac.l4hdrParsed = false) := by
  rcases h.mac_cases with ⟨off, -, hmac⟩ | ⟨-, type, hmac⟩
  · rw [hmac]
    simp [h.l4hdr, h.iphdrParsed, h.portsParsed, h.l4hdrParsed]
  · rw [hmac]
    simp [closed, h.iphdr, h.l4hdr]

/-- The parser of the MAC header parses once. -/
theorem Fresh.mac_mac (h : p.Fresh) : p.mac.mac = p.mac := mac_of_parsed h.mac_flags.1

/-- What the parser of the IP header does to a fresh packet. -/
theorem Fresh.ip_eq (h : p.Fresh) : p.ip = ipDone (onPtr p.mac.iphdrPtr readIp p.mac) := by
  unfold ip
  rw [if_neg (by simp [h.iphdrParsed])]

/-- The parser of the IP header begins with the MAC header. -/
theorem Fresh.mac_ip (h : p.Fresh) : p.mac.ip = p.ip := by
  obtain ⟨-, -, hclosed, -⟩ := h.mac_flags
  rw [h.ip_eq]
  by_cases hparsed : p.mac.iphdrParsed = true
  · rw [ip_of_parsed hparsed, (hclosed hparsed).1]
    exact (ipDone_of_parsed hparsed).symm
  · unfold ip
    rw [if_neg hparsed, h.mac_mac]

/-- Then the IP header is parsed. -/
theorem Fresh.ipParsed (h : p.Fresh) : p.ip.IpParsed := by
  obtain ⟨hmac, hl4hdr, hclosed, hopen⟩ := h.mac_flags
  rw [h.ip_eq]
  generalize p.mac = m at hmac hl4hdr hclosed hopen ⊢
  cases hptr : m.iphdrPtr with
  | none => exact ⟨hmac, rfl, fun _ => hl4hdr, fun _ => hl4hdr⟩
  | some off =>
    have hnot : m.iphdrParsed = false := by
      cases hparsed : m.iphdrParsed with
      | false => rfl
      | true =>
        have hnone := (hclosed hparsed).1
        rw [hptr] at hnone
        cases hnone
    obtain ⟨hports, htcp⟩ := hopen hnot
    unfold onPtr readIp
    dsimp only
    split
    · split
      · constructor <;> simp [ipDone, setIp, hmac, hports, htcp]
      · constructor <;> simp [ipDone, setIp, hmac, hl4hdr]
    · constructor <;> simp [ipDone, hmac, hl4hdr]

/-! ## Behind the IP header -/

/-- What the parser of the ports does then. -/
theorem IpParsed.ports_eq (h : q.IpParsed) : q.ports = portsDone (onPtr q.l4hdrPtr readPort q) := by
  unfold Packet.ports
  by_cases hparsed : q.portsParsed = true
  · rw [if_pos hparsed, h.ports hparsed]
    exact (portsDone_of_parsed hparsed).symm
  · rw [if_neg hparsed, ip_of_parsed h.iphdrParsed]

/-- What the parser of TCP does then. -/
theorem IpParsed.tcp_eq (h : q.IpParsed) : q.tcp = tcpDone (onPtr q.l4hdrPtr readTcp q) := by
  unfold Packet.tcp
  by_cases hparsed : q.l4hdrParsed = true
  · rw [if_pos hparsed, h.tcp hparsed]
    exact (tcpDone_of_parsed hparsed).symm
  · rw [if_neg hparsed, ip_of_parsed h.iphdrParsed]

/-- The ports begin with the IP header. -/
theorem Fresh.ports_eq (h : p.Fresh) : p.ip.ports = p.ports := by
  rw [h.ipParsed.ports_eq]
  unfold ports
  rw [if_neg (by simp [h.portsParsed])]

/-- TCP begins with the IP header. -/
theorem Fresh.tcp_eq (h : p.Fresh) : p.ip.tcp = p.tcp := by
  rw [h.ipParsed.tcp_eq]
  unfold tcp
  rw [if_neg (by simp [h.l4hdrParsed])]

/-- The ports begin with the MAC header. -/
theorem Fresh.mac_ports (h : p.Fresh) : p.mac.ports = p.ports := by
  obtain ⟨-, -, hclosed, hopen⟩ := h.mac_flags
  rw [← h.ports_eq, ← h.mac_ip]
  cases hparsed : p.mac.iphdrParsed with
  | true => rw [ip_of_parsed hparsed]
  | false =>
    have hip := h.ipParsed
    rw [← h.mac_ip] at hip
    rw [hip.ports_eq]
    unfold ports
    rw [if_neg (by simp [(hopen hparsed).1])]

/-- TCP begins with the MAC header. -/
theorem Fresh.mac_tcp (h : p.Fresh) : p.mac.tcp = p.tcp := by
  obtain ⟨-, -, hclosed, hopen⟩ := h.mac_flags
  rw [← h.tcp_eq, ← h.mac_ip]
  cases hparsed : p.mac.iphdrParsed with
  | true => rw [ip_of_parsed hparsed]
  | false =>
    have hip := h.ipParsed
    rw [← h.mac_ip] at hip
    rw [hip.tcp_eq]
    unfold tcp
    rw [if_neg (by simp [(hopen hparsed).2])]

/-! ## The members that a parser writes -/

/-- The buffer, and what `parse_mac` and `parse_iphdr` write. -/
def ipView (p : Packet) : (ConstBuffer × Option Nat × Option Nat) × (UInt32 × UInt32 × UInt8) × UInt8 × UInt8 × UInt16 × UInt8 :=
  ((p.buffer, p.iphdrPtr, p.l4hdrPtr), (p.key.src_ip4, p.key.dst_ip4, p.key.proto), p.iptos, p.ipttl, p.iplen, p.iphlen)

/-- What `parse_ports` writes. -/
def portsView (p : Packet) : UInt16 × UInt16 × UInt16 := (p.key.src_port, p.key.dst_port, p.udplen)

/-- What `parse_tcphdr` writes. -/
def tcpView (p : Packet) : UInt8 × UInt32 × UInt32 × UInt32 × UInt32 × UInt8 :=
  (p.tcpflags, p.tcpseq, p.tcpack, p.tcpurg, p.tcpwin, p.tcphlen)

/-- What is known of the payload. -/
def payloadView (p : Packet) : Option Nat × Nat := (p.l4payloadPtr, p.payloadLen)

/-- Two bytes of a longer slice. -/
theorem u16_take (bytes : List UInt8) {i n : Nat} (h : i + 2 ≤ n) : u16 (bytes.take n) i = u16 bytes i := by
  unfold u16
  rw [List.drop_take, List.take_take, Nat.min_eq_left (by omega)]

/-- The same bytes have the same length. -/
theorem caplen_congr (h : p.buffer = q.buffer) : p.caplen = q.caplen := by
  unfold caplen
  rw [h]

/-- The same bytes have the same slices. -/
theorem slice_congr (h : p.buffer = q.buffer) (off n : Nat) : p.slice off n = q.slice off n := by
  unfold slice
  rw [h]

/-- What `parse_ports` does behind the IP header is the same for all packets with one buffer and one protocol. -/
theorem readPort_cases (l4hoff : Nat) (q : Packet) :
    (q.key.proto ≠ kTCP ∧ q.key.proto ≠ kUDP ∧ ∀ p, p.buffer = q.buffer → p.key.proto = q.key.proto → readPort l4hoff p = p) ∨
    ((q.key.proto = kTCP ∨ q.key.proto = kUDP) ∧ q.caplen - l4hoff < sizeofPorthdr ∧ ∀ p, p.buffer = q.buffer → p.key.proto = q.key.proto →
      readPort l4hoff p = { p with pkttype := kPktTypeRuntL4, l4hdrParsed := true }) ∨
    (q.key.proto = kTCP ∧ ∀ p, p.buffer = q.buffer → p.key.proto = q.key.proto →
      readPort l4hoff p = setPorts (q.slice l4hoff sizeofPorthdr) p) ∨
    (q.key.proto = kUDP ∧ ∀ p, p.buffer = q.buffer → p.key.proto = q.key.proto →
      readPort l4hoff p = readUdp l4hoff (setPorts (q.slice l4hoff sizeofPorthdr) p)) := by
  by_cases hproto : q.key.proto = kTCP ∨ q.key.proto = kUDP
  · right
    by_cases hlen : sizeofPorthdr ≤ q.caplen - l4hoff
    · right
      by_cases hudp : q.key.proto = kUDP
      · refine Or.inr ⟨hudp, fun p hb hp => ?_⟩
        unfold readPort
        rw [caplen_congr hb, slice_congr hb, hp, if_pos hproto, if_pos hlen, if_pos hudp]
      · refine Or.inl ⟨hproto.resolve_right hudp, fun p hb hp => ?_⟩
        unfold readPort
        rw [caplen_congr hb, slice_congr hb, hp, if_pos hproto, if_pos hlen, if_neg hudp]
    · refine Or.inl ⟨hproto, by omega, fun p hb hp => ?_⟩
      unfold readPort
      rw [caplen_congr hb, hp, if_pos hproto, if_neg hlen]
  · refine Or.inl ⟨fun h => hproto (Or.inl h), fun h => hproto (Or.inr h), fun p _ hp => ?_⟩
    unfold readPort
    rw [hp, if_neg hproto]

/-- UDP is read from the bytes alone. -/
theorem readUdp_cases (l4hoff : Nat) (q : Packet) :
    (∀ p, p.buffer = q.buffer → readUdp l4hoff p = p) ∨
    (∀ p, p.buffer = q.buffer →
      readUdp l4hoff p = setPayload l4hoff sizeofUdphdr (setUdplen (q.slice l4hoff sizeofUdphdr) p)) := by
  by_cases hlen : sizeofUdphdr ≤ q.caplen - l4hoff
  · refine Or.inr fun p hb => ?_
    unfold readUdp
    rw [caplen_congr hb, slice_congr hb, if_pos hlen]
  · refine Or.inl fun p hb => ?_
    unfold readUdp
    rw [caplen_congr hb, if_neg hlen]

/-- What `parse_tcphdr` does behind the IP header is the same for all packets with one buffer and one protocol. -/
theorem readTcp_cases (tcphoff : Nat) (q : Packet) :
    (q.key.proto ≠ kTCP ∧ ∀ p, p.key.proto = q.key.proto → readTcp tcphoff p = p) ∨
    (q.key.proto = kTCP ∧ q.caplen - tcphoff < sizeofTcphdr ∧ ∀ p, p.buffer = q.buffer → p.key.proto = q.key.proto →
      readTcp tcphoff p = { p with pkttype := kPktTypeRuntL4 }) ∨
    (q.key.proto = kTCP ∧ sizeofTcphdr ≤ q.caplen - tcphoff ∧ ∃ n,
      (∀ p, p.buffer = q.buffer → p.key.proto = q.key.proto → readTcp tcphoff p = setTcp (q.slice tcphoff sizeofTcphdr) p) ∨
      (∀ p, p.buffer = q.buffer → p.key.proto = q.key.proto →
        readTcp tcphoff p = setPayload tcphoff n (setTcp (q.slice tcphoff sizeofTcphdr) p))) := by
  by_cases hproto : q.key.proto = kTCP
  · right
    by_cases hlen : sizeofTcphdr ≤ q.caplen - tcphoff
    · refine Or.inr ⟨hproto, hlen, (decodePayoff (u8 (q.slice tcphoff sizeofTcphdr) 12)).toNat, ?_⟩
      by_cases hpayload : (decodePayoff (u8 (q.slice tcphoff sizeofTcphdr) 12)).toNat ≤ q.caplen - tcphoff
      · refine Or.inr fun p hb hp => ?_
        unfold readTcp
        rw [caplen_congr hb, slice_congr hb, hp, if_pos hproto, if_pos hlen]
        exact if_pos hpayload
      · refine Or.inl fun p hb hp => ?_
        unfold readTcp
        rw [caplen_congr hb, slice_congr hb, hp, if_pos hproto, if_pos hlen]
        exact if_neg hpayload
    · refine Or.inl ⟨hproto, by omega, fun p hb hp => ?_⟩
      unfold readTcp
      rw [caplen_congr hb, hp, if_pos hproto, if_neg hlen]
  · refine Or.inl ⟨hproto, fun p hp => ?_⟩
    unfold readTcp
    rw [hp, if_neg hproto]

/-- What the setters of `parse_ports` leave as it is. -/
def PortsKeep (s q : Packet) : Prop :=
  ipView s = ipView q ∧ tcpView s = tcpView q ∧ s.machdrParsed = q.machdrParsed ∧ s.iphdrParsed = q.iphdrParsed ∧
    (q.l4hdrParsed = true → s.l4hdrParsed = true)

/-- What the ports keep, they keep twice. -/
theorem PortsKeep.trans {r s q : Packet} (h : PortsKeep r s) (h' : PortsKeep s q) : PortsKeep r q := by
  obtain ⟨hip, htcp, hmac, hiphdr, hl4⟩ := h
  obtain ⟨hip', htcp', hmac', hiphdr', hl4'⟩ := h'
  exact ⟨hip.trans hip', htcp.trans htcp', hmac.trans hmac', hiphdr.trans hiphdr', hl4 ∘ hl4'⟩

/-- Setting the ports keeps the rest. -/
theorem portsKeep_setPorts (ph : List UInt8) (q : Packet) : PortsKeep (setPorts ph q) q := ⟨rfl, rfl, rfl, rfl, id⟩

/-- Setting the length of UDP keeps the ports. -/
theorem portsKeep_setUdplen (uh : List UInt8) (q : Packet) : PortsKeep (setUdplen uh q) q := ⟨rfl, rfl, rfl, rfl, id⟩

/-- Setting the payload keeps the ports. -/
theorem portsKeep_setPayload (l4hoff n : Nat) (q : Packet) : PortsKeep (setPayload l4hoff n q) q := ⟨rfl, rfl, rfl, rfl, id⟩

/-- What `parse_ports` leaves as it is behind the IP header. -/
theorem frame_readPort (l4hoff : Nat) (q : Packet) :
    ipView (readPort l4hoff q) = ipView q ∧ tcpView (readPort l4hoff q) = tcpView q ∧
      (readPort l4hoff q).machdrParsed = q.machdrParsed ∧ (readPort l4hoff q).iphdrParsed = q.iphdrParsed ∧
      (q.l4hdrParsed = true → (readPort l4hoff q).l4hdrParsed = true) := by
  rcases readPort_cases l4hoff q with ⟨-, -, h⟩ | ⟨-, -, h⟩ | ⟨-, h⟩ | ⟨-, h⟩
  · rw [h q rfl rfl]
    exact ⟨rfl, rfl, rfl, rfl, id⟩
  · rw [h q rfl rfl]
    exact ⟨rfl, rfl, rfl, rfl, fun _ => rfl⟩
  · rw [h q rfl rfl]
    exact portsKeep_setPorts _ q
  · rw [h q rfl rfl]
    rcases readUdp_cases l4hoff (setPorts (q.slice l4hoff sizeofPorthdr) q) with hudp | hudp
    · rw [hudp _ rfl]
      exact portsKeep_setPorts _ q
    · rw [hudp _ rfl]
      exact (portsKeep_setPayload _ _ _).trans ((portsKeep_setUdplen _ _).trans (portsKeep_setPorts _ q))

/-- What `parse_tcphdr` leaves as it is behind the IP header. -/
theorem frame_readTcp (tcphoff : Nat) (q : Packet) :
    ipView (readTcp tcphoff q) = ipView q ∧ (readTcp tcphoff q).machdrParsed = q.machdrParsed ∧
      (readTcp tcphoff q).iphdrParsed = q.iphdrParsed ∧ (readTcp tcphoff q).portsParsed = q.portsParsed := by
  rcases readTcp_cases tcphoff q with ⟨-, h⟩ | ⟨-, -, h⟩ | ⟨-, -, n, h | h⟩
  · rw [h q rfl]
    exact ⟨rfl, rfl, rfl, rfl⟩
  · rw [h q rfl rfl]
    exact ⟨rfl, rfl, rfl, rfl⟩
  · rw [h q rfl rfl]
    exact ⟨rfl, rfl, rfl, rfl⟩
  · rw [h q rfl rfl]
    exact ⟨rfl, rfl, rfl, rfl⟩

/-- TCP is read where the pointer leads. -/
theorem tcp_of_ptr (h : p.iphdrParsed = true) (hopen : p.l4hdrParsed = false) {off : Nat} (hptr : p.l4hdrPtr = some off) :
    p.tcp = tcpDone (readTcp off p) := by
  have hread : onPtr p.l4hdrPtr readTcp p = readTcp off p := by rw [hptr]; rfl
  unfold Packet.tcp
  rw [if_neg (by simp [hopen]), ip_of_parsed h, hread]

/-- The ports are read where the pointer leads. -/
theorem ports_of_ptr (h : p.iphdrParsed = true) (hopen : p.portsParsed = false) {off : Nat} (hptr : p.l4hdrPtr = some off) :
    p.ports = portsDone (readPort off p) := by
  have hread : onPtr p.l4hdrPtr readPort p = readPort off p := by rw [hptr]; rfl
  unfold Packet.ports
  rw [if_neg (by simp [hopen]), ip_of_parsed h, hread]

/-- Without a pointer TCP is only marked. -/
theorem tcp_of_none (h : p.iphdrParsed = true) (hptr : p.l4hdrPtr = none) : p.tcp = p.tcpDone := by
  have hread : onPtr p.l4hdrPtr readTcp p = p := by rw [hptr]; rfl
  unfold Packet.tcp
  split
  · rename_i hparsed
    exact (tcpDone_of_parsed hparsed).symm
  · rw [ip_of_parsed h, hread]

/-- Without a pointer the ports are only marked. -/
theorem ports_of_none (h : p.iphdrParsed = true) (hptr : p.l4hdrPtr = none) : p.ports = p.portsDone := by
  have hread : onPtr p.l4hdrPtr readPort p = p := by rw [hptr]; rfl
  unfold Packet.ports
  split
  · rename_i hparsed
    exact (portsDone_of_parsed hparsed).symm
  · rw [ip_of_parsed h, hread]

/-- The two protocols have different numbers. -/
theorem kUDP_ne_kTCP : kUDP ≠ kTCP := by decide

/-- The two parsers find the ports in the same place. -/
theorem setTcp_ports (off : Nat) (q r : Packet) :
    (setTcp (q.slice off sizeofTcphdr) r).key.src_port = (setPorts (q.slice off sizeofPorthdr) r).key.src_port ∧
      (setTcp (q.slice off sizeofTcphdr) r).key.dst_port = (setPorts (q.slice off sizeofPorthdr) r).key.dst_port := by
  unfold setTcp setPorts slice sizeofTcphdr sizeofPorthdr
  dsimp only
  rw [u16_take _ (by omega), u16_take _ (by omega), u16_take _ (by omega), u16_take _ (by omega)]
  exact ⟨rfl, rfl⟩

/-- A packet with a layer 4 header. -/
theorem IpParsed.open (h : q.IpParsed) {off : Nat} (hptr : q.l4hdrPtr = some off) : q.portsParsed = false ∧ q.l4hdrParsed = false := by
  constructor
  · cases hparsed : q.portsParsed with
    | false => rfl
    | true =>
      have hnone := h.ports hparsed
      rw [hptr] at hnone
      cases hnone
  · cases hparsed : q.l4hdrParsed with
    | false => rfl
    | true =>
      have hnone := h.tcp hparsed
      rw [hptr] at hnone
      cases hnone

/-- What `parse_ports` leaves as it is. -/
theorem frame_ports (h : p.iphdrParsed = true) :
    ipView p.ports = ipView p ∧ tcpView p.ports = tcpView p ∧ p.ports.machdrParsed = p.machdrParsed ∧ p.ports.iphdrParsed = true ∧
      (p.l4hdrParsed = true → p.ports.l4hdrParsed = true) := by
  cases hptr : p.l4hdrPtr with
  | none =>
    rw [ports_of_none h hptr]
    exact ⟨rfl, rfl, rfl, h, id⟩
  | some off =>
    cases hparsed : p.portsParsed with
    | true =>
      rw [ports_of_parsed hparsed]
      exact ⟨rfl, rfl, rfl, h, id⟩
    | false =>
      obtain ⟨hip, htcp, hmac, hip', hl4⟩ := frame_readPort off p
      rw [ports_of_ptr h hparsed hptr]
      exact ⟨hip, htcp, hmac, hip'.trans h, hl4⟩

/-- After the ports they are marked. -/
theorem portsParsed_ports (p : Packet) : p.ports.portsParsed = true := by
  unfold ports
  split
  · assumption
  · rfl

/-- After TCP it is marked. -/
theorem l4hdrParsed_tcp (p : Packet) : p.tcp.l4hdrParsed = true := by
  unfold tcp
  split
  · assumption
  · rfl

/-- What `parse_tcphdr` leaves as it is. -/
theorem frame_tcp (h : p.iphdrParsed = true) :
    ipView p.tcp = ipView p ∧ p.tcp.machdrParsed = p.machdrParsed ∧ p.tcp.iphdrParsed = true ∧ p.tcp.portsParsed = p.portsParsed := by
  cases hptr : p.l4hdrPtr with
  | none =>
    rw [tcp_of_none h hptr]
    exact ⟨rfl, rfl, h, rfl⟩
  | some off =>
    cases hparsed : p.l4hdrParsed with
    | true =>
      rw [tcp_of_parsed hparsed]
      exact ⟨rfl, rfl, h, rfl⟩
    | false =>
      obtain ⟨hip, hmac, hip', hports⟩ := frame_readTcp off p
      rw [tcp_of_ptr h hparsed hptr]
      exact ⟨hip, hmac, hip'.trans h, hports⟩

/-! ## Both later parsers -/

/-- What both later parsers have written: `qp` and `qt` are what each of them leaves of `q`, and `z` what the two leave. -/
structure Joined (q qp qt z : Packet) : Prop where
  ports : portsView z = portsView qp
  tcp : tcpView z = tcpView qt
  payload : payloadView z = payloadView (if q.key.proto = kTCP then qt else qp)

@[simp] theorem portsView_tcpDone (p : Packet) : portsView p.tcpDone = portsView p := rfl

@[simp] theorem portsView_portsDone (p : Packet) : portsView p.portsDone = portsView p := rfl

@[simp] theorem portsView_setPayload (off n : Nat) (p : Packet) : portsView (setPayload off n p) = portsView p := rfl

@[simp] theorem portsView_pkttype (p : Packet) (type : UInt16) : portsView { p with pkttype := type } = portsView p := rfl

@[simp] theorem tcpView_tcpDone (p : Packet) : tcpView p.tcpDone = tcpView p := rfl

@[simp] theorem tcpView_portsDone (p : Packet) : tcpView p.portsDone = tcpView p := rfl

@[simp] theorem tcpView_setPayload (off n : Nat) (p : Packet) : tcpView (setPayload off n p) = tcpView p := rfl

@[simp] theorem tcpView_setPorts (h : List UInt8) (p : Packet) : tcpView (setPorts h p) = tcpView p := rfl

@[simp] theorem tcpView_pkttype (p : Packet) (type : UInt16) : tcpView { p with pkttype := type } = tcpView p := rfl

/-- What TCP sets does not depend on what was there. -/
theorem tcpView_setTcp (h : List UInt8) (p r : Packet) : tcpView (setTcp h p) = tcpView (setTcp h r) := rfl

@[simp] theorem payloadView_tcpDone (p : Packet) : payloadView p.tcpDone = payloadView p := rfl

@[simp] theorem payloadView_portsDone (p : Packet) : payloadView p.portsDone = payloadView p := rfl

@[simp] theorem payloadView_setPorts (h : List UInt8) (p : Packet) : payloadView (setPorts h p) = payloadView p := rfl

@[simp] theorem payloadView_setTcp (h : List UInt8) (p : Packet) : payloadView (setTcp h p) = payloadView p := rfl

@[simp] theorem payloadView_pkttype (p : Packet) (type : UInt16) : payloadView { p with pkttype := type } = payloadView p := rfl

/-- The payload depends on the lengths in the IP header. -/
theorem payloadView_setPayload (off n : Nat) {p r : Packet} (hlen : p.iplen = r.iplen) (hhlen : p.iphlen = r.iphlen) :
    payloadView (setPayload off n p) = payloadView (setPayload off n r) := by
  unfold payloadView setPayload
  dsimp only
  rw [hlen, hhlen]

/-- What the ports set depends on the length of UDP only. -/
theorem portsView_setPorts (h : List UInt8) {p r : Packet} (hudp : p.udplen = r.udplen) :
    portsView (setPorts h p) = portsView (setPorts h r) := by
  unfold portsView setPorts
  dsimp only
  rw [hudp]

/-- The ports of a TCP packet, which both parsers read. -/
theorem portsView_setTcp (off : Nat) (q : Packet) {p r : Packet} (hudp : p.udplen = r.udplen) :
    portsView (setTcp (q.slice off sizeofTcphdr) p) = portsView (setPorts (q.slice off sizeofPorthdr) r) := by
  obtain ⟨hsrc, hdst⟩ := setTcp_ports off q p
  exact Prod.ext hsrc (Prod.ext hdst hudp)

/-- Without TCP there is nothing for `parse_tcphdr` to do. -/
theorem tcp_of_ne (h : p.iphdrParsed = true) (hnt : p.key.proto ≠ kTCP) : p.tcp = p.tcpDone := by
  cases hptr : p.l4hdrPtr with
  | none => exact tcp_of_none h hptr
  | some off =>
    cases hparsed : p.l4hdrParsed with
    | true => rw [tcp_of_parsed hparsed, tcpDone_of_parsed hparsed]
    | false =>
      rw [tcp_of_ptr h hparsed hptr]
      rcases readTcp_cases off p with ⟨-, hread⟩ | ⟨ht, -⟩ | ⟨ht, -⟩
      · rw [hread p rfl]
      · exact absurd ht hnt
      · exact absurd ht hnt

/-- `parse_ports` does the same when `parse_tcphdr` has nothing to do any more. -/
theorem readPort_tcpDone (l4hoff : Nat) (q : Packet) : readPort l4hoff q.tcpDone = (readPort l4hoff q).tcpDone := by
  rcases readPort_cases l4hoff q with ⟨-, -, h⟩ | ⟨-, -, h⟩ | ⟨-, h⟩ | ⟨-, h⟩
  · rw [h q.tcpDone rfl rfl, h q rfl rfl]
  · rw [h q.tcpDone rfl rfl, h q rfl rfl]
    rfl
  · rw [h q.tcpDone rfl rfl, h q rfl rfl]
    rfl
  · rw [h q.tcpDone rfl rfl, h q rfl rfl]
    rcases readUdp_cases l4hoff q with hudp | hudp
    · rw [hudp (setPorts _ q.tcpDone) rfl, hudp (setPorts _ q) rfl]
      rfl
    · rw [hudp (setPorts _ q.tcpDone) rfl, hudp (setPorts _ q) rfl]
      rfl

/-- The ports and the mark of TCP commute. -/
theorem IpParsed.ports_tcpDone (h : q.IpParsed) : q.tcpDone.ports = q.ports.tcpDone := by
  have hip : q.tcpDone.iphdrParsed = true := h.iphdrParsed
  cases hptr : q.l4hdrPtr with
  | none =>
    rw [ports_of_none h.iphdrParsed hptr, ports_of_none hip hptr]
    rfl
  | some off =>
    obtain ⟨hopen, -⟩ := h.open hptr
    rw [ports_of_ptr h.iphdrParsed hopen hptr, ports_of_ptr hip hopen hptr, readPort_tcpDone]
    rfl

/-- Without TCP the order does not matter at all. -/
theorem IpParsed.joined_of_ne (h : q.IpParsed) (hnt : q.key.proto ≠ kTCP) :
    Joined q q.ports q.tcp q.ports.tcp ∧ Joined q q.ports q.tcp q.tcp.ports := by
  obtain ⟨hipView, htcpView, -, hip, -⟩ := frame_ports h.iphdrParsed
  have hproto : q.ports.key.proto = q.key.proto := congrArg (fun v => v.2.1.2.2) hipView
  rw [tcp_of_ne h.iphdrParsed hnt, h.ports_tcpDone, tcp_of_ne hip (by rw [hproto]; exact hnt)]
  have hjoined : Joined q q.ports q.tcpDone q.ports.tcpDone := ⟨rfl, htcpView, by rw [if_neg hnt]; rfl⟩
  exact ⟨hjoined, hjoined⟩

/-- With TCP the two parsers write what each of them writes alone. -/
theorem IpParsed.joined_of_tcp (h : q.IpParsed) {off : Nat} (hptr : q.l4hdrPtr = some off) (ht : q.key.proto = kTCP) :
    Joined q q.ports q.tcp q.ports.tcp ∧ Joined q q.ports q.tcp q.tcp.ports := by
  have hip := h.iphdrParsed
  obtain ⟨hopen, hopen'⟩ := h.open hptr
  have hports := ports_of_ptr hip hopen hptr
  have htcp := tcp_of_ptr hip hopen' hptr
  rcases readPort_cases off q with ⟨hnt, -⟩ | ⟨-, hshort, hread⟩ | ⟨-, hread⟩ | ⟨hu, -⟩
  · exact absurd ht hnt
  · -- too short for the ports, and so for the TCP header
    have htcpread : ∀ p, p.buffer = q.buffer → p.key.proto = q.key.proto → readTcp off p = { p with pkttype := kPktTypeRuntL4 } := by
      rcases readTcp_cases off q with ⟨hnt, -⟩ | ⟨-, -, hread'⟩ | ⟨-, hlen, -⟩
      · exact absurd ht hnt
      · exact hread'
      · unfold sizeofPorthdr at hshort
        unfold sizeofTcphdr at hlen
        omega
    rw [hread q rfl rfl] at hports
    rw [htcpread q rfl rfl] at htcp
    have hfirst : q.ports.tcp = q.ports := by
      rw [hports]
      exact tcp_of_parsed rfl
    have hsecond : q.tcp.ports = portsDone { q with pkttype := kPktTypeRuntL4, l4hdrParsed := true } := by
      rw [htcp, ports_of_ptr (p := tcpDone { q with pkttype := kPktTypeRuntL4 }) hip hopen hptr,
        hread (tcpDone { q with pkttype := kPktTypeRuntL4 }) rfl rfl]
      rfl
    rw [hfirst, hsecond, hports, htcp]
    exact ⟨⟨rfl, rfl, by rw [if_pos ht]; rfl⟩, ⟨rfl, rfl, by rw [if_pos ht]; rfl⟩⟩
  · rw [hread q rfl rfl] at hports
    have hfirst : q.ports.tcp = tcpDone (readTcp off (portsDone (setPorts (q.slice off sizeofPorthdr) q))) := by
      rw [hports]
      exact tcp_of_ptr (p := portsDone (setPorts (q.slice off sizeofPorthdr) q)) hip hopen' hptr
    have hsecond : q.tcp.ports = portsDone (setPorts (q.slice off sizeofPorthdr) (tcpDone (readTcp off q))) := by
      obtain ⟨hview, -, hip', hports'⟩ := frame_readTcp off q
      have hbuffer : (readTcp off q).buffer = q.buffer := congrArg (fun v => v.1.1) hview
      have hproto : (readTcp off q).key.proto = q.key.proto := congrArg (fun v => v.2.1.2.2) hview
      have hptr' : (readTcp off q).l4hdrPtr = some off := (congrArg (fun v => v.1.2.2) hview).trans hptr
      rw [htcp, ports_of_ptr (p := tcpDone (readTcp off q)) (hip'.trans hip) (hports'.trans hopen) hptr',
        hread (tcpDone (readTcp off q)) hbuffer hproto]
    rw [hfirst, hsecond, hports, htcp]
    rcases readTcp_cases off q with ⟨hnt, -⟩ | ⟨-, -, hread'⟩ | ⟨-, -, n, hread' | hread'⟩
    · exact absurd ht hnt
    · rw [hread' q rfl rfl, hread' (portsDone (setPorts (q.slice off sizeofPorthdr) q)) rfl rfl]
      refine ⟨⟨by simp, by simp, by simp [ht]⟩, ⟨?_, by simp, by simp [ht]⟩⟩
      rw [portsView_portsDone, portsView_portsDone]
      exact portsView_setPorts _ rfl
    · rw [hread' q rfl rfl, hread' (portsDone (setPorts (q.slice off sizeofPorthdr) q)) rfl rfl]
      refine ⟨⟨?_, ?_, ?_⟩, ⟨?_, ?_, ?_⟩⟩
      · rw [portsView_tcpDone, portsView_portsDone]
        exact portsView_setTcp off q rfl
      · rw [tcpView_tcpDone, tcpView_tcpDone]
        exact tcpView_setTcp _ _ _
      · simp [ht]
      · rw [portsView_portsDone, portsView_portsDone]
        exact portsView_setPorts _ rfl
      · simp
      · simp [ht]
    · rw [hread' q rfl rfl, hread' (portsDone (setPorts (q.slice off sizeofPorthdr) q)) rfl rfl]
      refine ⟨⟨?_, ?_, ?_⟩, ⟨?_, ?_, ?_⟩⟩
      · rw [portsView_tcpDone, portsView_setPayload, portsView_portsDone]
        exact portsView_setTcp off q rfl
      · rw [tcpView_tcpDone, tcpView_tcpDone, tcpView_setPayload, tcpView_setPayload]
        exact tcpView_setTcp _ _ _
      · rw [if_pos ht, payloadView_tcpDone, payloadView_tcpDone]
        exact payloadView_setPayload off n rfl rfl
      · rw [portsView_portsDone, portsView_portsDone]
        exact portsView_setPorts _ rfl
      · simp
      · simp [ht]
  · rw [ht] at hu
    exact absurd hu.symm kUDP_ne_kTCP

/-- Both later parsers, in either order. -/
theorem IpParsed.joined (h : q.IpParsed) : Joined q q.ports q.tcp q.ports.tcp ∧ Joined q q.ports q.tcp q.tcp.ports := by
  by_cases ht : q.key.proto = kTCP
  · cases hptr : q.l4hdrPtr with
    | none =>
      have hip : q.tcpDone.iphdrParsed = true := h.iphdrParsed
      have hip' : q.portsDone.iphdrParsed = true := h.iphdrParsed
      rw [ports_of_none h.iphdrParsed hptr, tcp_of_none h.iphdrParsed hptr, ports_of_none hip hptr, tcp_of_none hip' hptr]
      exact ⟨⟨rfl, rfl, by rw [if_pos ht]; rfl⟩, ⟨rfl, rfl, by rw [if_pos ht]; rfl⟩⟩
    | some off => exact h.joined_of_tcp hptr ht
  · exact h.joined_of_ne ht

/-! ## Every state of a packet -/

/-- The packets that accessor calls can leave of a packet. -/
inductive Stage (p : Packet) : Packet → Prop
  | fresh : Stage p p
  | mac : Stage p p.mac
  | ip : Stage p p.ip
  | ports : Stage p p.ports
  | tcp : Stage p p.tcp
  | portsTcp : Stage p p.ports.tcp
  | tcpPorts : Stage p p.tcp.ports

/-- The IP header leaves its pointer. -/
theorem Fresh.ip_iphdrPtr (h : p.Fresh) : p.ip.iphdrPtr = p.mac.iphdrPtr := by
  rw [h.ip_eq]
  cases hptr : p.mac.iphdrPtr with
  | none => exact hptr
  | some off => exact (frame_readIp Packet.iphdrPtr (fun _ _ => rfl) (fun _ _ => rfl) (fun _ => rfl) off p.mac).trans hptr

section Stages

variable (h : p.Fresh)

include h

/-- The flags of the first two parsers and what those write, once both have run. -/
theorem Fresh.ports_frame : ipView p.ports = ipView p.ip ∧ p.ports.machdrParsed = true ∧ p.ports.iphdrParsed = true := by
  obtain ⟨hview, -, hmac, hip, -⟩ := frame_ports h.ipParsed.iphdrParsed
  rw [h.ports_eq] at hview hmac hip
  exact ⟨hview, hmac.trans h.ipParsed.machdrParsed, hip⟩

/-- TCP leaves the IP header alone. -/
theorem Fresh.tcp_frame : ipView p.tcp = ipView p.ip ∧ p.tcp.machdrParsed = true ∧ p.tcp.iphdrParsed = true := by
  obtain ⟨hview, hmac, hip, -⟩ := frame_tcp h.ipParsed.iphdrParsed
  rw [h.tcp_eq] at hview hmac hip
  exact ⟨hview, hmac.trans h.ipParsed.machdrParsed, hip⟩

/-- The ports after TCP leave the IP header alone. -/
theorem Fresh.portsTcp_frame : ipView p.ports.tcp = ipView p.ip ∧ p.ports.tcp.machdrParsed = true ∧ p.ports.tcp.iphdrParsed = true ∧
    p.ports.tcp.portsParsed = true := by
  obtain ⟨hview, hmac, hip⟩ := h.ports_frame
  obtain ⟨hview', hmac', hip', hports⟩ := frame_tcp hip
  exact ⟨hview'.trans hview, hmac'.trans hmac, hip', hports.trans (portsParsed_ports p)⟩

/-- TCP after the ports leaves the IP header alone. -/
theorem Fresh.tcpPorts_frame : ipView p.tcp.ports = ipView p.ip ∧ p.tcp.ports.machdrParsed = true ∧ p.tcp.ports.iphdrParsed = true ∧
    p.tcp.ports.l4hdrParsed = true := by
  obtain ⟨hview, hmac, hip⟩ := h.tcp_frame
  obtain ⟨hview', -, hmac', hip', htcp⟩ := frame_ports hip
  exact ⟨hview'.trans hview, hmac'.trans hmac, hip', htcp (l4hdrParsed_tcp p)⟩

/-- From the third state on the first two parsers have run. -/
theorem Fresh.stage_cases {s : Packet} (hs : Stage p s) :
    s = p ∨ s = p.mac ∨ (s.mac = s ∧ s.ip = s ∧ ipView s = ipView p.ip) := by
  cases hs with
  | fresh => exact Or.inl rfl
  | mac => exact Or.inr (Or.inl rfl)
  | ip => exact Or.inr (Or.inr ⟨mac_of_parsed h.ipParsed.machdrParsed, ip_of_parsed h.ipParsed.iphdrParsed, rfl⟩)
  | ports =>
    obtain ⟨hview, hmac, hip⟩ := h.ports_frame
    exact Or.inr (Or.inr ⟨mac_of_parsed hmac, ip_of_parsed hip, hview⟩)
  | tcp =>
    obtain ⟨hview, hmac, hip⟩ := h.tcp_frame
    exact Or.inr (Or.inr ⟨mac_of_parsed hmac, ip_of_parsed hip, hview⟩)
  | portsTcp =>
    obtain ⟨hview, hmac, hip, -⟩ := h.portsTcp_frame
    exact Or.inr (Or.inr ⟨mac_of_parsed hmac, ip_of_parsed hip, hview⟩)
  | tcpPorts =>
    obtain ⟨hview, hmac, hip, -⟩ := h.tcpPorts_frame
    exact Or.inr (Or.inr ⟨mac_of_parsed hmac, ip_of_parsed hip, hview⟩)

/-- From any stage the MAC header leads to a stage. -/
theorem Fresh.stage_mac {s : Packet} (hs : Stage p s) : Stage p s.mac ∧ s.mac.iphdrPtr = p.mac.iphdrPtr := by
  rcases h.stage_cases hs with rfl | rfl | ⟨hmac, -, hview⟩
  · exact ⟨Stage.mac, rfl⟩
  · rw [h.mac_mac]
    exact ⟨hs, rfl⟩
  · rw [hmac]
    exact ⟨hs, (congrArg (fun v => v.1.2.1) hview).trans h.ip_iphdrPtr⟩

/-- From any stage the IP header leads to a stage. -/
theorem Fresh.stage_ip {s : Packet} (hs : Stage p s) : Stage p s.ip ∧ ipView s.ip = ipView p.ip := by
  rcases h.stage_cases hs with rfl | rfl | ⟨-, hip, hview⟩
  · exact ⟨Stage.ip, rfl⟩
  · rw [h.mac_ip]
    exact ⟨Stage.ip, rfl⟩
  · rw [hip]
    exact ⟨hs, hview⟩

/-- What both later parsers leave of a fresh packet. -/
theorem Fresh.joined : Joined p.ip p.ports p.tcp p.ports.tcp ∧ Joined p.ip p.ports p.tcp p.tcp.ports := by
  have hjoined := h.ipParsed.joined
  rwa [h.ports_eq, h.tcp_eq] at hjoined

/-- From any stage the ports lead to a stage, with the ports of the packet. -/
theorem Fresh.stage_ports {s : Packet} (hs : Stage p s) :
    Stage p s.ports ∧ ipView s.ports = ipView p.ip ∧ portsView s.ports = portsView p.ports ∧
      (p.ip.key.proto ≠ kTCP → payloadView s.ports = payloadView p.ports) := by
  obtain ⟨hjoined, hjoined'⟩ := h.joined
  cases hs with
  | fresh => exact ⟨Stage.ports, h.ports_frame.1, rfl, fun _ => rfl⟩
  | mac =>
    rw [h.mac_ports]
    exact ⟨Stage.ports, h.ports_frame.1, rfl, fun _ => rfl⟩
  | ip =>
    rw [h.ports_eq]
    exact ⟨Stage.ports, h.ports_frame.1, rfl, fun _ => rfl⟩
  | ports =>
    rw [ports_of_parsed (portsParsed_ports p)]
    exact ⟨Stage.ports, h.ports_frame.1, rfl, fun _ => rfl⟩
  | tcp => exact ⟨Stage.tcpPorts, h.tcpPorts_frame.1, hjoined'.ports, fun hnt => by rw [hjoined'.payload, if_neg hnt]⟩
  | portsTcp =>
    rw [ports_of_parsed h.portsTcp_frame.2.2.2]
    exact ⟨Stage.portsTcp, h.portsTcp_frame.1, hjoined.ports, fun hnt => by rw [hjoined.payload, if_neg hnt]⟩
  | tcpPorts =>
    rw [ports_of_parsed (portsParsed_ports p.tcp)]
    exact ⟨Stage.tcpPorts, h.tcpPorts_frame.1, hjoined'.ports, fun hnt => by rw [hjoined'.payload, if_neg hnt]⟩

/-- From any stage TCP leads to a stage, with the members of the packet. -/
theorem Fresh.stage_tcp {s : Packet} (hs : Stage p s) :
    Stage p s.tcp ∧ tcpView s.tcp = tcpView p.tcp ∧ (p.ip.key.proto = kTCP → payloadView s.tcp = payloadView p.tcp) := by
  obtain ⟨hjoined, hjoined'⟩ := h.joined
  cases hs with
  | fresh => exact ⟨Stage.tcp, rfl, fun _ => rfl⟩
  | mac =>
    rw [h.mac_tcp]
    exact ⟨Stage.tcp, rfl, fun _ => rfl⟩
  | ip =>
    rw [h.tcp_eq]
    exact ⟨Stage.tcp, rfl, fun _ => rfl⟩
  | ports => exact ⟨Stage.portsTcp, hjoined.tcp, fun ht => by rw [hjoined.payload, if_pos ht]⟩
  | tcp =>
    rw [tcp_of_parsed (l4hdrParsed_tcp p)]
    exact ⟨Stage.tcp, rfl, fun _ => rfl⟩
  | portsTcp =>
    rw [tcp_of_parsed (l4hdrParsed_tcp p.ports)]
    exact ⟨Stage.portsTcp, hjoined.tcp, fun ht => by rw [hjoined.payload, if_pos ht]⟩
  | tcpPorts =>
    rw [tcp_of_parsed h.tcpPorts_frame.2.2.2]
    exact ⟨Stage.tcpPorts, hjoined'.tcp, fun ht => by rw [hjoined'.payload, if_pos ht]⟩

end Stages

/-- What `payload` leaves. -/
def payloadStage (p : Packet) : Packet := if p.ip.key.proto = kTCP then p.ip.tcp else p.ip.ports

/-- The payload of a fresh packet: of the TCP header with TCP, else of what `parse_ports` finds. -/
theorem Fresh.payloadStage_eq (h : p.Fresh) : payloadStage p = if p.ip.key.proto = kTCP then p.tcp else p.ports := by
  unfold payloadStage
  rw [h.tcp_eq, h.ports_eq]

/-- From any stage the payload leads to a stage, with the payload of the packet. -/
theorem Fresh.stage_payload (h : p.Fresh) {s : Packet} (hs : Stage p s) :
    Stage p (payloadStage s) ∧ payloadView (payloadStage s) = payloadView (payloadStage p) := by
  obtain ⟨hip, hview⟩ := h.stage_ip hs
  have hproto : s.ip.key.proto = p.ip.key.proto := congrArg (fun v => v.2.1.2.2) hview
  rw [h.payloadStage_eq]
  unfold payloadStage
  rw [hproto]
  by_cases ht : p.ip.key.proto = kTCP
  · rw [if_pos ht, if_pos ht]
    obtain ⟨hstage, -, hpayload⟩ := h.stage_tcp hip
    exact ⟨hstage, hpayload ht⟩
  · rw [if_neg ht, if_neg ht]
    obtain ⟨hstage, -, -, hpayload⟩ := h.stage_ports hip
    exact ⟨hstage, hpayload ht⟩

end Packet

end Blockmon.Messages
