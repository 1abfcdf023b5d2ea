import Blockmon.Lemmas.PacketOrder

/-!
# Headers in the captured bytes

Where the headers of a packet are, said of the captured bytes, and what the parsers read there.
-/

namespace Blockmon.Messages

/-! ## Reading at an offset -/

/-- A byte of a slice. -/
theorem u8_slice (bytes : List UInt8) (off : Nat) {i n : Nat} (h : i + 1 ≤ n) : u8 ((bytes.drop off).take n) i = u8 bytes (off + i) := by
  unfold u8
  rw [List.getD_eq_getElem?_getD, List.getD_eq_getElem?_getD, List.getElem?_take_of_lt (by omega), List.getElem?_drop]

/-- Two bytes of a slice. -/
theorem u16_slice (bytes : List UInt8) (off : Nat) {i n : Nat} (h : i + 2 ≤ n) :
    u16 ((bytes.drop off).take n) i = u16 bytes (off + i) := by
  unfold u16
  rw [List.drop_take, List.take_take, Nat.min_eq_left (by omega), List.drop_drop]

/-- Four bytes of a slice. -/
theorem u32_slice (bytes : List UInt8) (off : Nat) {i n : Nat} (h : i + 4 ≤ n) :
    u32 ((bytes.drop off).take n) i = u32 bytes (off + i) := by
  unfold u32
  rw [List.drop_take, List.take_take, Nat.min_eq_left (by omega), List.drop_drop]

/-! ## The IP header -/

/-- A packet type in a MAC header. -/
def etherType (bytes : List UInt8) (i : Nat) : UInt16 := ntohs (u16 bytes i)

/-- The IP header is at `iphoff`: at the start of the packet, or behind the Ethernet header and any number of 802.1q headers. -/
def IpAt (macType : Int) (bytes : List UInt8) (iphoff : Nat) : Prop :=
  (macType = kRawIP ∧ iphoff = 0) ∨
  (macType = kEthernet ∧ ∃ tags, iphoff = sizeofEthhdr + tags * sizeofEth1qhdr ∧
    (∀ i < tags, etherType bytes (12 + i * sizeofEth1qhdr) = Packet.kPktType1q) ∧
    etherType bytes (12 + tags * sizeofEth1qhdr) = Packet.kPktTypeIP4)

/-- The members of the IP header. -/
def ipHeaderLength (bytes : List UInt8) (iphoff : Nat) : Nat := (decodeHlv (u8 bytes iphoff)).toNat

/-- The total length in the IP header. -/
def ipLength (bytes : List UInt8) (iphoff : Nat) : Nat := (ntohs (u16 bytes (iphoff + 2))).toNat

/-- The protocol in the IP header. -/
def ipProto (bytes : List UInt8) (iphoff : Nat) : UInt8 := u8 bytes (iphoff + 9)

/-- The length of the TCP header in it. -/
def tcpHeaderLength (bytes : List UInt8) (tcphoff : Nat) : Nat := (decodePayoff (u8 bytes (tcphoff + 12))).toNat

namespace Packet

variable {p q : Packet}

/-- What the tags are behind which a header is found. -/
theorem skipTags_eq_some {bytes : List UInt8} {n i off : Nat} {type : UInt16}
    (h : skipTags bytes n (etherType bytes i) (i + 2) = some (type, off)) :
    ∃ tags, off = i + 2 + tags * sizeofEth1qhdr ∧ (∀ j < tags, etherType bytes (i + j * sizeofEth1qhdr) = kPktType1q) ∧
      etherType bytes (i + tags * sizeofEth1qhdr) = type ∧ (0 < tags → off + 10 ≤ bytes.length) := by
  induction n generalizing i with
  | zero => cases h
  | succ n ih =>
    unfold skipTags at h
    split at h
    · rename_i h1q
      split at h
      · cases h
      · rename_i hlen
        rw [u16_slice _ _ (by decide)] at h
        obtain ⟨tags, hoff, htags, htype, hroom⟩ := ih (i := i + sizeofEth1qhdr) (by
          unfold sizeofEth1qhdr at h ⊢
          exact h)
        refine ⟨tags + 1, ?_, ?_, ?_, ?_⟩
        · rw [hoff]
          unfold sizeofEth1qhdr
          omega
        · intro j hj
          cases j with
          | zero => rwa [Nat.zero_mul, Nat.add_zero]
          | succ j =>
            rw [← htags j (by omega)]
            congr 1
            unfold sizeofEth1qhdr
            omega
        · rw [← htype]
          congr 1
          unfold sizeofEth1qhdr
          omega
        · intro _
          unfold sizeofEthhdr at hlen
          unfold sizeofEth1qhdr at hoff
          omega
    · obtain ⟨htype, hoff⟩ := Prod.mk.inj (Option.some.inj h)
      refine ⟨0, ?_, fun j hj => absurd hj (Nat.not_lt_zero j), ?_, fun hpos => absurd hpos (Nat.not_lt_zero 0)⟩
      · rw [Nat.zero_mul, Nat.add_zero, hoff]
      · rw [Nat.zero_mul, Nat.add_zero, htype]

/-- Tags are passed over, as long as there are passes. -/
theorem skipTags_of_tags {bytes : List UInt8} {n i tags : Nat} (htags : ∀ j < tags, etherType bytes (i + j * sizeofEth1qhdr) = kPktType1q)
    (hend : etherType bytes (i + tags * sizeofEth1qhdr) ≠ kPktType1q) (hn : tags < n)
    (hroom : 0 < tags → i + 2 + tags * sizeofEth1qhdr + 10 ≤ bytes.length) :
    skipTags bytes n (etherType bytes i) (i + 2) =
      some (etherType bytes (i + tags * sizeofEth1qhdr), i + 2 + tags * sizeofEth1qhdr) := by
  induction tags generalizing i n with
  | zero =>
    cases n with
    | zero => omega
    | succ n =>
      rw [Nat.zero_mul, Nat.add_zero] at hend ⊢
      unfold skipTags
      exact if_neg hend
  | succ tags ih =>
    cases n with
    | zero => omega
    | succ n =>
      have hfirst : etherType bytes i = kPktType1q := by
        have h := htags 0 (by omega)
        rwa [Nat.zero_mul, Nat.add_zero] at h
      have hstep : ∀ j, i + sizeofEth1qhdr + j * sizeofEth1qhdr = i + (j + 1) * sizeofEth1qhdr := by
        intro j
        unfold sizeofEth1qhdr
        omega
      have hrest := ih (i := i + sizeofEth1qhdr) (n := n) (fun j hj => by rw [hstep]; exact htags (j + 1) (by omega))
        (by rwa [hstep]) (by omega) (by
          unfold sizeofEth1qhdr at hroom ⊢
          omega)
      unfold skipTags
      rw [if_pos hfirst, if_neg (by
        unfold sizeofEthhdr
        unfold sizeofEth1qhdr at hroom
        omega), u16_slice _ _ (by decide)]
      rw [hstep] at hrest
      have hoff : i + sizeofEth1qhdr + 2 + tags * sizeofEth1qhdr = i + 2 + (tags + 1) * sizeofEth1qhdr := by
        unfold sizeofEth1qhdr
        omega
      rw [hoff] at hrest
      rw [← hrest]
      rfl

/-- `parse_mac` finds the IP header where it is, if there is room for an Ethernet header behind the start of each 802.1q header. -/
theorem macHeader_iff_room (hmac : p.mactype = kEthernet ∨ p.mactype = kRawIP) {iphoff : Nat} (hlen : iphoff ≤ p.caplen) :
    p.macHeader = some (kPktTypeIP4, iphoff) ↔
      IpAt p.mactype p.buffer.bytes iphoff ∧ (p.mactype = kEthernet → sizeofEthhdr < iphoff → iphoff + 10 ≤ p.caplen) := by
  unfold macHeader IpAt
  rcases hmac with hmac | hmac
  · rw [if_pos hmac, slice, u16_slice _ _ (by decide)]
    constructor
    · intro h
      split at h
      · cases h
      · obtain ⟨tags, hoff, htags, htype, hroom⟩ := skipTags_eq_some (i := 12) h
        refine ⟨Or.inr ⟨hmac, tags, hoff, htags, htype⟩, fun _ hlt => hroom (Nat.pos_of_ne_zero fun hzero => ?_)⟩
        rw [hoff, hzero] at hlt
        exact absurd hlt (by decide)
    · rintro ⟨⟨hraw, -⟩ | ⟨-, tags, hoff, htags, htype⟩, hroom⟩
      · rw [hmac] at hraw
        exact absurd hraw (by decide)
      · have hroom' : 0 < tags → 12 + 2 + tags * sizeofEth1qhdr + 10 ≤ p.buffer.bytes.length := by
          intro hpos
          rw [hoff] at hroom
          refine hroom hmac ?_
          unfold sizeofEth1qhdr
          omega
        unfold caplen at hlen ⊢
        rw [hoff] at hlen
        have hskip := skipTags_of_tags (n := p.buffer.bytes.length + 1) htags (by rw [htype]; decide) (by
          unfold sizeofEth1qhdr at hroom'
          omega) hroom'
        rw [if_neg (by omega)]
        rw [htype] at hskip
        rw [hoff]
        exact hskip
  · have hne : p.mactype ≠ kEthernet := by
      rw [hmac]
      decide
    rw [if_neg hne, if_pos hmac]
    constructor
    · intro h
      exact ⟨Or.inl ⟨hmac, (Prod.mk.inj (Option.some.inj h)).2.symm⟩, fun heth => absurd heth hne⟩
    · rintro ⟨⟨-, hoff⟩ | ⟨heth, -⟩, -⟩
      · rw [hoff]
      · exact absurd heth hne

/-- The MAC header leads to the IP header just where it is. -/
theorem macHeader_iff (hmac : p.mactype = kEthernet ∨ p.mactype = kRawIP) {iphoff : Nat} (hlen : iphoff + sizeofIp4hdr ≤ p.caplen) :
    p.macHeader = some (kPktTypeIP4, iphoff) ↔ IpAt p.mactype p.buffer.bytes iphoff := by
  unfold sizeofIp4hdr at hlen
  rw [macHeader_iff_room hmac (by omega), and_iff_left fun _ _ => by omega]

/-- There is one place for the IP header. -/
theorem ipAt_unique (hmac : p.mactype = kEthernet ∨ p.mactype = kRawIP) {iphoff iphoff' : Nat}
    (h : IpAt p.mactype p.buffer.bytes iphoff) (hlen : iphoff + sizeofIp4hdr ≤ p.caplen)
    (h' : IpAt p.mactype p.buffer.bytes iphoff') (hlen' : iphoff' + sizeofIp4hdr ≤ p.caplen) : iphoff = iphoff' := by
  have hheader := (macHeader_iff hmac hlen).mpr h
  rw [(macHeader_iff hmac hlen').mpr h'] at hheader
  exact (Prod.mk.inj (Option.some.inj hheader)).2.symm

/-- What `parse_iphdr` reads from the IP header at `iphoff`. -/
def ipViewAt (p : Packet) (iphoff : Nat) :
    (ConstBuffer × Option Nat × Option Nat) × (UInt32 × UInt32 × UInt8) × UInt8 × UInt8 × UInt16 × UInt8 :=
  let bytes := p.buffer.bytes
  let l4hdr := if ipHeaderLength bytes iphoff ≤ p.caplen - iphoff then some (iphoff + ipHeaderLength bytes iphoff) else none
  ((p.buffer, some iphoff, l4hdr), (ntohl (u32 bytes (iphoff + 12)), ntohl (u32 bytes (iphoff + 16)), ipProto bytes iphoff),
    u8 bytes (iphoff + 1), u8 bytes (iphoff + 8), ntohs (u16 bytes (iphoff + 2)), decodeHlv (u8 bytes iphoff))

/-- What is set from the IP header. -/
theorem setIp_slice (iphoff : Nat) (q : Packet) :
    setIp (q.slice iphoff sizeofIp4hdr) q =
      { q with
        key := { q.key with
          src_ip4 := ntohl (u32 q.buffer.bytes (iphoff + 12)), dst_ip4 := ntohl (u32 q.buffer.bytes (iphoff + 16))
          proto := ipProto q.buffer.bytes iphoff }
        iptos := u8 q.buffer.bytes (iphoff + 1)
        ipttl := u8 q.buffer.bytes (iphoff + 8)
        iplen := ntohs (u16 q.buffer.bytes (iphoff + 2))
        iphlen := decodeHlv (u8 q.buffer.bytes iphoff) } := by
  have hbyte : ∀ i, i + 1 ≤ sizeofIp4hdr → u8 (q.slice iphoff sizeofIp4hdr) i = u8 q.buffer.bytes (iphoff + i) :=
    fun i hi => u8_slice _ _ hi
  have hlen : u16 (q.slice iphoff sizeofIp4hdr) 2 = u16 q.buffer.bytes (iphoff + 2) := u16_slice _ _ (by decide)
  have haddress : ∀ i, i + 4 ≤ sizeofIp4hdr → u32 (q.slice iphoff sizeofIp4hdr) i = u32 q.buffer.bytes (iphoff + i) :=
    fun i hi => u32_slice _ _ hi
  unfold setIp
  rw [hbyte 0 (by decide), hbyte 1 (by decide), hbyte 8 (by decide), hbyte 9 (by decide), hlen, haddress 12 (by decide),
    haddress 16 (by decide)]
  rfl

/-- What is known after the IP header. -/
theorem ipView_readIp {iphoff : Nat} (hptr : q.iphdrPtr = some iphoff) (hl4hdr : q.l4hdrPtr = none)
    (hlen : iphoff + sizeofIp4hdr ≤ q.caplen) : ipView (readIp iphoff q) = ipViewAt q iphoff := by
  unfold readIp
  rw [if_pos (by omega), setIp_slice]
  unfold ipViewAt ipHeaderLength
  dsimp only
  by_cases hihl : (decodeHlv (u8 q.buffer.bytes iphoff)).toNat ≤ q.caplen - iphoff
  · rw [if_pos hihl, if_pos hihl]
    unfold ipView
    dsimp only
    rw [hptr]
  · rw [if_neg hihl, if_neg hihl]
    unfold ipView
    dsimp only
    rw [hptr, hl4hdr]

/-- The first two parsers do not look for the payload. -/
theorem Fresh.payloadView_ip (h : p.Fresh) : payloadView p.ip = (none, 0) := by
  have hmac : payloadView p.mac = (none, 0) := by
    rcases h.mac_cases with ⟨off, -, hmac⟩ | ⟨-, type, hmac⟩
    · rw [hmac]
      exact Prod.ext h.payload h.payloadLen
    · rw [hmac]
      exact Prod.ext h.payload h.payloadLen
  rw [h.ip_eq]
  cases hptr : p.mac.iphdrPtr with
  | none => exact hmac
  | some off => exact (frame_readIp payloadView (fun _ _ => rfl) (fun _ _ => rfl) (fun _ => rfl) off p.mac).trans hmac

/-- What `parse_iphdr` finds: the members of the IP header, or, if it is not captured, no layer 4 header. -/
theorem Fresh.ipView_ip (h : p.Fresh) (hmac : p.mactype = kEthernet ∨ p.mactype = kRawIP) :
    (∃ iphoff, IpAt p.mactype p.buffer.bytes iphoff ∧ iphoff + sizeofIp4hdr ≤ p.caplen ∧ ipView p.ip = ipViewAt p iphoff) ∨
    ((∀ iphoff, IpAt p.mactype p.buffer.bytes iphoff → ¬iphoff + sizeofIp4hdr ≤ p.caplen) ∧ p.ip.l4hdrPtr = none) := by
  rw [h.ip_eq]
  rcases h.mac_cases with ⟨off, hheader, hmac'⟩ | ⟨hheader, type, hmac'⟩
  · rw [hmac']
    by_cases hlen : off + sizeofIp4hdr ≤ p.caplen
    · refine Or.inl ⟨off, (macHeader_iff hmac hlen).mp hheader, hlen, ?_⟩
      exact ipView_readIp (q := { p with pkttype := kPktTypeIP4, iphdrPtr := some off, machdrParsed := true }) rfl h.l4hdr hlen
    · refine Or.inr ⟨fun off' hip hlen' => hlen ?_, ?_⟩
      · have hheader' := (macHeader_iff hmac hlen').mpr hip
        rw [hheader] at hheader'
        rwa [(Prod.mk.inj (Option.some.inj hheader')).2]
      · have hle := macHeader_le hheader
        unfold onPtr readIp
        dsimp only
        rw [if_neg (show ¬sizeofIp4hdr ≤ Packet.caplen { p with pkttype := kPktTypeIP4, iphdrPtr := some off, machdrParsed := true } - off by
          unfold caplen at hlen hle ⊢
          dsimp only
          unfold sizeofIp4hdr at hlen ⊢
          omega)]
        exact h.l4hdr
  · rw [hmac']
    refine Or.inr ⟨fun off' hip hlen' => hheader off' ((macHeader_iff hmac hlen').mpr hip), ?_⟩
    have hnone : (p.closed type).iphdrPtr = none := h.iphdr
    rw [hnone]
    exact h.l4hdr

/-- There is only one place where a captured header can be. -/
theorem Fresh.ipView_at (h : p.Fresh) (hmac : p.mactype = kEthernet ∨ p.mactype = kRawIP) {iphoff : Nat}
    (hip : IpAt p.mactype p.buffer.bytes iphoff) (hlen : iphoff + sizeofIp4hdr ≤ p.caplen) : ipView p.ip = ipViewAt p iphoff := by
  rcases h.ipView_ip hmac with ⟨iphoff', hip', hlen', hview⟩ | ⟨hnone, -⟩
  · rw [hview, ipAt_unique hmac hip' hlen' hip hlen]
  · exact absurd hlen (hnone iphoff hip)

/-! ## The layer 4 header -/

/-- What is set from the TCP header. -/
theorem setTcp_slice (tcphoff : Nat) (q : Packet) :
    setTcp (q.slice tcphoff sizeofTcphdr) q =
      { q with
        key := { q.key with src_port := ntohs (u16 q.buffer.bytes tcphoff), dst_port := ntohs (u16 q.buffer.bytes (tcphoff + 2)) }
        tcpflags := u8 q.buffer.bytes (tcphoff + 13)
        tcpseq := ntohl (u32 q.buffer.bytes (tcphoff + 4))
        tcpack := ntohl (u32 q.buffer.bytes (tcphoff + 8))
        tcpurg := (u8 q.buffer.bytes (tcphoff + 16)).toUInt32
        tcpwin := (u8 q.buffer.bytes (tcphoff + 14)).toUInt32
        tcphlen := decodePayoff (u8 q.buffer.bytes (tcphoff + 12)) } := by
  have hbyte : ∀ i, i + 1 ≤ sizeofTcphdr → u8 (q.slice tcphoff sizeofTcphdr) i = u8 q.buffer.bytes (tcphoff + i) :=
    fun i hi => u8_slice _ _ hi
  have hport : ∀ i, i + 2 ≤ sizeofTcphdr → u16 (q.slice tcphoff sizeofTcphdr) i = u16 q.buffer.bytes (tcphoff + i) :=
    fun i hi => u16_slice _ _ hi
  have hnumber : ∀ i, i + 4 ≤ sizeofTcphdr → u32 (q.slice tcphoff sizeofTcphdr) i = u32 q.buffer.bytes (tcphoff + i) :=
    fun i hi => u32_slice _ _ hi
  unfold setTcp
  rw [hbyte 12 (by decide), hbyte 13 (by decide), hbyte 14 (by decide), hbyte 16 (by decide), hport 0 (by decide), hport 2 (by decide),
    hnumber 4 (by decide), hnumber 8 (by decide)]
  rfl

/-- What is set from the ports. -/
theorem setPorts_slice (l4hoff : Nat) (q : Packet) :
    setPorts (q.slice l4hoff sizeofPorthdr) q =
      { q with
        key := { q.key with src_port := ntohs (u16 q.buffer.bytes l4hoff), dst_port := ntohs (u16 q.buffer.bytes (l4hoff + 2)) } } := by
  have hport : ∀ i, i + 2 ≤ sizeofPorthdr → u16 (q.slice l4hoff sizeofPorthdr) i = u16 q.buffer.bytes (l4hoff + i) :=
    fun i hi => u16_slice _ _ hi
  unfold setPorts
  rw [hport 0 (by decide), hport 2 (by decide)]
  rfl

/-- The payload behind a header of `n` bytes. -/
def payloadAt (q : Packet) (l4hoff n : Nat) : Option Nat × Nat :=
  (some (l4hoff + n), Bytes.unsigned (2 ^ 64) ((q.iplen.toNat : Int) - q.iphlen.toNat - n))

/-- The payload behind TCP. -/
theorem payloadView_readTcp {tcphoff : Nat} (ht : q.key.proto = kTCP) :
    payloadView (readTcp tcphoff q) =
      if sizeofTcphdr ≤ q.caplen - tcphoff ∧ tcpHeaderLength q.buffer.bytes tcphoff ≤ q.caplen - tcphoff then
        q.payloadAt tcphoff (tcpHeaderLength q.buffer.bytes tcphoff)
      else payloadView q := by
  unfold readTcp tcpHeaderLength
  rw [if_pos ht, setTcp_slice]
  by_cases hlen : sizeofTcphdr ≤ q.caplen - tcphoff
  · rw [if_pos hlen]
    dsimp only
    by_cases hdata : (decodePayoff (u8 q.buffer.bytes (tcphoff + 12))).toNat ≤ q.caplen - tcphoff
    · rw [if_pos hdata, if_pos ⟨hlen, hdata⟩]
      rfl
    · rw [if_neg hdata, if_neg (fun h => hdata h.2)]
      rfl
  · rw [if_neg hlen, if_neg (fun h => hlen h.1)]
    rfl

/-- The payload behind UDP. -/
theorem payloadView_readUdp (l4hoff : Nat) (q : Packet) :
    payloadView (readUdp l4hoff q) = if sizeofUdphdr ≤ q.caplen - l4hoff then q.payloadAt l4hoff sizeofUdphdr else payloadView q := by
  unfold readUdp
  split
  · rfl
  · rfl

/-- The payload behind the ports of UDP. -/
theorem payloadView_readPort_udp {l4hoff : Nat} (hu : q.key.proto = kUDP) :
    payloadView (readPort l4hoff q) = if sizeofUdphdr ≤ q.caplen - l4hoff then q.payloadAt l4hoff sizeofUdphdr else payloadView q := by
  unfold readPort
  dsimp only
  rw [if_pos (Or.inr hu), if_pos hu, setPorts_slice]
  by_cases hlen : sizeofPorthdr ≤ q.caplen - l4hoff
  · rw [if_pos hlen, payloadView_readUdp]
    rfl
  · rw [if_neg hlen, if_neg (by
      unfold sizeofPorthdr at hlen
      unfold sizeofUdphdr
      omega)]
    rfl

/-- Other protocols have no ports. -/
theorem readPort_of_ne {l4hoff : Nat} (ht : q.key.proto ≠ kTCP) (hu : q.key.proto ≠ kUDP) : readPort l4hoff q = q := by
  unfold readPort
  rw [if_neg (by
    rintro (h | h)
    · exact ht h
    · exact hu h)]

/-- The ports, and with UDP the length. -/
theorem portsView_readPort {l4hoff : Nat} (hproto : q.key.proto = kTCP ∨ q.key.proto = kUDP) (hlen : sizeofUdphdr ≤ q.caplen - l4hoff) :
    portsView (readPort l4hoff q) =
      (ntohs (u16 q.buffer.bytes l4hoff), ntohs (u16 q.buffer.bytes (l4hoff + 2)),
        if q.key.proto = kUDP then ntohs (u16 q.buffer.bytes (l4hoff + 4)) else q.udplen) := by
  have hports : sizeofPorthdr ≤ q.caplen - l4hoff := by
    unfold sizeofUdphdr at hlen
    unfold sizeofPorthdr
    omega
  unfold readPort
  rw [if_pos hproto, if_pos hports, setPorts_slice]
  dsimp only
  by_cases hu : q.key.proto = kUDP
  · rw [if_pos hu, if_pos hu]
    unfold readUdp
    rw [if_pos (by exact hlen)]
    have hudp : u16 (q.slice l4hoff sizeofUdphdr) 4 = u16 q.buffer.bytes (l4hoff + 4) := u16_slice _ _ (by decide)
    rw [← hudp]
    rfl
  · rw [if_neg hu, if_neg hu]
    rfl

/-- What `parse_ports` finds behind the IP header. -/
theorem Fresh.portsView_ptr (h : p.Fresh) {l4hoff : Nat} (hptr : p.ip.l4hdrPtr = some l4hoff)
    (hproto : p.ip.key.proto = kTCP ∨ p.ip.key.proto = kUDP) (hlen : sizeofUdphdr ≤ p.ip.caplen - l4hoff) :
    portsView p.ports = (ntohs (u16 p.ip.buffer.bytes l4hoff), ntohs (u16 p.ip.buffer.bytes (l4hoff + 2)),
      if p.ip.key.proto = kUDP then ntohs (u16 p.ip.buffer.bytes (l4hoff + 4)) else p.ip.udplen) := by
  rw [← h.ports_eq, ports_of_ptr h.ipParsed.iphdrParsed (h.ipParsed.open hptr).1 hptr, portsView_portsDone, portsView_readPort hproto hlen]

/-- What is known after the TCP header. -/
theorem tcpView_readTcp {tcphoff : Nat} (ht : q.key.proto = kTCP) (hlen : sizeofTcphdr ≤ q.caplen - tcphoff) :
    tcpView (readTcp tcphoff q) =
      (u8 q.buffer.bytes (tcphoff + 13), ntohl (u32 q.buffer.bytes (tcphoff + 4)), ntohl (u32 q.buffer.bytes (tcphoff + 8)),
        (u8 q.buffer.bytes (tcphoff + 16)).toUInt32, (u8 q.buffer.bytes (tcphoff + 14)).toUInt32,
        decodePayoff (u8 q.buffer.bytes (tcphoff + 12))) := by
  unfold readTcp
  rw [if_pos ht, if_pos hlen, setTcp_slice]
  dsimp only
  split
  · rfl
  · rfl

/-- The first two parsers leave the members of the TCP header as they are. -/
theorem Fresh.tcpView_ip (h : p.Fresh) : tcpView p.ip = tcpView p := by
  have hmac : tcpView p.mac = tcpView p := by
    rcases h.mac_cases with ⟨off, -, hmac⟩ | ⟨-, type, hmac⟩
    · rw [hmac]
      rfl
    · rw [hmac]
      rfl
  rw [h.ip_eq]
  cases p.mac.iphdrPtr with
  | none => exact hmac
  | some off => exact (frame_readIp tcpView (fun _ _ => rfl) (fun _ _ => rfl) (fun _ => rfl) off p.mac).trans hmac

end Packet

end Blockmon.Messages
