import Blockmon.Lemmas.Frame
import Blockmon.NewPacket

/-!
# What the dissectors find in a frame

In every state that the accessors leave, the pointers in the slice are what a search in the frame finds (`Holds`). So each part of the
dissectors has one outcome for the frame.
-/

namespace Blockmon.Messages

open Exn

namespace Frame

variable (f : Frame)

/-- Where the dissectors find a header: none behind an 802.1q header but the payload, which is taken to start there. -/
def header : Header → Option Nat
  | .ethernet => some 0
  | .ipv4 => if f.tagged then none else some f.iphoff
  | .tcp => if f.tagged ∨ ¬f.isTcp then none else some f.l4off
  | .udp => if f.tagged ∨ f.isTcp then none else some f.l4off
  | .icmp => none
  | .payload => if f.tagged then some f.iphoff else some f.payloadOff

/-! The headers for every kind of frame. -/

section Headers

variable {f}

/-- Behind a tag no IP header is found. -/
theorem header_ipv4_tagged (h : f.tagged = true) : f.header .ipv4 = none := if_pos h

/-- Without a tag the IP header is found. -/
theorem header_ipv4 (h : f.tagged = false) : f.header .ipv4 = some f.iphoff := if_neg (by rw [h]; decide)

/-- Behind a tag no TCP header is found. -/
theorem header_tcp_tagged (h : f.tagged = true) : f.header .tcp = none := if_pos (Or.inl h)

/-- A packet of UDP has no TCP header. -/
theorem header_tcp_of_udp (h : ¬f.isTcp) : f.header .tcp = none := if_pos (Or.inr h)

/-- Without a tag the TCP header is found. -/
theorem header_tcp (h : f.tagged = false) (ht : f.isTcp) : f.header .tcp = some f.l4off :=
  if_neg (by rintro (h' | h'); exacts [Bool.noConfusion (h.symm.trans h'), h' ht])

/-- Behind a tag no UDP header is found. -/
theorem header_udp_tagged (h : f.tagged = true) : f.header .udp = none := if_pos (Or.inl h)

/-- A packet of TCP has no UDP header. -/
theorem header_udp_of_tcp (h : f.isTcp) : f.header .udp = none := if_pos (Or.inr h)

/-- Without a tag the UDP header is found. -/
theorem header_udp (h : f.tagged = false) (ht : ¬f.isTcp) : f.header .udp = some f.l4off :=
  if_neg (by rintro (h' | h'); exacts [Bool.noConfusion (h.symm.trans h'), ht h'])

/-- Behind a tag the payload begins where the Ethernet header ends. -/
theorem header_payload_tagged (h : f.tagged = true) : f.header .payload = some f.iphoff := if_pos h

/-- Without a tag the payload begins behind the headers. -/
theorem header_payload (h : f.tagged = false) : f.header .payload = some f.payloadOff := if_neg (by rw [h]; decide)

end Headers

/-- The key of a frame without an 802.1q header, with the addresses as they are in memory. -/
def newKey : FlowKey where
  src_ip4 := u32 f.bytes (f.iphoff + 12)
  dst_ip4 := u32 f.bytes (f.iphoff + 16)
  src_port := ntohs (u16 f.bytes f.l4off)
  dst_port := ntohs (u16 f.bytes (f.l4off + 2))
  proto := ipProto f.bytes f.iphoff

end Frame

namespace NewPacket

/-- A packet of the frame: the frame is in its memory, the pointers are where the headers are, and the key is one of `K`. -/
structure Holds (f : Frame) (K : FlowKey → Prop) (q : NewPacket) : Prop where
  memory : ∃ rest, q.memory = f.bytes ++ rest
  slice : ∀ h ptr, q.slice h = some ptr → ptr = f.header h
  ethernet : q.slice .ethernet = some (some 0)
  flowKey : K q.flowKey

/-- A key that has not been filled, or the frame's. -/
def KeyOf (f : Frame) (k : FlowKey) : Prop := k.src_ip4 ≠ 0 → f.tagged = false ∧ k = f.newKey

variable {f : Frame} {K : FlowKey → Prop}

/-- A new packet is the frame, with nothing parsed. -/
theorem holds_simplePacket (f : Frame) {memory : List UInt8} (hmemory : f.bytes.length ≤ memory.length) :
    Holds f (KeyOf f) (simplePacket memory f.bytes) := by
  refine ⟨⟨memory.drop f.bytes.length, ?_⟩, ?_, rfl, fun hkey => absurd rfl hkey⟩
  · unfold simplePacket
    rw [List.take_of_length_le hmemory]
  · intro h ptr hptr
    unfold simplePacket at hptr
    dsimp only at hptr
    split at hptr
    · rename_i heth
      rw [heth]
      exact (Option.some.inj hptr).symm
    · cases hptr

/-! ## Members -/

/-- A read inside of the frame has its bytes. -/
theorem yields_load {off n : Nat} (h : off + n ≤ f.bytes.length) : Yields (Holds f K) (load off n) (.ok ((f.bytes.drop off).take n)) := by
  intro q hq
  obtain ⟨rest, hmemory⟩ := hq.memory
  refine ⟨q, hq, ?_⟩
  unfold load
  rw [EStateM.run_bind]
  dsimp only [EStateM.run_get]
  rw [if_neg (by rw [hmemory, List.length_append]; omega), hmemory, List.drop_append_of_le_length (by omega),
    List.take_append_of_le_length (by rw [List.length_drop]; omega)]
  rfl

/-- A read of one byte. -/
theorem yields_byteAt {off : Nat} (h : off + 1 ≤ f.bytes.length) : Yields (Holds f K) (byteAt off) (.ok (u8 f.bytes off)) := by
  have hread := (yields_load (K := K) h).bind_pure fun bytes => u8 bytes 0
  rwa [u8_slice _ _ (by decide), Nat.add_zero] at hread

/-- A read of two bytes. -/
theorem yields_shortAt {off : Nat} (h : off + 2 ≤ f.bytes.length) : Yields (Holds f K) (shortAt off) (.ok (u16 f.bytes off)) := by
  have hread := (yields_load (K := K) h).bind_pure fun bytes => u16 bytes 0
  rwa [u16_slice _ _ (by decide), Nat.add_zero] at hread

/-- A read of four bytes. -/
theorem yields_longAt {off : Nat} (h : off + 4 ≤ f.bytes.length) : Yields (Holds f K) (longAt off) (.ok (u32 f.bytes off)) := by
  have hread := (yields_load (K := K) h).bind_pure fun bytes => u32 bytes 0
  rwa [u32_slice _ _ (by decide), Nat.add_zero] at hread

/-- The members of the IP header, and those of the layer 4 header that both protocols have. -/
theorem ip_le (i : Nat) (h : i ≤ sizeofIp4hdr) : f.iphoff + i ≤ f.bytes.length := by
  have hip := f.iphoff_le
  have hl4 := f.l4off_le
  have hpayload := f.payloadOff_le
  omega

/-- The frame has the bytes of a UDP header. -/
theorem l4_le (i : Nat) (h : i ≤ sizeofUdphdr) : f.l4off + i ≤ f.bytes.length := by
  have hl4 := f.l4off_le
  have hpayload := f.payloadOff_le
  omega

/-- A frame of TCP has the bytes of a TCP header. -/
theorem tcp_le (i : Nat) (ht : f.isTcp) (h : i ≤ 20) : f.l4off + i ≤ f.bytes.length := by
  have htcp := f.tcp_le ht
  have hpayload := f.payloadOff_le
  omega

/-- The type in the Ethernet header. -/
theorem yields_etherType : Yields (Holds f K) (etherType 0) (.ok (if f.tagged then Packet.kPktType1q else Packet.kPktTypeIP4)) := by
  have hlen : 12 + 2 ≤ f.bytes.length := by
    have hip := ip_le (f := f) 0 (Nat.zero_le _)
    have hoff := f.iphoff_eq
    split at hoff <;> omega
  rw [← f.etherType_eq]
  exact (yields_shortAt hlen).bind_pure ntohs

/-- The protocol in the IP header. -/
theorem yields_protocol : Yields (Holds f K) (protocol f.iphoff) (.ok (ipProto f.bytes f.iphoff)) :=
  yields_byteAt (ip_le (9 + 1) (by decide))

/-- The length of the IP header, in words. -/
theorem yields_ihl : Yields (Holds f K) (ihl f.iphoff) (.ok ((u8 f.bytes f.iphoff).toNat % 2 ^ 4)) :=
  (yields_byteAt (ip_le 1 (by decide))).bind_pure fun b => b.toNat % 2 ^ 4

/-- The length of the TCP header, in words. -/
theorem yields_doff (ht : f.isTcp) : Yields (Holds f K) (doff f.l4off) (.ok ((u8 f.bytes (f.l4off + 12)).toNat / 2 ^ 4)) :=
  (yields_byteAt (tcp_le (12 + 1) ht (by decide))).bind_pure fun b => b.toNat / 2 ^ 4

/-- Both classes compute the same header lengths. -/
theorem decodeHlv_toNat (b : UInt8) : (decodeHlv b).toNat = b.toNat % 2 ^ 4 * 4 := by
  have hlt := b.toNat_lt
  unfold decodeHlv
  rw [UInt8.toNat_shiftLeft, UInt8.toNat_and]
  have hand : b.toNat &&& (0x0f : UInt8).toNat = b.toNat % 2 ^ 4 := Nat.and_two_pow_sub_one_eq_mod b.toNat 4
  rw [hand, Nat.shiftLeft_eq]
  change b.toNat % 2 ^ 4 * 2 ^ 2 % 256 = _
  omega

/-- The offset of TCP is shifted twice, for every byte. -/
theorem decodePayoff_ofNat : ∀ i : Fin 256, (decodePayoff (.ofNat i.val)).toNat = i.val / 2 ^ 4 * 4 := by decide +kernel

/-- The same for a byte. -/
theorem decodePayoff_toNat (b : UInt8) : (decodePayoff b).toNat = b.toNat / 2 ^ 4 * 4 := by
  have h := decodePayoff_ofNat ⟨b.toNat, b.toNat_lt⟩
  rwa [UInt8.ofNat_toNat] at h

/-- The length of the IP header, in bytes. -/
theorem ipHeaderLength_eq (f : Frame) : (u8 f.bytes f.iphoff).toNat % 2 ^ 4 * 4 = ipHeaderLength f.bytes f.iphoff :=
  (decodeHlv_toNat _).symm

/-- The length of the TCP header, in bytes. -/
theorem tcpHeaderLength_eq (f : Frame) : (u8 f.bytes (f.l4off + 12)).toNat / 2 ^ 4 * 4 = tcpHeaderLength f.bytes f.l4off :=
  (decodePayoff_toNat _).symm

/-! ## Headers -/

/-- A header is searched behind its parents. -/
theorem yields_getHeader {h : Header} {proto : UInt16} {parents : List (Header × Dissect (Option Nat))}
    (hparents : Yields (Holds f K) (getParent proto parents) (.ok (f.header h))) :
    Yields (Holds f K) (getHeader h proto parents) (.ok (f.header h)) := by
  refine yields_get_bind fun q hq => ?_
  cases hptr : q.slice h with
  | some ptr => exact ⟨q, hq, by rw [hq.slice h ptr hptr]; rfl⟩
  | none =>
    have hset : Yields (Holds f K) (modify (setHeader h (f.header h)) : Dissect PUnit) (.ok ⟨⟩) := by
      refine yields_modify fun q hq => ⟨hq.memory, ?_, ?_, hq.flowKey⟩
      · intro h' ptr hptr
        unfold setHeader at hptr
        dsimp only at hptr
        split at hptr
        · rename_i hh
          rw [hh]
          exact (Option.some.inj hptr).symm
        · exact hq.slice h' ptr hptr
      · unfold setHeader
        dsimp only
        split
        · rename_i hh
          rw [← hh]
          rfl
        · exact hq.ethernet
    exact (hparents.bind (hset.bind_pure fun _ => f.header h)) q hq

/-- A parent that is not there is passed over. -/
theorem yields_getParent_none {proto : UInt16} {h : Header} {search : Dissect (Option Nat)} {parents : List (Header × Dissect (Option Nat))}
    {r : Except Fault (Option Nat)} (hsearch : Yields (Holds f K) search (.ok none)) (hrest : Yields (Holds f K) (getParent proto parents) r) :
    Yields (Holds f K) (getParent proto ((h, search) :: parents)) r :=
  hsearch.bind hrest

/-- A parent that carries another protocol is passed over. -/
theorem yields_getParent_skip {proto : UInt16} {h : Header} {search : Dissect (Option Nat)} {parents : List (Header × Dissect (Option Nat))}
    {r : Except Fault (Option Nat)} {p : Nat} (hsearch : Yields (Holds f K) search (.ok (some p)))
    (hcarries : Yields (Holds f K) (carries proto h p) (.ok false)) (hrest : Yields (Holds f K) (getParent proto parents) r) :
    Yields (Holds f K) (getParent proto ((h, search) :: parents)) r :=
  hsearch.bind (hcarries.bind hrest)

/-- A parent that carries the protocol is followed by the header. -/
theorem yields_getParent_found {proto : UInt16} {h : Header} {search : Dissect (Option Nat)} {parents : List (Header × Dissect (Option Nat))}
    {p n : Nat} (hsearch : Yields (Holds f K) search (.ok (some p))) (hcarries : Yields (Holds f K) (carries proto h p) (.ok true))
    (hsize : Yields (Holds f K) (h.sizeOf p) (.ok n)) :
    Yields (Holds f K) (getParent proto ((h, search) :: parents)) (.ok (some (p + n))) :=
  hsearch.bind (hcarries.bind (hsize.bind_pure fun n => some (p + n)))

/-- The Ethernet header is at the start. -/
theorem yields_ethernet : Yields (Holds f K) ethernet (.ok (some 0)) := by
  intro q hq
  refine ⟨q, hq, ?_⟩
  unfold ethernet getHeader
  rw [EStateM.run_bind]
  dsimp only [EStateM.run_get]
  rw [hq.ethernet]
  rfl

/-- The size of the Ethernet header. -/
theorem yields_sizeOf_ethernet : Yields (Holds f K) (Header.ethernet.sizeOf 0) (.ok f.iphoff) := by
  have hoff := f.iphoff_eq
  cases htagged : f.tagged with
  | true =>
    have htype := yields_etherType (f := f) (K := K)
    rw [htagged] at hoff htype
    rw [hoff]
    exact htype.bind (yields_pure 18)
  | false =>
    have htype := yields_etherType (f := f) (K := K)
    rw [htagged] at hoff htype
    rw [hoff]
    exact htype.bind (yields_pure 14)

/-- The search for the IP header. -/
theorem yields_ipv4 : Yields (Holds f K) ipv4 (.ok (f.header .ipv4)) := by
  refine yields_getHeader ?_
  have htype := yields_etherType (f := f) (K := K)
  unfold Frame.header
  cases htagged : f.tagged with
  | true =>
    rw [htagged] at htype
    exact yields_getParent_skip yields_ethernet (htype.bind (yields_pure _)) (yields_pure none)
  | false =>
    rw [htagged] at htype
    have hcarries : Yields (Holds f K) (carries Packet.kPktTypeIP4 .ethernet 0) (.ok true) := htype.bind (yields_pure true)
    rw [← Nat.zero_add f.iphoff]
    exact yields_getParent_found yields_ethernet hcarries yields_sizeOf_ethernet

/-- The size of the IP header. -/
theorem yields_sizeOf_ipv4 : Yields (Holds f K) (Header.ipv4.sizeOf f.iphoff) (.ok (ipHeaderLength f.bytes f.iphoff)) := by
  rw [← ipHeaderLength_eq]
  exact yields_ihl.bind_pure fun n => n * 4

/-- The size of the TCP header. -/
theorem yields_sizeOf_tcp (ht : f.isTcp) : Yields (Holds f K) (Header.tcp.sizeOf f.l4off) (.ok (tcpHeaderLength f.bytes f.l4off)) := by
  rw [← tcpHeaderLength_eq]
  exact (yields_doff ht).bind_pure fun n => n * 4

/-- The IP header carries the protocol that it names. -/
theorem yields_carries_ipv4 {proto : UInt16} (hne : proto ≠ 0) :
    Yields (Holds f K) (carries proto .ipv4 f.iphoff) (.ok (proto = (ipProto f.bytes f.iphoff).toUInt16)) := by
  unfold carries
  rw [if_neg hne]
  exact (yields_protocol.bind_pure UInt8.toUInt16).bind_pure fun proto' => decide (proto = proto')

/-- A header behind the IP header. -/
theorem yields_behindIpv4 {h : Header} {proto : UInt16} (hne : proto ≠ 0)
    (hheader : f.header h = if f.tagged ∨ proto ≠ (ipProto f.bytes f.iphoff).toUInt16 then none else some f.l4off) :
    Yields (Holds f K) (getHeader h proto [(.ipv4, ipv4)]) (.ok (f.header h)) := by
  refine yields_getHeader ?_
  have hip := yields_ipv4 (f := f) (K := K)
  rw [hheader]
  unfold Frame.header at hip
  by_cases htagged : f.tagged = true
  · rw [if_pos htagged] at hip
    rw [if_pos (Or.inl htagged)]
    exact yields_getParent_none hip (yields_pure none)
  · rw [if_neg htagged] at hip
    have hcarries := yields_carries_ipv4 (f := f) (K := K) hne
    by_cases hproto : proto = (ipProto f.bytes f.iphoff).toUInt16
    · rw [if_neg (not_or.mpr ⟨htagged, fun h => h hproto⟩)]
      rw [decide_eq_true hproto] at hcarries
      exact yields_getParent_found hip hcarries yields_sizeOf_ipv4
    · rw [if_pos (Or.inr hproto)]
      rw [decide_eq_false hproto] at hcarries
      exact yields_getParent_skip hip hcarries (yields_pure none)

/-- The number of TCP. -/
theorem kTCP_toUInt16 : Packet.kTCP.toUInt16 = 6 := by decide

/-- The number of UDP. -/
theorem kUDP_toUInt16 : Packet.kUDP.toUInt16 = 17 := by decide

/-- The search for the TCP header. -/
theorem yields_tcp : Yields (Holds f K) tcp (.ok (f.header .tcp)) := by
  refine yields_behindIpv4 (by decide) ?_
  unfold Frame.header
  by_cases ht : f.isTcp
  · have hproto : ipProto f.bytes f.iphoff = Packet.kTCP := ht
    rw [hproto, kTCP_toUInt16]
    simp [ht]
  · rw [f.isUdp ht, kUDP_toUInt16]
    simp [ht]

/-- The search for the UDP header. -/
theorem yields_udp : Yields (Holds f K) udp (.ok (f.header .udp)) := by
  refine yields_behindIpv4 (by decide) ?_
  unfold Frame.header
  by_cases ht : f.isTcp
  · have hproto : ipProto f.bytes f.iphoff = Packet.kTCP := ht
    rw [hproto, kTCP_toUInt16]
    simp [ht]
  · rw [f.isUdp ht, kUDP_toUInt16]
    simp [ht]

/-- A frame of TCP or UDP has no header of ICMP. -/
theorem yields_icmp : Yields (Holds f K) icmp (.ok none) := by
  refine yields_behindIpv4 (h := .icmp) (by decide) ?_
  rw [if_pos]
  · rfl
  · right
    rcases f.proto with hproto | hproto
    · rw [hproto, kTCP_toUInt16]
      decide
    · rw [hproto, kUDP_toUInt16]
      decide

/-- Without a protocol every header carries what is searched for. -/
theorem yields_carries_any (h : Header) (p : Nat) : Yields (Holds f K) (carries 0 h p) (.ok true) := yields_pure true

/-- The search for the payload. -/
theorem yields_payload : Yields (Holds f K) payload (.ok (f.header .payload)) := by
  refine yields_getHeader ?_
  have hip := yields_ipv4 (f := f) (K := K)
  have htcp := yields_tcp (f := f) (K := K)
  have hudp := yields_udp (f := f) (K := K)
  cases htagged : f.tagged with
  | true =>
    rw [Frame.header_ipv4_tagged htagged] at hip
    rw [Frame.header_tcp_tagged htagged] at htcp
    rw [Frame.header_udp_tagged htagged] at hudp
    rw [Frame.header_payload_tagged htagged]
    have hfound : Yields (Holds f K) (getParent 0 [(.ethernet, ethernet)]) (.ok (some (0 + f.iphoff))) :=
      yields_getParent_found yields_ethernet (yields_carries_any _ _) yields_sizeOf_ethernet
    rw [Nat.zero_add] at hfound
    exact yields_getParent_none hudp (yields_getParent_none htcp (yields_getParent_none yields_icmp (yields_getParent_none hip hfound)))
  | false =>
    rw [Frame.header_payload htagged]
    unfold Frame.payloadOff l4HeaderLength
    by_cases ht : f.isTcp
    · rw [Frame.header_udp_of_tcp ht] at hudp
      rw [Frame.header_tcp htagged ht] at htcp
      rw [if_pos (show ipProto f.bytes f.iphoff = Packet.kTCP from ht)]
      exact yields_getParent_none hudp (yields_getParent_found htcp (yields_carries_any _ _) (yields_sizeOf_tcp ht))
    · rw [Frame.header_udp htagged ht] at hudp
      rw [if_neg (show ¬ipProto f.bytes f.iphoff = Packet.kTCP from ht)]
      have hsize : Yields (Holds f K) (Header.udp.sizeOf f.l4off) (.ok sizeofUdphdr) := yields_pure 8
      exact yields_getParent_found hudp (yields_carries_any _ _) hsize

/-! ## Accessors -/

/-- What is read from a header, if there is one. -/
def onHeader {α : Type} (f : Frame) (h : Header) (a : α) : Except Fault α :=
  match f.header h with
  | none => .error .nullPointer
  | some _ => .ok a

/-- A member is read where its header is. -/
theorem yields_member {α : Type} {h : Header} {search : Dissect (Option Nat)} {read : Nat → Dissect α} {a : α}
    (hsearch : Yields (Holds f K) search (.ok (f.header h)))
    (hread : ∀ p, f.header h = some p → Yields (Holds f K) (read p) (.ok a)) :
    Yields (Holds f K) (member search read) (onHeader f h a) := by
  unfold onHeader
  cases hheader : f.header h with
  | none =>
    rw [hheader] at hsearch
    exact hsearch.bind (yields_throw Fault.nullPointer).bind_error
  | some p =>
    rw [hheader] at hsearch
    exact hsearch.bind ((yields_pure p).bind (hread p hheader))

/-- Where the IP header is. -/
theorem iphoff_of_header {p : Nat} (h : f.header .ipv4 = some p) : p = f.iphoff ∧ f.tagged = false := by
  cases htagged : f.tagged with
  | true =>
    rw [Frame.header_ipv4_tagged htagged] at h
    cases h
  | false =>
    rw [Frame.header_ipv4 htagged] at h
    exact ⟨(Option.some.inj h).symm, rfl⟩

/-- Where the TCP header is. -/
theorem l4off_of_header_tcp {p : Nat} (h : f.header .tcp = some p) : p = f.l4off ∧ f.isTcp := by
  by_cases ht : f.isTcp
  · cases htagged : f.tagged with
    | true =>
      rw [Frame.header_tcp_tagged htagged] at h
      cases h
    | false =>
      rw [Frame.header_tcp htagged ht] at h
      exact ⟨(Option.some.inj h).symm, ht⟩
  · rw [Frame.header_tcp_of_udp ht] at h
    cases h

/-- Where the UDP header is. -/
theorem l4off_of_header_udp {p : Nat} (h : f.header .udp = some p) : p = f.l4off := by
  by_cases ht : f.isTcp
  · rw [Frame.header_udp_of_tcp ht] at h
    cases h
  · cases htagged : f.tagged with
    | true =>
      rw [Frame.header_udp_tagged htagged] at h
      cases h
    | false =>
      rw [Frame.header_udp htagged ht] at h
      exact (Option.some.inj h).symm

/-- A member of the IP header. -/
theorem yields_ipMember {α : Type} {read : Nat → Dissect α} {a : α} (hread : Yields (Holds f K) (read f.iphoff) (.ok a)) :
    Yields (Holds f K) (member ipv4 read) (onHeader f .ipv4 a) := by
  refine yields_member yields_ipv4 fun p hp => ?_
  rw [(iphoff_of_header hp).1]
  exact hread

/-- A member of the TCP header. -/
theorem yields_tcpMember {α : Type} {read : Nat → Dissect α} {a : α}
    (hread : f.isTcp → Yields (Holds f K) (read f.l4off) (.ok a)) : Yields (Holds f K) (member tcp read) (onHeader f .tcp a) := by
  refine yields_member yields_tcp fun p hp => ?_
  obtain ⟨hoff, ht⟩ := l4off_of_header_tcp hp
  rw [hoff]
  exact hread ht

/-- A member of the UDP header. -/
theorem yields_udpMember {α : Type} {read : Nat → Dissect α} {a : α} (hread : Yields (Holds f K) (read f.l4off) (.ok a)) :
    Yields (Holds f K) (member udp read) (onHeader f .udp a) := by
  refine yields_member yields_udp fun p hp => ?_
  rw [l4off_of_header_udp hp]
  exact hread

/-- Without a tag there is an IP header to read. -/
theorem onHeader_ipv4 {α : Type} (h : f.tagged = false) (a : α) : onHeader f .ipv4 a = .ok a := by
  unfold onHeader
  rw [Frame.header_ipv4 h]

/-- Behind a tag a null pointer is followed. -/
theorem onHeader_ipv4_tagged {α : Type} (h : f.tagged = true) (a : α) : onHeader f .ipv4 a = .error .nullPointer := by
  unfold onHeader
  rw [Frame.header_ipv4_tagged h]

/-- There is a TCP header to read. -/
theorem onHeader_tcp {α : Type} (h : f.tagged = false) (ht : f.isTcp) (a : α) : onHeader f .tcp a = .ok a := by
  unfold onHeader
  rw [Frame.header_tcp h ht]

/-- There is a UDP header to read. -/
theorem onHeader_udp {α : Type} (h : f.tagged = false) (ht : ¬f.isTcp) (a : α) : onHeader f .udp a = .ok a := by
  unfold onHeader
  rw [Frame.header_udp h ht]

/-- The protocol above Ethernet. -/
theorem yields_l3Protocol : Yields (Holds f K) l3Protocol (.ok (if f.tagged then Packet.kPktType1q else Packet.kPktTypeIP4)) :=
  yields_member (h := .ethernet) yields_ethernet fun p hp => by
    cases hp
    exact yields_etherType

/-- The protocol above IP. -/
theorem yields_l4Protocol : Yields (Holds f K) l4Protocol (onHeader f .ipv4 (ipProto f.bytes f.iphoff)) := yields_ipMember yields_protocol

/-- The tests for a protocol above IP. -/
theorem yields_isL4 (proto : UInt8) :
    Yields (Holds f K) (isL4 proto) (.ok (decide (f.tagged = false ∧ ipProto f.bytes f.iphoff = proto))) := by
  have hl3 := yields_l3Protocol (f := f) (K := K)
  have hl4 := yields_l4Protocol (f := f) (K := K)
  unfold isL4
  refine hl3.bind ?_
  cases htagged : f.tagged with
  | true =>
    rw [if_pos rfl, if_pos (by decide)]
    simpa using yields_pure (I := Holds f K) false
  | false =>
    rw [onHeader_ipv4 htagged] at hl4
    rw [if_neg (by decide)]
    simpa using hl4.bind_pure fun proto' => decide (proto' = proto)

/-- The test for TCP. -/
theorem yields_isTcp : Yields (Holds f K) isTcp (.ok (decide (f.tagged = false ∧ f.isTcp))) := yields_isL4 6

/-- The test for UDP. -/
theorem yields_isUdp : Yields (Holds f K) isUdp (.ok (decide (f.tagged = false ∧ ¬f.isTcp))) := by
  have hudp : ipProto f.bytes f.iphoff = 17 ↔ ¬f.isTcp := by
    constructor
    · intro hproto ht
      unfold Frame.isTcp at ht
      rw [hproto] at ht
      exact absurd ht (by decide)
    · exact f.isUdp
  have h := yields_isL4 (f := f) (K := K) 17
  simp only [hudp] at h
  exact h

/-- The ports, in either of the two headers. -/
theorem yields_port {read : Nat → Dissect UInt16} {port' : UInt16} (what : String)
    (hread : Yields (Holds f K) (read f.l4off) (.ok port')) :
    Yields (Holds f K) (port read what) (if f.tagged then .error (.runtimeError what) else .ok port') := by
  have hudp := yields_isUdp (f := f) (K := K)
  have htcp := yields_isTcp (f := f) (K := K)
  cases htagged : f.tagged with
  | true =>
    simp only [htagged, Bool.true_eq_false, false_and, decide_false] at hudp htcp
    exact hudp.bind (htcp.bind (yields_throw _))
  | false =>
    by_cases ht : f.isTcp
    · simp only [htagged, ht, not_true_eq_false, and_false, decide_false, and_self, decide_true] at hudp htcp
      have hmember := yields_tcpMember fun _ => hread
      rw [onHeader_tcp htagged ht] at hmember
      exact hudp.bind (htcp.bind hmember)
    · simp only [htagged, ht, not_false_eq_true, and_self, decide_true] at hudp
      have hmember := yields_udpMember hread
      rw [onHeader_udp htagged ht] at hmember
      exact hudp.bind hmember

/-- The source port. -/
theorem yields_source : Yields (Holds f K) (source f.l4off) (.ok (ntohs (u16 f.bytes f.l4off))) :=
  (yields_shortAt (l4_le 2 (by decide))).bind_pure ntohs

/-- The destination port. -/
theorem yields_dest : Yields (Holds f K) (dest f.l4off) (.ok (ntohs (u16 f.bytes (f.l4off + 2)))) :=
  (yields_shortAt (l4_le (2 + 2) (by decide))).bind_pure ntohs

/-- The header above IP. -/
theorem yields_l4hdr : Yields (Holds f K) l4hdr (.ok (if f.tagged then none else some f.l4off)) := by
  have htcp := yields_tcp (f := f) (K := K)
  have hudp := yields_udp (f := f) (K := K)
  cases htagged : f.tagged with
  | true =>
    rw [Frame.header_tcp_tagged htagged] at htcp
    rw [Frame.header_udp_tagged htagged] at hudp
    exact hudp.bind htcp
  | false =>
    by_cases ht : f.isTcp
    · rw [Frame.header_tcp htagged ht] at htcp
      rw [Frame.header_udp_of_tcp ht] at hudp
      exact hudp.bind htcp
    · rw [Frame.header_udp htagged ht] at hudp
      exact hudp.bind (yields_pure _)

/-- The predicates of the flags. -/
theorem yields_tcpHas {bit : Nat → Dissect Bool} {b : Bool} (hbit : f.isTcp → Yields (Holds f K) (bit f.l4off) (.ok b)) :
    Yields (Holds f K) (tcpHas bit) (.ok (decide (f.tagged = false ∧ f.isTcp) && b)) := by
  have htcp := yields_isTcp (f := f) (K := K)
  unfold tcpHas
  refine htcp.bind ?_
  by_cases h : f.tagged = false ∧ f.isTcp
  · have hmember := yields_tcpMember hbit
    rw [onHeader_tcp h.1 h.2] at hmember
    rw [decide_eq_true h, if_pos rfl, Bool.true_and]
    exact hmember
  · rw [decide_eq_false h, if_neg (by decide), Bool.false_and]
    exact yields_pure false

/-- A flag of TCP. -/
theorem yields_flagBit (bit : Nat) (ht : f.isTcp) :
    Yields (Holds f K) (flagBit bit f.l4off) (.ok ((u8 f.bytes (f.l4off + 13)).toNat.testBit bit)) :=
  (yields_byteAt (tcp_le (13 + 1) ht (by decide))).bind_pure fun b => b.toNat.testBit bit

/-- What is returned when a flag is set. -/
theorem yields_whenFlag {α : Type} {bit : Nat → Dissect Bool} {read : Nat → Dissect α} {p : Nat} {b : Bool} {a : α}
    (hbit : Yields (Holds f K) (bit p) (.ok b)) (hread : Yields (Holds f K) (read p) (.ok a)) :
    Yields (Holds f K) (whenFlag bit read p) (.ok (if b then some a else none)) := by
  unfold whenFlag
  refine hbit.bind ?_
  cases b with
  | true => exact hread.bind_pure some
  | false => exact yields_pure none

/-! ## The length of the payload -/

/-- The total length. -/
theorem yields_totLen : Yields (Holds f K) (totLen f.iphoff) (.ok (ntohs (u16 f.bytes (f.iphoff + 2)))) :=
  (yields_shortAt (ip_le (2 + 2) (by decide))).bind_pure ntohs

/-- What the total length leaves behind two headers. -/
theorem yields_lenBehind {h : Header} {n : Nat} (hsize : Yields (Holds f K) (h.sizeOf f.l4off) (.ok n)) :
    Yields (Holds f K) (lenBehind (some f.iphoff) h (some f.l4off))
      (.ok (ntohs (u16 f.bytes (f.iphoff + 2)) - .ofNat (ipHeaderLength f.bytes f.iphoff) - .ofNat n)) :=
  (yields_pure f.iphoff).bind (yields_totLen.bind (yields_sizeOf_ipv4.bind ((yields_pure f.l4off).bind (hsize.bind (yields_pure _)))))

/-- The difference of the lengths does not run below zero. -/
theorem payloadSize_eq (f : Frame) :
    (ntohs (u16 f.bytes (f.iphoff + 2)) - .ofNat (ipHeaderLength f.bytes f.iphoff) - .ofNat (l4HeaderLength f.bytes f.iphoff) : UInt16).toNat =
      f.payloadSize := by
  have hheaders := f.headers_le
  have hlt : ipLength f.bytes f.iphoff < 2 ^ 16 := UInt16.toNat_lt _
  unfold Frame.payloadSize
  unfold ipLength at hheaders hlt ⊢
  have hihl : (UInt16.ofNat (ipHeaderLength f.bytes f.iphoff)).toNat = ipHeaderLength f.bytes f.iphoff :=
    UInt16.toNat_ofNat_of_lt (by unfold UInt16.size; omega)
  have hl4 : (UInt16.ofNat (l4HeaderLength f.bytes f.iphoff)).toNat = l4HeaderLength f.bytes f.iphoff :=
    UInt16.toNat_ofNat_of_lt (by unfold UInt16.size; omega)
  have hfirst : (ntohs (u16 f.bytes (f.iphoff + 2)) - .ofNat (ipHeaderLength f.bytes f.iphoff) : UInt16).toNat =
      (ntohs (u16 f.bytes (f.iphoff + 2))).toNat - ipHeaderLength f.bytes f.iphoff := by
    rw [UInt16.toNat_sub_of_le _ _ (by rw [UInt16.le_iff_toNat_le, hihl]; omega), hihl]
  rw [UInt16.toNat_sub_of_le _ _ (by rw [UInt16.le_iff_toNat_le, hl4, hfirst]; omega), hfirst, hl4]

/-- The length of the payload. -/
theorem yields_payloadLen :
    Yields (Holds f K) payloadLen (.ok (if f.tagged then 0 else
      ntohs (u16 f.bytes (f.iphoff + 2)) - .ofNat (ipHeaderLength f.bytes f.iphoff) - .ofNat (l4HeaderLength f.bytes f.iphoff))) := by
  have hip := yields_ipv4 (f := f) (K := K)
  have hudp := yields_udp (f := f) (K := K)
  have htcp := yields_tcp (f := f) (K := K)
  have htype := yields_etherType (f := f) (K := K)
  have hisTcp := yields_isTcp (f := f) (K := K)
  have hisUdp := yields_isUdp (f := f) (K := K)
  unfold payloadLen
  refine yields_ethernet.bind (hip.bind (hudp.bind (htcp.bind (yields_icmp.bind ((yields_pure 0).bind (htype.bind ?_))))))
  cases htagged : f.tagged with
  | true => exact yields_pure 0
  | false =>
    rw [if_pos (by decide), Frame.header_ipv4 htagged, if_neg (by decide)]
    refine hisTcp.bind ?_
    by_cases ht : f.isTcp
    · rw [if_pos (decide_eq_true ⟨htagged, ht⟩), Frame.header_tcp htagged ht]
      unfold l4HeaderLength
      rw [if_pos (show ipProto f.bytes f.iphoff = Packet.kTCP from ht)]
      exact yields_lenBehind (yields_sizeOf_tcp ht)
    · rw [if_neg (by simp [ht])]
      refine hisUdp.bind ?_
      rw [if_pos (decide_eq_true ⟨htagged, ht⟩), Frame.header_udp htagged ht]
      unfold l4HeaderLength
      rw [if_neg (show ¬ipProto f.bytes f.iphoff = Packet.kTCP from ht)]
      have hsize : Yields (Holds f K) (Header.udp.sizeOf f.l4off) (.ok sizeofUdphdr) := yields_pure 8
      exact yields_lenBehind hsize

/-! ## The key -/

/-- What is known of the key may be weakened. -/
theorem Holds.mono {K' : FlowKey → Prop} {q : NewPacket} (h : Holds f K q) (hK : ∀ k, K k → K' k) : Holds f K' q :=
  ⟨h.memory, h.slice, h.ethernet, hK _ h.flowKey⟩

/-- One member of the key: it is read and stored, and the rest follows. -/
theorem fill_member {α β : Type} {read : Dissect α} {store : α → FlowKey → FlowKey} {rest : Dissect β} {k : FlowKey} {a : α}
    {r : Except Fault β} (hread : Yields (Holds f (· = k)) read (.ok a))
    (hrest : ∀ q, Holds f (· = store a k) q → ∃ q', Holds f K q' ∧ rest.run q = outcome r q') (q : NewPacket) (hq : Holds f (· = k) q) :
    ∃ q', Holds f K q' ∧ (do
      let a ← read
      setKey (store a)
      rest).run q = outcome r q' := by
  obtain ⟨m, hm, hrun⟩ := hread q hq
  have hstored : Holds f (· = store a k) { m with flowKey := store a m.flowKey } :=
    ⟨hm.memory, hm.slice, hm.ethernet, by rw [hm.flowKey]⟩
  obtain ⟨q', hq', hrun'⟩ := hrest _ hstored
  refine ⟨q', hq', ?_⟩
  rw [EStateM.run_bind, hrun]
  exact hrun'

/-- The source address, in the order of the machine. -/
theorem yields_saddr : Yields (Holds f K) (member ipv4 saddr) (onHeader f .ipv4 (u32 f.bytes (f.iphoff + 12))) :=
  yields_ipMember (yields_longAt (ip_le (12 + 4) (by decide)))

/-- The destination address, in the order of the machine. -/
theorem yields_daddr : Yields (Holds f K) (member ipv4 daddr) (onHeader f .ipv4 (u32 f.bytes (f.iphoff + 16))) :=
  yields_ipMember (yields_longAt (ip_le (16 + 4) (by decide)))

/-- The key that is filled in. -/
theorem fillKey_holds (htagged : f.tagged = false) {k : FlowKey} (q : NewPacket) (hq : Holds f (· = k) q) :
    ∃ q', Holds f (· = f.newKey) q' ∧ fillKey.run q = outcome (.ok ⟨⟩) q' := by
  have hsaddr : ∀ K, Yields (Holds f K) (member ipv4 saddr) (.ok (u32 f.bytes (f.iphoff + 12))) := by
    intro K
    rw [← onHeader_ipv4 htagged]
    exact yields_saddr
  have hdaddr : ∀ K, Yields (Holds f K) (member ipv4 daddr) (.ok (u32 f.bytes (f.iphoff + 16))) := by
    intro K
    rw [← onHeader_ipv4 htagged]
    exact yields_daddr
  have hsource : ∀ K, Yields (Holds f K) srcPort (.ok (ntohs (u16 f.bytes f.l4off))) := by
    intro K
    have h := yields_port (f := f) (K := K) "NewPacket::src_port" yields_source
    rwa [htagged] at h
  have hdest : ∀ K, Yields (Holds f K) dstPort (.ok (ntohs (u16 f.bytes (f.l4off + 2)))) := by
    intro K
    have h := yields_port (f := f) (K := K) "NewPacket::dst_port" yields_dest
    rwa [htagged] at h
  have hproto : ∀ K, Yields (Holds f K) l4Protocol (.ok (ipProto f.bytes f.iphoff)) := by
    intro K
    rw [← onHeader_ipv4 htagged]
    exact yields_l4Protocol
  unfold fillKey
  refine fill_member (hsaddr _) (fill_member (hdaddr _) (fill_member (hsource _) (fill_member (hdest _) fun q hq => ?_))) q hq
  obtain ⟨m, hm, hrun⟩ := hproto _ q hq
  refine ⟨{ m with flowKey := { m.flowKey with proto := ipProto f.bytes f.iphoff } }, ⟨hm.memory, hm.slice, hm.ethernet, ?_⟩, ?_⟩
  · dsimp only
    rw [hm.flowKey]
    rfl
  · rw [EStateM.run_bind, hrun]
    rfl

/-- The key is filled at the first call, and kept from then on if its source address is not zero. -/
theorem yields_key : Yields (Holds f (KeyOf f)) key (onHeader f .ipv4 f.newKey) := by
  refine yields_get_bind fun q hq => ?_
  by_cases hfilled : q.flowKey.src_ip4 ≠ 0
  · obtain ⟨htagged, hkey⟩ := hq.flowKey hfilled
    rw [onHeader_ipv4 htagged, if_pos hfilled, hkey]
    exact ⟨q, hq, rfl⟩
  · rw [if_neg hfilled]
    cases htagged : f.tagged with
    | true =>
      have hsaddr := yields_saddr (f := f) (K := KeyOf f)
      rw [onHeader_ipv4_tagged htagged] at hsaddr ⊢
      have hfill : Yields (Holds f (KeyOf f)) fillKey (.error .nullPointer) := hsaddr.bind_error
      exact hfill.bind_error q hq
    | false =>
      obtain ⟨q', hq', hrun⟩ := fillKey_holds htagged q ⟨hq.memory, hq.slice, hq.ethernet, rfl⟩
      rw [onHeader_ipv4 htagged]
      refine ⟨q', hq'.mono fun k hk => fun _ => ⟨htagged, hk⟩, ?_⟩
      rw [EStateM.run_bind, hrun, ← hq'.flowKey]
      rfl

end NewPacket

end Blockmon.Messages
