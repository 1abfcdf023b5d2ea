import Blockmon.Lemmas.PacketHeaders

/-!
# Where the payload is

The payload is found behind a TCP or UDP header that has been captured completely, and nowhere else.
-/

namespace Blockmon.Messages

open Blockmon.Messages.Packet

/-- The headers up to the payload have been captured: the IP header at `iphoff`, and behind it a TCP or UDP header of `n` bytes. -/
structure HeadersAt (macType : Int) (bytes : List UInt8) (iphoff n : Nat) : Prop where
  ip : IpAt macType bytes iphoff
  iphdr : iphoff + sizeofIp4hdr ≤ bytes.length
  l4 :
    (ipProto bytes iphoff = kTCP ∧ iphoff + ipHeaderLength bytes iphoff + sizeofTcphdr ≤ bytes.length ∧
      n = tcpHeaderLength bytes (iphoff + ipHeaderLength bytes iphoff)) ∨
    (ipProto bytes iphoff = kUDP ∧ n = sizeofUdphdr)
  l4hdr : iphoff + ipHeaderLength bytes iphoff + n ≤ bytes.length

/-- There is one place for the headers. -/
theorem headersAt_unique {p : Packet} (hmac : p.mactype = kEthernet ∨ p.mactype = kRawIP) {iphoff iphoff' n n' : Nat}
    (h : HeadersAt p.mactype p.buffer.bytes iphoff n) (h' : HeadersAt p.mactype p.buffer.bytes iphoff' n') : iphoff = iphoff' ∧ n = n' := by
  have hoff := ipAt_unique hmac h.ip h.iphdr h'.ip h'.iphdr
  subst hoff
  refine ⟨rfl, ?_⟩
  rcases h.l4 with ⟨ht, -, hn⟩ | ⟨hu, hn⟩
  · rcases h'.l4 with ⟨-, -, hn'⟩ | ⟨hu', -⟩
    · rw [hn, hn']
    · rw [ht] at hu'
      exact absurd hu'.symm kUDP_ne_kTCP
  · rcases h'.l4 with ⟨ht', -⟩ | ⟨-, hn'⟩
    · rw [hu] at ht'
      exact absurd ht' kUDP_ne_kTCP
    · rw [hn, hn']

namespace Packet

variable {p : Packet}

/-! ## Where the payload is -/

/-- Without a header above IP there is no payload. -/
theorem Fresh.payload_of_none (h : p.Fresh) (hptr : p.ip.l4hdrPtr = none) : payloadView (payloadStage p) = (none, 0) := by
  unfold payloadStage
  rw [tcp_of_none h.ipParsed.iphdrParsed hptr, ports_of_none h.ipParsed.iphdrParsed hptr]
  split
  · exact h.payloadView_ip
  · exact h.payloadView_ip

/-- The payload of TCP. -/
theorem Fresh.payload_of_tcp (h : p.Fresh) {l4hoff : Nat} (hptr : p.ip.l4hdrPtr = some l4hoff) (ht : p.ip.key.proto = kTCP) :
    payloadView (payloadStage p) =
      if sizeofTcphdr ≤ p.ip.caplen - l4hoff ∧ tcpHeaderLength p.ip.buffer.bytes l4hoff ≤ p.ip.caplen - l4hoff then
        p.ip.payloadAt l4hoff (tcpHeaderLength p.ip.buffer.bytes l4hoff)
      else (none, 0) := by
  unfold payloadStage
  rw [if_pos ht, tcp_of_ptr h.ipParsed.iphdrParsed (h.ipParsed.open hptr).2 hptr, payloadView_tcpDone, payloadView_readTcp ht,
    h.payloadView_ip]

/-- The payload of UDP. -/
theorem Fresh.payload_of_udp (h : p.Fresh) {l4hoff : Nat} (hptr : p.ip.l4hdrPtr = some l4hoff) (hu : p.ip.key.proto = kUDP) :
    payloadView (payloadStage p) =
      if sizeofUdphdr ≤ p.ip.caplen - l4hoff then p.ip.payloadAt l4hoff sizeofUdphdr else (none, 0) := by
  unfold payloadStage
  rw [if_neg (by rw [hu]; exact kUDP_ne_kTCP), ports_of_ptr h.ipParsed.iphdrParsed (h.ipParsed.open hptr).1 hptr, payloadView_portsDone,
    payloadView_readPort_udp hu, h.payloadView_ip]

/-- Other protocols have no payload. -/
theorem Fresh.payload_of_ne (h : p.Fresh) {l4hoff : Nat} (hptr : p.ip.l4hdrPtr = some l4hoff) (ht : p.ip.key.proto ≠ kTCP)
    (hu : p.ip.key.proto ≠ kUDP) : payloadView (payloadStage p) = (none, 0) := by
  unfold payloadStage
  rw [if_neg ht, ports_of_ptr h.ipParsed.iphdrParsed (h.ipParsed.open hptr).1 hptr, payloadView_portsDone, readPort_of_ne ht hu,
    h.payloadView_ip]

/-- The payload is behind the headers, if they have been captured, and otherwise there is none. -/
theorem Fresh.payload_cases (h : p.Fresh) (hmac : p.mactype = kEthernet ∨ p.mactype = kRawIP) :
    (∃ iphoff n, HeadersAt p.mactype p.buffer.bytes iphoff n ∧
      payloadView (payloadStage p) = (some (iphoff + ipHeaderLength p.buffer.bytes iphoff + n),
        Bytes.unsigned (2 ^ 64) ((ipLength p.buffer.bytes iphoff : Int) - ipHeaderLength p.buffer.bytes iphoff - n))) ∨
    ((∀ iphoff n, ¬HeadersAt p.mactype p.buffer.bytes iphoff n) ∧ payloadView (payloadStage p) = (none, 0)) := by
  rcases h.ipView_ip hmac with ⟨iphoff, hip, hlen, hview⟩ | ⟨hnone, hptr⟩
  · have hbuffer : p.ip.buffer = p.buffer := congrArg (fun v => v.1.1) hview
    have hproto : p.ip.key.proto = ipProto p.buffer.bytes iphoff := congrArg (fun v => v.2.1.2.2) hview
    have hiplen : p.ip.iplen = ntohs (u16 p.buffer.bytes (iphoff + 2)) := congrArg (fun v => v.2.2.2.2.1) hview
    have hiphlen : p.ip.iphlen = decodeHlv (u8 p.buffer.bytes iphoff) := congrArg (fun v => v.2.2.2.2.2) hview
    have hpayload : ∀ off n, p.ip.payloadAt off n = (some (off + n),
        Bytes.unsigned (2 ^ 64) ((ipLength p.buffer.bytes iphoff : Int) - ipHeaderLength p.buffer.bytes iphoff - n)) := by
      intro off n
      unfold payloadAt ipLength ipHeaderLength
      rw [hiplen, hiphlen]
    -- there is only one place where the headers can be
    have honly : (∀ n, ¬HeadersAt p.mactype p.buffer.bytes iphoff n) → ∀ iphoff' n, ¬HeadersAt p.mactype p.buffer.bytes iphoff' n := by
      intro hnot iphoff' n h'
      have hoff := ipAt_unique hmac h'.ip h'.iphdr hip hlen
      subst hoff
      exact hnot n h'
    by_cases hihl : ipHeaderLength p.buffer.bytes iphoff ≤ p.caplen - iphoff
    · have hptr : p.ip.l4hdrPtr = some (iphoff + ipHeaderLength p.buffer.bytes iphoff) :=
        (congrArg (fun v => v.1.2.2) hview).trans (if_pos hihl)
      unfold caplen at hihl hlen
      by_cases ht : p.ip.key.proto = kTCP
      · rw [h.payload_of_tcp hptr ht, hbuffer, caplen_congr hbuffer, hpayload]
        unfold caplen
        split
        · rename_i hcaptured
          obtain ⟨htcp, hdata⟩ := hcaptured
          exact Or.inl ⟨iphoff, _, ⟨hip, hlen, Or.inl ⟨hproto.symm.trans ht, by omega, rfl⟩, by omega⟩, rfl⟩
        · rename_i hshort
          refine Or.inr ⟨honly fun n h' => hshort ?_, rfl⟩
          have hl4hdr := h'.l4hdr
          rcases h'.l4 with ⟨-, htcp, hn⟩ | ⟨hu, -⟩
          · omega
          · rw [← hproto, ht] at hu
            exact absurd hu.symm kUDP_ne_kTCP
      · by_cases hu : p.ip.key.proto = kUDP
        · rw [h.payload_of_udp hptr hu, caplen_congr hbuffer, hpayload]
          unfold caplen
          split
          · rename_i hcaptured
            exact Or.inl ⟨iphoff, _, ⟨hip, hlen, Or.inr ⟨hproto.symm.trans hu, rfl⟩, by omega⟩, rfl⟩
          · rename_i hshort
            refine Or.inr ⟨honly fun n h' => hshort ?_, rfl⟩
            have hl4hdr := h'.l4hdr
            rcases h'.l4 with ⟨ht', -⟩ | ⟨-, hn⟩
            · exact absurd (hproto.trans ht') ht
            · omega
        · refine Or.inr ⟨honly fun n h' => ?_, h.payload_of_ne hptr ht hu⟩
          rcases h'.l4 with ⟨ht', -⟩ | ⟨hu', -⟩
          · exact ht (hproto.trans ht')
          · exact hu (hproto.trans hu')
    · have hptr : p.ip.l4hdrPtr = none := (congrArg (fun v => v.1.2.2) hview).trans (if_neg hihl)
      refine Or.inr ⟨honly fun n h' => hihl ?_, h.payload_of_none hptr⟩
      have hl4hdr := h'.l4hdr
      unfold caplen
      omega
  · exact Or.inr ⟨fun iphoff n h' => hnone iphoff h'.ip h'.iphdr, h.payload_of_none hptr⟩

end Packet

end Blockmon.Messages
