import Blockmon.Lemmas.Payload
import Blockmon.Theorems.Packet

/-!
# The payload of a packet

The length of the payload is computed from the lengths in the headers. It is neither compared with what was captured nor kept from running
below zero. So the payload is inside of the captured bytes exactly when the total length in the IP header covers both headers and the
captured bytes cover the total length.
-/

namespace Blockmon.Messages

open Blockmon.Messages.Packet

/-- The length is the difference of the lengths in the headers as a `size_t`. -/
theorem payload_end_le_iff {iphoff total ihl n caplen : Nat} (hl4hdr : iphoff + ihl + n ≤ caplen) (hcaplen : caplen < 2 ^ 64)
    (htotal : total < 2 ^ 16) :
    iphoff + ihl + n + Bytes.unsigned (2 ^ 64) ((total : Int) - ihl - n) ≤ caplen ↔ ihl + n ≤ total ∧ iphoff + total ≤ caplen := by
  unfold Bytes.unsigned
  omega

/-- `payload` and then `payload_len`, after other accessors. -/
theorem Packet.Fresh.run_payload {p : Packet} (h : p.Fresh) (as : List Accessor) :
    ∃ s q q', (callAll as).run p = .ok () s ∧ Accessor.payload.call.run s = .ok (.pointer (payloadView (payloadStage p)).1) q ∧
      Accessor.payloadLen.call.run q = .ok (.number (payloadView (payloadStage p)).2) q' := by
  obtain ⟨s, hrun, hs⟩ := h.run_callAll Stage.fresh as
  obtain ⟨hq, hview⟩ := h.stage_payload hs
  have hview' := (h.stage_payload hq).2
  refine ⟨s, payloadStage s, payloadStage (payloadStage s), hrun, ?_, ?_⟩
  · rw [← hview]
    exact run_call (h.inBounds_of_stage hs) .payload
  · rw [← hview']
    exact run_call (h.inBounds_of_stage hq) .payloadLen

/-- The payload that a packet reports is inside of the captured bytes exactly when, wherever all the headers up to the payload have been
captured, the total length in the IP header covers them and is covered by the captured bytes. -/
theorem payload_captured_iff (memory : Packet) (buffer : ConstBuffer) {macType : Int} (hmac : macType = kEthernet ∨ macType = kRawIP)
    (as : List Accessor) :
    (∀ p off len q q', (callAll as).run (Packet.new memory buffer macType) = .ok () p →
        Accessor.payload.call.run p = .ok (.pointer (some off)) q → Accessor.payloadLen.call.run q = .ok (.number len) q' →
        off + len ≤ buffer.bytes.length) ↔
      ∀ iphoff n, HeadersAt macType buffer.bytes iphoff n →
        ipHeaderLength buffer.bytes iphoff + n ≤ ipLength buffer.bytes iphoff ∧
          iphoff + ipLength buffer.bytes iphoff ≤ buffer.bytes.length := by
  have hfresh := fresh_new memory buffer macType
  obtain ⟨s, t, t', hcalls, hpayload, hlen⟩ := hfresh.run_payload as
  have hcases := hfresh.payload_cases hmac
  have hend : ∀ iphoff n, HeadersAt macType buffer.bytes iphoff n →
      (iphoff + ipHeaderLength buffer.bytes iphoff + n + Bytes.unsigned (2 ^ 64)
        ((ipLength buffer.bytes iphoff : Int) - ipHeaderLength buffer.bytes iphoff - n) ≤ buffer.bytes.length ↔
      ipHeaderLength buffer.bytes iphoff + n ≤ ipLength buffer.bytes iphoff ∧
        iphoff + ipLength buffer.bytes iphoff ≤ buffer.bytes.length) :=
    fun iphoff n hheaders => payload_end_le_iff hheaders.l4hdr buffer.length_lt (UInt16.toNat_lt _)
  constructor
  · intro hall iphoff n hheaders
    rcases hcases with ⟨iphoff', n', hheaders', hview⟩ | ⟨hnone, -⟩
    · obtain ⟨hoff, hn⟩ := headersAt_unique (p := Packet.new memory buffer macType) hmac hheaders hheaders'
      subst hoff hn
      rw [hview] at hpayload hlen
      exact (hend iphoff n hheaders).mp (hall s _ _ t t' hcalls hpayload hlen)
    · exact absurd hheaders (hnone iphoff n)
  · intro hcondition p off len q q' hcalls' hpayload' hlen'
    have hp : s = p := (EStateM.Result.ok.inj (hcalls.symm.trans hcalls')).2
    subst hp
    obtain ⟨hoff, hq⟩ := EStateM.Result.ok.inj (hpayload.symm.trans hpayload')
    subst hq
    have hlen := (EStateM.Result.ok.inj (hlen.symm.trans hlen')).1
    rcases hcases with ⟨iphoff, n, hheaders, hview⟩ | ⟨-, hview⟩
    · rw [hview] at hoff hlen
      cases hoff
      cases hlen
      exact (hend iphoff n hheaders).mpr (hcondition iphoff n hheaders)
    · rw [hview] at hoff
      cases hoff

/-- A UDP packet with the given total length in its IP header. -/
def udpPacket (total : UInt16) (payload : List UInt8) : List UInt8 :=
  ipHeader total kUDP ++ [0x30, 0x39, 0, 53, 0, UInt8.ofNat (payload.length + 8), 0, 0] ++ payload

/-- A packet of 32 bytes that have all been captured. -/
theorem payload_captured_iff_complete :
    ∃ p off len q q', (callAll [.key]).run (Packet.new Packet.zeroed ⟨udpPacket 32 [1, 2, 3, 4], by decide⟩ kRawIP) = .ok () p ∧
      Accessor.payload.call.run p = .ok (.pointer (some off)) q ∧ Accessor.payloadLen.call.run q = .ok (.number len) q' ∧
      off + len ≤ (udpPacket 32 [1, 2, 3, 4]).length := by
  have hall := (payload_captured_iff Packet.zeroed ⟨udpPacket 32 [1, 2, 3, 4], by decide⟩ (Or.inr rfl) [.key]).mpr fun iphoff n h => by
    rcases h.ip with ⟨-, hoff⟩ | ⟨heth, -⟩
    · subst hoff
      rcases h.l4 with ⟨ht, -⟩ | ⟨-, hn⟩
      · exact absurd ht (by decide)
      · subst hn
        decide
    · exact absurd heth (by decide)
  have hfresh := fresh_new Packet.zeroed ⟨udpPacket 32 [1, 2, 3, 4], by decide⟩ kRawIP
  have hheaders : HeadersAt kRawIP (udpPacket 32 [1, 2, 3, 4]) 0 sizeofUdphdr :=
    ⟨Or.inl ⟨rfl, rfl⟩, by decide, Or.inr ⟨by decide, rfl⟩, by decide⟩
  obtain ⟨p, q, q', hcalls, hpayload, hlen⟩ := hfresh.run_payload [.key]
  rcases hfresh.payload_cases (Or.inr rfl) with ⟨iphoff, n, -, hview⟩ | ⟨hnone, -⟩
  · rw [hview] at hpayload hlen
    exact ⟨p, _, _, q, q', hcalls, hpayload, hlen, hall p _ _ q q' hcalls hpayload hlen⟩
  · exact absurd hheaders (hnone 0 sizeofUdphdr)

/-- With a total length that ends at the IP header, the length of the payload runs below zero. -/
theorem payload_length_wraps :
    ∃ p q q', (callAll []).run (Packet.new Packet.zeroed ⟨udpPacket 20 [], by decide⟩ kRawIP) = .ok () p ∧
      Accessor.payload.call.run p = .ok (.pointer (some 28)) q ∧ Accessor.payloadLen.call.run q = .ok (.number (2 ^ 64 - 8)) q' ∧
      ¬28 + (2 ^ 64 - 8) ≤ (udpPacket 20 []).length := by
  have hfresh := fresh_new Packet.zeroed ⟨udpPacket 20 [], by decide⟩ kRawIP
  have hheaders : HeadersAt kRawIP (udpPacket 20 []) 0 sizeofUdphdr :=
    ⟨Or.inl ⟨rfl, rfl⟩, by decide, Or.inr ⟨by decide, rfl⟩, by decide⟩
  obtain ⟨p, q, q', hcalls, hpayload, hlen⟩ := hfresh.run_payload []
  rcases hfresh.payload_cases (Or.inr rfl) with ⟨iphoff, n, hheaders', hview⟩ | ⟨hnone, -⟩
  · obtain ⟨hoff, hn⟩ := headersAt_unique (p := Packet.new Packet.zeroed ⟨udpPacket 20 [], by decide⟩ kRawIP) (Or.inr rfl) hheaders hheaders'
    subst hoff hn
    have hihl : ipHeaderLength (udpPacket 20 []) 0 = 20 := by decide
    have htotal : ipLength (udpPacket 20 []) 0 = 20 := by decide
    have hnumbers : payloadView (payloadStage (Packet.new Packet.zeroed ⟨udpPacket 20 [], by decide⟩ kRawIP)) = (some 28, 2 ^ 64 - 8) := by
      refine hview.trans ?_
      dsimp only [Packet.new]
      rw [hihl, htotal]
      unfold Bytes.unsigned sizeofUdphdr
      decide
    rw [hnumbers] at hpayload hlen
    exact ⟨p, q, q', hcalls, hpayload, hlen, by decide⟩
  · exact absurd hheaders (hnone 0 sizeofUdphdr)

end Blockmon.Messages
