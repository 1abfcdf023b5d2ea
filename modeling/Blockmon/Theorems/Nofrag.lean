import Blockmon.Lemmas.PacketHeaders
import Blockmon.Nofrag
import Blockmon.Theorems.Packet
import Mathlib.Data.Nat.Bitwise

/-!
# Fragments that pass

The block tests the bits 15 and 12 of the field with the fragment offset, where the flag for more fragments is the bit 13 and the offset takes the
bits below. It reads the field of any packet, whether or not there is an IP header, and whether or not all of it has been captured.
-/

namespace Blockmon.Nofrag

open Blockmon.Messages (Parse IpAt ConstBuffer Accessor callAll u16 ntohs kEthernet kRawIP sizeofEthhdr sizeofIp4hdr)
open Blockmon.Messages.Packet (Fresh member parseMac load)

/-- The field of an IP header with the flags and the fragment offset. -/
def fragField (bytes : List UInt8) (iphoff : Nat) : UInt16 := ntohs (u16 bytes (iphoff + offsetofFragoff))

/-- The flag for more fragments is not set, and the offset is 0. -/
def Whole (field : UInt16) : Prop := field.toNat.testBit 13 = false ∧ field.toNat % 2 ^ 13 = 0

/-- The packet has a complete IP header and is not a fragment. -/
def Unfragmented (macType : Int) (bytes : List UInt8) : Prop :=
  ∃ iphoff, IpAt macType bytes iphoff ∧ iphoff + sizeofIp4hdr ≤ bytes.length ∧ Whole (fragField bytes iphoff)

/-- The block ends without a fault, and lets through what is not fragmented. -/
def Selects {τ : Type} (m : τ) (s : Messages.Packet) (macType : Int) (bytes : List UInt8) : Prop :=
  ∃ sent s', (receiveMsg m).run s = .ok sent s' ∧
    ((Unfragmented macType bytes ∧ sent = [m]) ∨ (¬Unfragmented macType bytes ∧ sent = []))

/-- The header is found and its field captured. The MAC parser wants room for an Ethernet header behind the start of an 802.1q header, which
is four bytes before the IP header. -/
def FieldAt (macType : Int) (bytes : List UInt8) (iphoff : Nat) : Prop :=
  IpAt macType bytes iphoff ∧ iphoff + offsetofFragoff + 2 ≤ bytes.length ∧
    (macType = kEthernet → sizeofEthhdr < iphoff → iphoff + 10 ≤ bytes.length)

/-- The bits that are tested do not mislead. For a complete header: the bit 12 is set, or the bit 15 is set just for fragments. -/
def Telling (bytes : List UInt8) (iphoff : Nat) : Prop :=
  let field := (fragField bytes iphoff).toNat
  if iphoff + sizeofIp4hdr ≤ bytes.length then field.testBit 12 = true ∨ (field.testBit 15 = true ↔ field % 2 ^ 14 ≠ 0)
  else field.testBit 12 = true ∨ field.testBit 15 = true

/-! ## The field -/

/-- A mask of one bit. -/
theorem and_eq_zero_iff {v mask : UInt16} {k : Nat} (hmask : mask.toNat = 2 ^ k) : v &&& mask = 0 ↔ v.toNat.testBit k = false := by
  rw [← UInt16.toNat_inj, UInt16.toNat_and, hmask, UInt16.toNat_zero, Nat.and_two_pow]
  cases v.toNat.testBit k <;> simp

/-- What the block tests are the bits 15 and 12 of the field. -/
theorem passes_iff (v : UInt16) : (v &&& IPHDR_MF = 0 ∧ IPHDR_FRAGOFF v = 0) ↔ v.toNat.testBit 15 = false ∧ v.toNat.testBit 12 = false := by
  rw [IPHDR_FRAGOFF, and_eq_zero_iff (k := 15) rfl, and_eq_zero_iff (k := 12) rfl]

/-- A packet is whole when the fourteen low bits of the field are zero. -/
theorem whole_iff (v : UInt16) : Whole v ↔ v.toNat % 2 ^ 14 = 0 := by
  rw [Whole, Nat.testBit_eq_decide_div_mod_eq, decide_eq_false_iff_not]
  omega

/-- In a whole packet the bit 12 is not set. -/
theorem testBit_of_whole {v : UInt16} (h : Whole v) : v.toNat.testBit 12 = false := by
  rw [whole_iff] at h
  rw [Nat.testBit_eq_decide_div_mod_eq, decide_eq_false_iff_not]
  omega

/-- Two tests agree where the bits tell the same. -/
theorem tested_iff {whole : Prop} {b12 b15 : Bool} (h : whole → b12 = false) :
    (b12 = true ∨ (b15 = true ↔ ¬whole)) ↔ ((b15 = false ∧ b12 = false) ↔ whole) := by
  by_cases hwhole : whole
  · have h12 := h hwhole
    cases b15 <;> simp [hwhole, h12]
  · cases b12 <;> cases b15 <;> simp [hwhole]

/-- The bits that are tested tell whole packets with a complete header from the others. -/
theorem telling_iff (bytes : List UInt8) (iphoff : Nat) :
    Telling bytes iphoff ↔
      (((fragField bytes iphoff).toNat.testBit 15 = false ∧ (fragField bytes iphoff).toNat.testBit 12 = false) ↔
        (iphoff + sizeofIp4hdr ≤ bytes.length ∧ Whole (fragField bytes iphoff))) := by
  have hlow := @testBit_of_whole (fragField bytes iphoff)
  have hwhole := whole_iff (fragField bytes iphoff)
  rw [Telling]
  split
  · rename_i hlen
    rw [and_iff_right hlen, hwhole]
    exact tested_iff fun hzero => hlow (hwhole.mpr hzero)
  · rename_i hlen
    simp only [hlen, false_and, iff_false]
    cases h12 : (fragField bytes iphoff).toNat.testBit 12 <;> simp

section Receiving

variable {p s : Messages.Packet} {iphoff : Nat}

/-- The field is where the pointer to the header leads, inside of what was captured. -/
theorem fieldAt_iff (h : p.Fresh) (hmac : p.mactype = kEthernet ∨ p.mactype = kRawIP) :
    FieldAt p.mactype p.buffer.bytes iphoff ↔ p.mac.iphdrPtr = some iphoff ∧ iphoff + offsetofFragoff + 2 ≤ p.caplen := by
  have hheader : p.macHeader = some (Messages.Packet.kPktTypeIP4, iphoff) ↔ p.mac.iphdrPtr = some iphoff := by
    rcases h.mac_cases with ⟨off, hoff, hptr⟩ | ⟨hnone, type, hptr⟩
    · rw [hoff, hptr]
      simp
    · rw [hptr]
      exact ⟨fun hsome => absurd hsome (hnone iphoff), fun hsome => by simp [Messages.Packet.closed, h.iphdr] at hsome⟩
  rw [← hheader]
  constructor
  · rintro ⟨hip, hlen, hroom⟩
    exact ⟨(Messages.Packet.macHeader_iff_room hmac (show iphoff ≤ p.buffer.bytes.length by omega)).mpr ⟨hip, hroom⟩, hlen⟩
  · rintro ⟨hsome, hlen⟩
    obtain ⟨hip, hroom⟩ := (Messages.Packet.macHeader_iff_room hmac (by omega)).mp hsome
    exact ⟨hip, hlen, hroom⟩

/-- The header that the parser finds is the only one. -/
theorem unfragmented_iff (h : p.Fresh) (hmac : p.mactype = kEthernet ∨ p.mactype = kRawIP) (hfield : FieldAt p.mactype p.buffer.bytes iphoff) :
    Unfragmented p.mactype p.buffer.bytes ↔ iphoff + sizeofIp4hdr ≤ p.caplen ∧ Whole (fragField p.buffer.bytes iphoff) := by
  constructor
  · rintro ⟨iphoff', hip', hlen, hwhole⟩
    have hfield' : FieldAt p.mactype p.buffer.bytes iphoff' := by
      unfold sizeofIp4hdr at hlen
      exact ⟨hip', by rw [offsetofFragoff]; omega, fun _ _ => by omega⟩
    have hsame := ((fieldAt_iff h hmac).mp hfield').1.symm.trans ((fieldAt_iff h hmac).mp hfield).1
    obtain rfl := Option.some.inj hsame
    exact ⟨hlen, hwhole⟩
  · rintro ⟨hlen, hwhole⟩
    exact ⟨iphoff, hfield.1, hlen, hwhole⟩

/-- What the block does with a packet in any stage. -/
theorem run_receiveMsg {τ : Type} (m : τ) (h : p.Fresh) (hs : Messages.Packet.Stage p s) :
    (receiveMsg m).run s = match p.mac.iphdrPtr with
      | none => .error .outOfBounds s.mac
      | some iphoff =>
        if p.caplen < iphoff + offsetofFragoff + 2 then .error .outOfBounds s.mac
        else .ok (if (fragField p.buffer.bytes iphoff).toNat.testBit 15 = false ∧
          (fragField p.buffer.bytes iphoff).toNat.testBit 12 = false then [m] else []) s.mac := by
  obtain ⟨hstage, hptr⟩ := h.stage_mac hs
  have hbuffer := h.buffer_of_stage hstage
  have hiphdr : (member parseMac fun q => q.iphdrPtr).run s = .ok p.mac.iphdrPtr s.mac := by
    rw [← hptr, member, Exn.run_bind_of_ok Messages.Packet.run_parseMac]
    rfl
  rw [receiveMsg, Exn.run_bind_of_ok hiphdr]
  rcases p.mac.iphdrPtr with _ | iphoff
  · rfl
  · dsimp only
    split
    · rename_i hshort
      have hload : (load (iphoff + offsetofFragoff) 2).run s.mac = .error .outOfBounds s.mac := by
        rw [load, Messages.Packet.run_get_bind, if_pos (by rwa [Messages.Packet.caplen_congr hbuffer])]
        rfl
      rw [EStateM.run_bind, hload]
    · rename_i hlong
      have hfield : ntohs (u16 (s.mac.slice (iphoff + offsetofFragoff) 2) 0) = fragField p.buffer.bytes iphoff := by
        rw [Messages.Packet.slice, Messages.u16_slice _ _ (by decide), hbuffer, fragField, Nat.add_zero]
      rw [Exn.run_bind_of_ok (Messages.Packet.run_load (by rw [Messages.Packet.caplen_congr hbuffer]; omega)), hfield]
      simp only [passes_iff]
      split <;> rfl

/-- The block selects right just when the packet has a field and its bits 15 and 12 tell what it has to. -/
theorem selects_iff {τ : Type} (m : τ) (h : p.Fresh) (hs : Messages.Packet.Stage p s) (hmac : p.mactype = kEthernet ∨ p.mactype = kRawIP) :
    Selects m s p.mactype p.buffer.bytes ↔ ∃ iphoff, FieldAt p.mactype p.buffer.bytes iphoff ∧ Telling p.buffer.bytes iphoff := by
  constructor
  · rintro ⟨sent, s', hrun, hsent⟩
    rw [run_receiveMsg m h hs] at hrun
    rcases hptr : p.mac.iphdrPtr with _ | iphoff
    · rw [hptr] at hrun
      cases hrun
    · rw [hptr] at hrun
      dsimp only at hrun
      split at hrun
      · cases hrun
      · rename_i hlong
        have hfield := (fieldAt_iff h hmac).mpr ⟨hptr, Nat.le_of_not_lt hlong⟩
        refine ⟨iphoff, hfield, (telling_iff _ _).mpr ?_⟩
        rw [unfragmented_iff h hmac hfield] at hsent
        cases hrun
        split at hsent
        · rename_i hpass
          rcases hsent with ⟨hunfrag, -⟩ | ⟨-, hempty⟩
          · exact iff_of_true hpass hunfrag
          · cases hempty
        · rename_i hpass
          rcases hsent with ⟨-, hone⟩ | ⟨hunfrag, -⟩
          · cases hone
          · exact iff_of_false hpass hunfrag
  · rintro ⟨iphoff, hfield, htelling⟩
    obtain ⟨hptr, hlong⟩ := (fieldAt_iff h hmac).mp hfield
    have hrun := run_receiveMsg m h hs
    rw [hptr] at hrun
    dsimp only at hrun
    rw [if_neg (Nat.not_lt_of_le hlong)] at hrun
    refine ⟨_, _, hrun, ?_⟩
    rw [unfragmented_iff h hmac hfield]
    rw [telling_iff] at htelling
    split
    · rename_i hpass
      exact .inl ⟨htelling.mp hpass, rfl⟩
    · rename_i hpass
      exact .inr ⟨fun hunfrag => hpass (htelling.mpr hunfrag), rfl⟩

end Receiving

/-- Whatever accessors have been called on the packet before. -/
theorem nofrag_iff {τ : Type} (m : τ) (memory : Messages.Packet) (buffer : ConstBuffer) (macType : Int)
    (hmac : macType = kEthernet ∨ macType = kRawIP) (as : List Accessor) :
    ∃ s, (callAll as).run (Messages.Packet.new memory buffer macType) = .ok () s ∧
      (Selects m s macType buffer.bytes ↔ ∃ iphoff, FieldAt macType buffer.bytes iphoff ∧ Telling buffer.bytes iphoff) := by
  have hfresh := Messages.Packet.fresh_new memory buffer macType
  obtain ⟨s, hrun, hs⟩ := hfresh.run_callAll Messages.Packet.Stage.fresh as
  exact ⟨s, hrun, selects_iff m hfresh hs hmac⟩

/-- A packet that may not be fragmented. -/
def wholePacket : ConstBuffer :=
  ⟨[0x45, 0, 0, 24, 0, 1, 0x40, 0, 64, 17, 0, 0, 10, 0, 0, 1, 10, 0, 0, 2, 0, 80, 0, 80], by decide⟩

/-- A whole packet passes. -/
theorem nofrag_wholePacket :
    ∃ s, (callAll [.payload]).run (Messages.Packet.new .zeroed wholePacket kRawIP) = .ok () s ∧ Selects 1 s kRawIP wholePacket.bytes := by
  obtain ⟨s, hrun, hselects⟩ := nofrag_iff 1 .zeroed wholePacket kRawIP (Or.inr rfl) [.payload]
  refine ⟨s, hrun, hselects.mpr ⟨0, ⟨Or.inl ⟨rfl, rfl⟩, by decide, fun h => absurd h (by decide)⟩, ?_⟩⟩
  unfold Telling
  decide

/-- The first fragment of a packet. -/
def firstFragment : ConstBuffer :=
  ⟨[0x45, 0, 0, 24, 0, 1, 0x20, 0, 64, 17, 0, 0, 10, 0, 0, 1, 10, 0, 0, 2, 0, 80, 0, 80], by decide⟩

/-- The first fragment passes, although more follow. -/
theorem not_selects_firstFragment : ¬Selects 1 (Messages.Packet.new .zeroed firstFragment kRawIP) kRawIP firstFragment.bytes := by
  have hfresh := Messages.Packet.fresh_new .zeroed firstFragment kRawIP
  intro hselects
  obtain ⟨iphoff, ⟨hip, -, -⟩, htelling⟩ := (selects_iff 1 hfresh Messages.Packet.Stage.fresh (Or.inr rfl)).mp hselects
  rcases hip with ⟨-, rfl⟩ | ⟨heth, -⟩
  · unfold Telling at htelling
    revert htelling
    decide
  · exact absurd heth (by decide)

end Blockmon.Nofrag
