import Blockmon.Lemmas.FlowCopy

/-!
# The bytes of one direction of a connection

The payloads of the packets of one direction are parts of one stream of bytes, and the sequence numbers say which. The SYN takes a
sequence number and no byte. What a flow has of the stream are the payloads laid end to end in the order of the sequence numbers, up to
the first byte that no packet carries.
-/

namespace Blockmon.Messages

open StableSort (sortBy)

namespace FlowPacket

/-- A packet of the direction whose SYN has the sequence number `isn`. -/
structure OfDirection (isn : UInt32) (p : FlowPacket) : Prop where
  tcp : p.l4 = .tcp
  headers : p.ipHeaderLength.toNat + p.tcpHeaderLength.toNat ≤ p.ipLength.toNat
  syn_iff : p.tcpHasSyn = true ↔ p.tcpSeq = isn

/-- The place of the packet's first byte in the stream. -/
def position (isn : UInt32) (p : FlowPacket) : Nat := if p.tcpHasSyn then 0 else (p.tcpSeq - isn - 1).toNat

/-- The positions of the bytes of a packet. -/
def positions (isn : UInt32) (p : FlowPacket) : List Nat := List.range' (p.position isn) p.length

/-- The packet with its part of a stream as the payload. -/
def carrying (stream : Nat → UInt8) (isn : UInt32) (p : FlowPacket) : FlowPacket :=
  { p with payload := (p.positions isn).map stream }

/-- A packet of the direction may carry the stream. -/
theorem OfDirection.carrying {isn : UInt32} {p : FlowPacket} (h : p.OfDirection isn) (stream : Nat → UInt8) :
    (p.carrying stream isn).Captured :=
  ⟨h.tcp, h.headers, by simp [FlowPacket.carrying, positions, length]⟩

/-- The position is one less than the rank, which counts the SYN. -/
theorem OfDirection.position_eq {isn : UInt32} {p : FlowPacket} (h : p.OfDirection isn) : p.position isn = p.rank isn - 1 := by
  rw [position, rank]
  split
  · next hsyn =>
    rw [h.syn_iff.mp hsyn, UInt32.sub_self]
    rfl
  · next hsyn =>
    have hne : p.tcpSeq ≠ isn := fun he => hsyn (h.syn_iff.mpr he)
    have hpos : (p.tcpSeq - isn).toNat ≠ 0 := by
      intro h0
      refine hne (UInt32.toNat_inj.mp ?_)
      have := p.tcpSeq.toNat_lt
      have := isn.toNat_lt
      rw [UInt32.toNat_sub] at h0
      omega
    have := (p.tcpSeq - isn).toNat_lt
    have hone : (1 : UInt32).toNat = 1 := rfl
    rw [UInt32.toNat_sub, hone]
    omega

end FlowPacket

/-- The packets of one direction, with its SYN. -/
structure Direction (isn : UInt32) (packets : List FlowPacket) : Prop where
  each : ∀ p ∈ packets, p.OfDirection isn
  syn : packets.countP (·.tcpHasSyn) = 1

/-- A TCP packet over 20 bytes of IP and 20 bytes of TCP header. -/
def segment (syn : Bool) (seq : UInt32) (payload : List UInt8) : FlowPacket :=
  { l4 := .tcp, tcpHasSyn := syn, tcpSeq := seq, ipLength := .ofNat (40 + payload.length), ipHeaderLength := 20,
    tcpHeaderLength := 20, udpLength := 0, payload := payload }

/-! ## Up to the first missing byte -/

/-- Payloads laid end to end when the first `next` bytes are there already: what is sent again counts once. -/
def reassembled (isn : UInt32) (next : Nat) : List FlowPacket → List UInt8
  | [] => []
  | p :: rest =>
    if p.position isn ≤ next then
      p.payload.drop (next - p.position isn) ++ reassembled isn (max next (p.position isn + p.length)) rest
    else []

/-- The payload that a flow has, up to the first missing byte. -/
def payloadUpToHole (isn : UInt32) (packets : List FlowPacket) : List UInt8 := reassembled isn 0 (inOrder isn packets)

/-- The first byte that is missing after `next` bytes, for packets in order. -/
def reach (isn : UInt32) (next : Nat) : List FlowPacket → Nat
  | [] => next
  | p :: rest => if p.position isn ≤ next then reach isn (max next (p.position isn + p.length)) rest else next

/-- The first position that no packet has. -/
def firstMissing (isn : UInt32) (packets : List FlowPacket) : Nat := reach isn 0 (inOrder isn packets)

/-- The reach only grows. -/
theorem le_reach (isn : UInt32) (next : Nat) (packets : List FlowPacket) : next ≤ reach isn next packets := by
  induction packets generalizing next with
  | nil => exact Nat.le_refl _
  | cons p rest ih =>
    rw [reach]
    split
    · exact le_trans (le_max_left _ _) (ih _)
    · exact Nat.le_refl _

/-- Every byte that is reached is carried by a packet. -/
theorem carried_of_lt_reach {isn : UInt32} {next : Nat} {packets : List FlowPacket} {n : Nat} (h : n < reach isn next packets) :
    n < next ∨ ∃ p ∈ packets, n ∈ p.positions isn := by
  induction packets generalizing next with
  | nil => exact Or.inl h
  | cons p rest ih =>
    rw [reach] at h
    split at h
    · next hp =>
      rcases ih h with hn | ⟨q, hq, hn⟩
      · by_cases hnext : n < next
        · exact Or.inl hnext
        · refine Or.inr ⟨p, List.mem_cons_self, ?_⟩
          rw [FlowPacket.positions, List.mem_range'_1]
          omega
      · exact Or.inr ⟨q, List.mem_cons_of_mem _ hq, hn⟩
    · exact Or.inl h

/-- A packet that begins at or before the first missing byte ends there at the latest. -/
theorem end_le_reach {isn : UInt32} {packets : List FlowPacket} (h : packets.Pairwise fun p q => p.position isn ≤ q.position isn)
    {next : Nat} {p : FlowPacket} (hp : p ∈ packets) (hreach : p.position isn ≤ reach isn next packets) :
    p.position isn + p.length ≤ reach isn next packets := by
  induction packets generalizing next with
  | nil => simp at hp
  | cons q rest ih =>
    obtain ⟨hq, hrest⟩ := List.pairwise_cons.mp h
    rw [reach] at hreach ⊢
    by_cases hle : q.position isn ≤ next
    · rw [if_pos hle] at hreach ⊢
      rcases List.mem_cons.mp hp with rfl | hp
      · exact le_trans (le_max_right _ _) (le_reach isn _ rest)
      · exact ih hrest hp hreach
    · rw [if_neg hle] at hreach
      rcases List.mem_cons.mp hp with rfl | hp
      · exact absurd hreach hle
      · exact absurd (le_trans (hq p hp) hreach) hle

/-- In order the positions increase. -/
theorem pairwise_position {isn : UInt32} {packets : List FlowPacket} (h : ∀ p ∈ packets, p.OfDirection isn) :
    (inOrder isn packets).Pairwise fun p q => p.position isn ≤ q.position isn := by
  refine (StableSort.pairwise_sortBy (FlowPacket.rank isn) packets).imp_of_mem ?_
  intro p q hp hq hpq
  rw [(h p (StableSort.mem_sortBy.mp hp)).position_eq, (h q (StableSort.mem_sortBy.mp hq)).position_eq]
  omega

/-- A packet at or before the hole ends before it. -/
theorem end_le_firstMissing {isn : UInt32} {packets : List FlowPacket} (h : ∀ p ∈ packets, p.OfDirection isn) {p : FlowPacket}
    (hp : p ∈ packets) (hle : p.position isn ≤ firstMissing isn packets) : p.position isn + p.length ≤ firstMissing isn packets :=
  end_le_reach (pairwise_position h) (StableSort.mem_sortBy.mpr hp) hle

/-- The first missing byte is the first that no packet carries. -/
theorem firstMissing_spec {isn : UInt32} {packets : List FlowPacket} (h : ∀ p ∈ packets, p.OfDirection isn) :
    (∀ n < firstMissing isn packets, ∃ p ∈ packets, n ∈ p.positions isn) ∧
      ∀ p ∈ packets, firstMissing isn packets ∉ p.positions isn := by
  constructor
  · intro n hn
    rcases carried_of_lt_reach hn with h0 | ⟨p, hp, hn⟩
    · omega
    · exact ⟨p, StableSort.mem_sortBy.mp hp, hn⟩
  · intro p hp hmem
    rw [FlowPacket.positions, List.mem_range'_1] at hmem
    have := end_le_firstMissing h hp hmem.1
    omega

/-! ## Packets that carry a stream -/

/-- The first positions of a range. -/
theorem take_range' (start n k : Nat) : (List.range' start n).take k = List.range' start (min k n) := by
  rcases Nat.le_total n k with h | h
  · rw [List.take_range'_of_length_le h, Nat.min_eq_right h]
  · rw [List.take_range'_of_length_ge h, Nat.min_eq_left h]

/-- Reading a part of the stream. -/
theorem FlowPacket.read_carrying (stream : Nat → UInt8) (isn : UInt32) (p : FlowPacket) (payloadOffset nbytes : Nat) :
    (p.carrying stream isn).read payloadOffset nbytes =
      if payloadOffset + nbytes ≤ p.length then .ok ((List.range' (p.position isn + payloadOffset) nbytes).map stream)
      else .error .outOfPayload := by
  have hlength : ((p.positions isn).map stream).length = p.length := by rw [List.length_map, positions, List.length_range']
  rw [read, carrying, hlength]
  split
  · next hin =>
    have hmin : min nbytes (p.length - payloadOffset) = nbytes := by omega
    rw [← List.map_drop, ← List.map_take, positions, List.drop_range', Nat.mul_one, take_range', hmin]
  · rfl

/-- The bytes that packets carry are those of the stream at their positions. -/
theorem flatMap_payload_carrying (stream : Nat → UInt8) (isn : UInt32) (packets : List FlowPacket) :
    (packets.map (·.carrying stream isn)).flatMap (·.payload) = (packets.flatMap (·.positions isn)).map stream := by
  rw [List.flatMap_map, List.map_flatMap]
  rfl

/-- What is reassembled is the stream up to the reach. -/
theorem reassembled_carrying (stream : Nat → UInt8) (isn : UInt32) (next : Nat) (packets : List FlowPacket) :
    reassembled isn next (packets.map (·.carrying stream isn)) =
      (List.range' next (reach isn next packets - next)).map stream := by
  induction packets generalizing next with
  | nil => simp [reassembled, reach]
  | cons p rest ih =>
    have hposition : (p.carrying stream isn).position isn = p.position isn := rfl
    have hlength : (p.carrying stream isn).length = p.length := rfl
    rw [List.map_cons, reassembled, reach, hposition, hlength]
    split
    · next hle =>
      have hreach := le_reach isn (max next (p.position isn + p.length)) rest
      have hdrop : (p.carrying stream isn).payload.drop (next - p.position isn) =
          (List.range' next (p.position isn + p.length - next)).map stream := by
        rw [FlowPacket.carrying, FlowPacket.positions, ← List.map_drop, List.drop_range', Nat.mul_one]
        congr 2 <;> omega
      rw [ih, hdrop, ← List.map_append]
      congr 1
      have hmax : max next (p.position isn + p.length) = next + (p.position isn + p.length - next) := by omega
      rw [hmax] at hreach ⊢
      rw [List.range'_append_1]
      congr 1
      omega
    · simp

/-- The order does not depend on the payloads. -/
theorem inOrder_carrying (stream : Nat → UInt8) (isn : UInt32) (packets : List FlowPacket) :
    inOrder isn (packets.map (·.carrying stream isn)) = (inOrder isn packets).map (·.carrying stream isn) :=
  (StableSort.map_sortBy _ _ packets fun _ => rfl).symm

/-- The order by numbers does not depend on the payloads. -/
theorem bySeq_carrying (stream : Nat → UInt8) (isn : UInt32) (packets : List FlowPacket) :
    bySeq (packets.map (·.carrying stream isn)) = (bySeq packets).map (·.carrying stream isn) :=
  (StableSort.map_sortBy _ _ packets fun _ => rfl).symm

/-- The payload up to the hole is the stream up to it. -/
theorem payloadUpToHole_carrying (stream : Nat → UInt8) (isn : UInt32) (packets : List FlowPacket) :
    payloadUpToHole isn (packets.map (·.carrying stream isn)) = (List.range' 0 (firstMissing isn packets)).map stream := by
  rw [payloadUpToHole, inOrder_carrying, reassembled_carrying, Nat.sub_zero, firstMissing]

/-- The packets up to the hole do not depend on the payloads. -/
theorem untilHole_carrying (stream : Nat → UInt8) (isn expected : UInt32) (packets : List FlowPacket) :
    untilHole expected (packets.map (·.carrying stream isn)) = (untilHole expected packets).map (·.carrying stream isn) := by
  induction packets generalizing expected with
  | nil => rfl
  | cons p rest ih =>
    have hseq : (p.carrying stream isn).tcpSeq = p.tcpSeq := rfl
    have hlength : (p.carrying stream isn).length = p.length := rfl
    rw [List.map_cons, untilHole, untilHole, List.map_cons, hseq, hlength]
    split
    · rw [ih]
    · rfl

/-- The inspected packets do not depend on the payloads. -/
theorem inspected_carrying (stream : Nat → UInt8) (isn : UInt32) (packets : List FlowPacket) :
    inspected (packets.map (·.carrying stream isn)) = (inspected packets).map (·.carrying stream isn) := by
  cases packets with
  | nil => rfl
  | cons p rest =>
    have hsyn : (p.carrying stream isn).tcpHasSyn = p.tcpHasSyn := rfl
    rw [List.map_cons, inspected, inspected, hsyn]
    split
    · exact untilHole_carrying stream isn p.tcpSeq (p :: rest)
    · rfl

/-- The packets up to the hole are packets. -/
theorem mem_untilHole {expected : UInt32} {packets : List FlowPacket} {p : FlowPacket} (h : p ∈ untilHole expected packets) :
    p ∈ packets := by
  induction packets generalizing expected with
  | nil => exact h
  | cons q rest ih =>
    rw [untilHole] at h
    rcases List.mem_cons.mp h with rfl | h
    · exact List.mem_cons_self
    · split at h
      · exact List.mem_cons_of_mem _ (ih h)
      · simp at h

/-- The inspected packets are packets. -/
theorem mem_inspected {packets : List FlowPacket} {p : FlowPacket} (h : p ∈ inspected packets) : p ∈ packets := by
  cases packets with
  | nil => exact h
  | cons q rest =>
    rw [inspected] at h
    split at h
    · exact mem_untilHole h
    · simp at h

/-- Bytes of any stream are the same exactly if their places are. -/
theorem forall_stream_iff {l l' : List Nat} : (∀ stream : Nat → UInt8, l.map stream = l'.map stream) ↔ l = l' := by
  constructor
  · intro h
    refine List.ext_getElem ?_ ?_
    · simpa using congrArg List.length (h fun _ => 0)
    · intro k hk hk'
      have hmark : (l.map fun n => if n = l[k] then (1 : UInt8) else 0)[k]? = (l'.map fun n => if n = l[k] then (1 : UInt8) else 0)[k]? := by
        rw [h]
      rw [List.getElem?_map, List.getElem?_map, List.getElem?_eq_getElem hk, List.getElem?_eq_getElem hk'] at hmark
      by_contra hne
      rw [Option.map_some, Option.map_some, if_pos rfl, if_neg fun he => hne he.symm] at hmark
      exact absurd hmark (by decide)
  · rintro rfl stream
    rfl

end Blockmon.Messages
