import Blockmon.Lemmas.FlowStream

/-!
# The payload of a flow is copied right in these cases

For the packets of one direction of a connection, `getPayload` is compared with the stream of the connection: it should copy `nbytes`
bytes from `offset` on, or as many as there are before the first missing byte. When it does so can be said by the packets that it looks
at (`Serves`). It does not in general: the sequence number it expects counts one for every packet where only the SYN takes one, the packet
with the hole before it is copied before the hole is seen, an offset inside of a packet is not taken into account or leads out of the
packet, and a SYN at the head of the list is overlooked.
-/

namespace Blockmon.Messages

/-- The packets hold, one behind the other, the bytes from `pos` on, `need` of them or as many as there are before the missing one. -/
def Continues (isn : UInt32) (missing pos need : Nat) : List FlowPacket → Prop
  | [] => need = 0 ∨ pos = missing
  | p :: rest =>
    need = 0 ∨ (p.length = 0 ∨ p.position isn = pos) ∧ Continues isn missing (pos + p.length) (need - p.length) rest

/-- Among the packets, with `skipped` bytes skipped before them, the first that holds a byte behind the offset is right: it begins at the
offset and the others continue it, or, where nothing was skipped, it begins the stream and holds all of the bytes. -/
def Serves (isn : UInt32) (missing skipped offset nbytes : Nat) : List FlowPacket → Prop
  | [] => missing ≤ offset
  | p :: rest =>
    if skipped + p.length ≤ offset then Serves isn missing (skipped + p.length) offset nbytes rest
    else if skipped = 0 ∧ 0 < offset then p.position isn = 0 ∧ offset + nbytes ≤ p.length
    else offset < missing ∧ Continues isn missing offset nbytes (p :: rest)

instance Continues.decidable (isn : UInt32) (missing : Nat) :
    (pos need : Nat) → (packets : List FlowPacket) → Decidable (Continues isn missing pos need packets)
  | pos, need, [] => inferInstanceAs (Decidable (need = 0 ∨ pos = missing))
  | pos, need, p :: rest =>
    have := Continues.decidable isn missing (pos + p.length) (need - p.length) rest
    inferInstanceAs (Decidable (need = 0 ∨ (p.length = 0 ∨ p.position isn = pos) ∧ _))

instance Serves.decidable (isn : UInt32) (missing offset nbytes : Nat) :
    (skipped : Nat) → (packets : List FlowPacket) → Decidable (Serves isn missing skipped offset nbytes packets)
  | _, [] => inferInstanceAs (Decidable (missing ≤ offset))
  | skipped, p :: rest =>
    have := Serves.decidable isn missing offset nbytes (skipped + p.length) rest
    have := Continues.decidable isn missing offset nbytes (p :: rest)
    inferInstanceAs (Decidable (ite _ _ (ite _ _ (offset < missing ∧ _))))

namespace FlowPayload

/-- The list as the copying loop finds it. -/
def ordered (isn : UInt32) (f : FlowPayload) : List FlowPacket :=
  if f.listSorted then f.flowPackets
  else if f.flowPackets.head?.any (·.tcpHasSyn) then bySeq f.flowPackets
  else inOrder isn f.flowPackets

/-- The flow whose packets carry the bytes of the stream. -/
def carrying (stream : Nat → UInt8) (isn : UInt32) (f : FlowPayload) : FlowPayload :=
  { f with flowPackets := f.flowPackets.map (·.carrying stream isn) }

/-- `getPayload` copies what it should, says how many bytes that are, and reads inside of the payloads only. -/
def Delivers (isn : UInt32) (offset nbytes : Nat) (f : FlowPayload) : Prop :=
  ∃ f', (getPayload offset nbytes).run f =
    .ok (((payloadUpToHole isn f.flowPackets).drop offset).take nbytes,
      (((payloadUpToHole isn f.flowPackets).drop offset).take nbytes).length) f'

end FlowPayload

/-! ## The sorting phase -/

/-- The one packet with the SYN, in the list. -/
theorem Direction.exists_syn {isn : UInt32} {packets : List FlowPacket} (h : Direction isn packets) :
    ∃ before s after, packets = before ++ s :: after ∧ s.tcpHasSyn = true ∧ (∀ q ∈ before, q.tcpHasSyn = false) ∧
      ∀ q ∈ after, q.tcpHasSyn = false := by
  obtain ⟨s, hs, hsyn⟩ := List.countP_pos_iff.mp (by rw [h.syn]; exact Nat.one_pos)
  obtain ⟨before, after, rfl⟩ := List.append_of_mem hs
  have hcount := h.syn
  rw [List.countP_append, List.countP_cons_of_pos (p := fun q : FlowPacket => q.tcpHasSyn) hsyn] at hcount
  have hbefore : before.countP (·.tcpHasSyn) = 0 := by omega
  have hafter : after.countP (·.tcpHasSyn) = 0 := by omega
  refine ⟨before, s, after, rfl, hsyn, fun q hq => ?_, fun q hq => ?_⟩
  · exact Bool.eq_false_iff.mpr (List.countP_eq_zero.mp hbefore q hq)
  · exact Bool.eq_false_iff.mpr (List.countP_eq_zero.mp hafter q hq)

/-- Sorting leaves the order of the stream, or, with the SYN at the head of the list, that of the sequence numbers as they are. -/
theorem Direction.sorted_eq {isn : UInt32} {packets : List FlowPacket} (h : Direction isn packets) :
    sorted packets = .ok (if packets.head?.any (·.tcpHasSyn) then bySeq packets else inOrder isn packets) := by
  obtain ⟨before, s, after, rfl, hs, hbefore, hafter⟩ := h.exists_syn
  have htcp : ∀ q ∈ before ++ s :: after, q.l4 = .tcp := fun q hq => (h.each q hq).tcp
  have hseq : s.tcpSeq = isn := (h.each s (by simp)).syn_iff.mp hs
  cases before with
  | nil =>
    rw [if_pos (by simpa using hs)]
    exact sorted_of_no_syn htcp hafter
  | cons p before =>
    have hp := hbefore p List.mem_cons_self
    have hne : ∀ q ∈ p :: before ++ s :: after, q.tcpHasSyn = false → q.tcpSeq ≠ s.tcpSeq := by
      intro q hq hsyn heq
      rw [(h.each q hq).syn_iff.mpr (heq.trans hseq)] at hsyn
      cases hsyn
    rw [if_neg (by simp [hp]), ← hseq]
    exact sorted_of_syn htcp hs hafter (fun q hq => hne q (List.mem_append_left _ hq) (hbefore q hq))
      fun q hq => hne q (List.mem_append_right _ (List.mem_cons_of_mem _ hq)) (hafter q hq)

/-- The payloads do not change a direction. -/
theorem Direction.carrying {isn : UInt32} {packets : List FlowPacket} (h : Direction isn packets) (stream : Nat → UInt8) :
    Direction isn (packets.map (·.carrying stream isn)) := by
  constructor
  · intro p hp
    obtain ⟨q, hq, rfl⟩ := List.mem_map.mp hp
    exact ⟨(h.each q hq).tcp, (h.each q hq).headers, (h.each q hq).syn_iff⟩
  · rw [List.countP_map]
    exact h.syn

/-- A direction has its SYN. -/
theorem Direction.ne_nil {isn : UInt32} {packets : List FlowPacket} (h : Direction isn packets) : packets ≠ [] := by
  rintro rfl
  exact absurd h.syn (by decide)

namespace FlowPayload

/-- The ordered packets are the packets. -/
theorem mem_ordered {isn : UInt32} {f : FlowPayload} {p : FlowPacket} : p ∈ f.ordered isn ↔ p ∈ f.flowPackets := by
  rw [ordered]
  split
  · rfl
  · split
    · exact StableSort.mem_sortBy
    · exact StableSort.mem_sortBy

/-- The payloads do not change the order. -/
theorem ordered_carrying (stream : Nat → UInt8) (isn : UInt32) (f : FlowPayload) :
    (f.carrying stream isn).ordered isn = (f.ordered isn).map (·.carrying stream isn) := by
  have hhead : (f.carrying stream isn).flowPackets.head?.any (·.tcpHasSyn) = f.flowPackets.head?.any (·.tcpHasSyn) := by
    rw [carrying]
    cases f.flowPackets <;> rfl
  rw [ordered, ordered, hhead]
  change (if f.listSorted then _ else _) = _
  split
  · rfl
  · split
    · exact bySeq_carrying stream isn f.flowPackets
    · exact inOrder_carrying stream isn f.flowPackets

/-- What the call gives for packets that carry a stream, by what the loop gives on the list in order. -/
theorem run_carrying_loop {isn : UInt32} {f : FlowPayload} (h : Direction isn f.flowPackets) (stream : Nat → UInt8)
    (offset nbytes : Nat) :
    (getPayload offset nbytes).run (f.carrying stream isn) =
      Exn.outcome (((Copy.init offset nbytes).loop offset ((f.ordered isn).map (·.carrying stream isn))).map Copy.answer)
        { flowPackets := (f.ordered isn).map (·.carrying stream isn), listSorted := true } := by
  have hdirection := h.carrying stream
  rw [← ordered_carrying]
  refine run_getPayload hdirection.ne_nil ?_ offset nbytes
  rw [ordered]
  by_cases hflag : (f.carrying stream isn).listSorted = true
  · rw [if_pos hflag, if_pos hflag]
  · rw [if_neg hflag, if_neg hflag]
    exact hdirection.sorted_eq

/-- What `get_payload` returns for the bytes of a stream. -/
theorem run_carrying {isn : UInt32} {f : FlowPayload} (h : Direction isn f.flowPackets) (stream : Nat → UInt8) (offset : Nat)
    {nbytes : Nat} (hnbytes : 0 < nbytes) :
    (getPayload offset nbytes).run (f.carrying stream isn) =
      Exn.outcome ((delivered 0 offset nbytes ((inspected (f.ordered isn)).map (·.carrying stream isn))).map
          fun bytes => (bytes, bytes.length))
        { flowPackets := (f.ordered isn).map (·.carrying stream isn), listSorted := true } := by
  have hcaptured : ∀ p ∈ (f.ordered isn).map (·.carrying stream isn), p.Captured := by
    intro p hp
    obtain ⟨q, hq, rfl⟩ := List.mem_map.mp hp
    exact (h.each q (mem_ordered.mp hq)).carrying stream
  rw [run_carrying_loop h, Copy.loop_init hcaptured hnbytes, inspected_carrying]

end FlowPayload

/-! ## The copying phase -/

section Places

variable {isn : UInt32} {missing : Nat}

/-- Places laid end to end are the places from `pos` on. -/
theorem take_positions_iff {packets : List FlowPacket}
    (hclosed : ∀ p ∈ packets, p.position isn ≤ missing → p.position isn + p.length ≤ missing) {pos : Nat} (hpos : pos ≤ missing)
    (need : Nat) :
    (packets.flatMap (·.positions isn)).take need = List.range' pos (min need (missing - pos)) ↔ Continues isn missing pos need packets := by
  induction packets generalizing pos need with
  | nil =>
    rw [List.flatMap_nil, List.take_nil, eq_comm, List.range'_eq_nil_iff, Continues]
    omega
  | cons p rest ih =>
    have hrest : ∀ q ∈ rest, q.position isn ≤ missing → q.position isn + q.length ≤ missing :=
      fun q hq => hclosed q (List.mem_cons_of_mem _ hq)
    rw [List.flatMap_cons, Continues]
    by_cases hneed : need = 0
    · simp [hneed]
    by_cases hempty : p.length = 0
    · have hnone : p.positions isn = [] := by rw [FlowPacket.positions, hempty, List.range'_zero]
      rw [hnone, List.nil_append, ih hrest hpos, hempty, Nat.add_zero, Nat.sub_zero]
      simp [hneed]
    · -- the first place decides where the packet must begin
      have hstart : (p.positions isn ++ rest.flatMap (·.positions isn)).take need =
          List.range' pos (min need (missing - pos)) → p.position isn = pos := by
        intro heq
        have hhead := congrArg List.head? heq
        rw [FlowPacket.positions, List.head?_take, if_neg hneed, List.head?_append, List.head?_range', List.head?_range'] at hhead
        simp only [hempty, if_false, Option.some_or] at hhead
        split at hhead
        · cases hhead
        · exact Option.some.inj hhead
      by_cases hposition : p.position isn = pos
      · have hend := hclosed p List.mem_cons_self (by omega)
        have hsplit : List.range' pos (min need (missing - pos)) =
            (p.positions isn).take need ++ List.range' (pos + p.length) (min (need - p.length) (missing - (pos + p.length))) := by
          rw [FlowPacket.positions, hposition, take_range']
          by_cases hle : need ≤ p.length
          · rw [Nat.sub_eq_zero_of_le hle, Nat.zero_min, List.range'_zero, List.append_nil]
            congr 1
            omega
          · have hmin : min need p.length = p.length := by omega
            rw [hmin, List.range'_append_1]
            congr 1
            omega
        have hlength : (p.positions isn).length = p.length := List.length_range'
        rw [hsplit, List.take_append, hlength, List.append_cancel_left_eq, ih hrest (by omega)]
        simp [hneed, hposition]
      · constructor
        · exact fun heq => absurd (hstart heq) hposition
        · rintro (h | ⟨h | h, -⟩)
          · exact absurd h hneed
          · exact absurd h hempty
          · exact absurd h hposition

/-- A packet that holds the offset where nothing was skipped: reading begins there, for as many bytes as the packet has in all. -/
theorem read_inside_iff {p : FlowPacket} (hclosed : p.position isn ≤ missing → p.position isn + p.length ≤ missing) {offset nbytes : Nat}
    (hoffset : 0 < offset) (hnbytes : 0 < nbytes) {after : (Nat → UInt8) → List UInt8} :
    (∀ stream, (p.carrying stream isn).read offset (min nbytes p.length) >>= (fun bytes =>
        .ok (bytes ++ (after stream).take (nbytes - p.length))) = .ok ((List.range' offset (min nbytes (missing - offset))).map stream)) ↔
      p.position isn = 0 ∧ offset + nbytes ≤ p.length := by
  by_cases hfits : offset + nbytes ≤ p.length
  · have hmin : min nbytes p.length = nbytes := by omega
    have hnone : nbytes - p.length = 0 := by omega
    simp only [FlowPacket.read_carrying, hmin, if_pos hfits, hnone, bind, Except.bind, List.take_zero, List.append_nil, Except.ok.injEq]
    rw [forall_stream_iff, and_iff_left hfits]
    constructor
    · intro heq
      have hlen := congrArg List.length heq
      have hhead := congrArg List.head? heq
      rw [List.length_range', List.length_range'] at hlen
      rw [List.head?_range', List.head?_range', ← hlen, if_neg (by omega), if_neg (by omega)] at hhead
      have := Option.some.inj hhead
      omega
    · intro hzero
      have := hclosed (by omega)
      rw [hzero, Nat.zero_add]
      congr 1
      omega
  · have hout : ¬offset + min nbytes p.length ≤ p.length := by omega
    simp only [FlowPacket.read_carrying, if_neg hout, bind, Except.bind, reduceCtorEq, forall_const, false_iff]
    exact fun h => hfits h.2

/-- What is copied of packets that carry a stream, against the stream. -/
theorem delivered_iff {packets : List FlowPacket}
    (hclosed : ∀ p ∈ packets, p.position isn ≤ missing → p.position isn + p.length ≤ missing) {nbytes : Nat} (hnbytes : 0 < nbytes)
    {skipped offset : Nat} (hskipped : skipped ≤ offset) :
    (∀ stream, delivered skipped offset nbytes (packets.map (·.carrying stream isn)) =
        .ok ((List.range' offset (min nbytes (missing - offset))).map stream)) ↔
      Serves isn missing skipped offset nbytes packets := by
  induction packets generalizing skipped with
  | nil =>
    rw [Serves]
    constructor
    · intro h
      have hlen := congrArg List.length (Except.ok.inj (h fun _ => 0))
      simp only [List.length_nil, List.length_map, List.length_range'] at hlen
      omega
    · intro h stream
      rw [Nat.sub_eq_zero_of_le h, Nat.min_zero]
      rfl
  | cons p rest ih =>
    have hlength : ∀ stream, (p.carrying stream isn).length = p.length := fun _ => rfl
    simp only [List.map_cons, delivered, hlength]
    rw [Serves]
    by_cases hskip : skipped + p.length ≤ offset
    · simp only [if_pos hskip]
      exact ih (fun q hq => hclosed q (List.mem_cons_of_mem _ hq)) hskip
    simp only [if_neg hskip]
    by_cases hinside : skipped = 0 ∧ 0 < offset
    · rw [if_pos hinside, if_pos hinside.1]
      exact read_inside_iff (hclosed p List.mem_cons_self) hinside.2 hnbytes
    · rw [if_neg hinside]
      have hstart : (if skipped = 0 then offset else 0) = 0 := by
        split
        · omega
        · rfl
      have htake : ∀ stream, (List.range' (p.position isn) (min nbytes p.length)).map stream ++
          ((rest.map (·.carrying stream isn)).flatMap (·.payload)).take (nbytes - p.length) =
            (((p :: rest).flatMap (·.positions isn)).take nbytes).map stream := by
        intro stream
        have hlen : (p.positions isn).length = p.length := List.length_range'
        rw [flatMap_payload_carrying, ← List.map_take, ← List.map_append, List.flatMap_cons, List.take_append, hlen,
          FlowPacket.positions, take_range']
      simp only [hstart, FlowPacket.read_carrying, Nat.zero_add, Nat.add_zero, if_pos (Nat.min_le_right nbytes p.length), bind, Except.bind,
        htake, Except.ok.injEq]
      rw [forall_stream_iff]
      by_cases hmissing : offset < missing
      · rw [take_positions_iff hclosed (Nat.le_of_lt hmissing)]
        exact (and_iff_right hmissing).symm
      · -- bytes are copied where none are to be
        refine iff_of_false (fun heq => ?_) fun h => hmissing h.1
        have hlen := congrArg List.length heq
        rw [List.length_take, List.length_range', List.flatMap_cons, List.length_append, FlowPacket.positions, List.length_range'] at hlen
        omega

end Places

/-! ## The whole call -/

/-- For the packets of one direction, with whatever bytes they carry, `getPayload` gives what the stream holds up to the first missing
byte exactly if no byte is asked for or the packets it looks at serve the offset. -/
theorem delivers_iff_serves {isn : UInt32} {f : FlowPayload} (h : Direction isn f.flowPackets) (offset nbytes : Nat) :
    (∀ stream, (f.carrying stream isn).Delivers isn offset nbytes) ↔
      nbytes = 0 ∨ Serves isn (firstMissing isn f.flowPackets) 0 offset nbytes (inspected (f.ordered isn)) := by
  have hwanted : ∀ stream, ((payloadUpToHole isn (f.carrying stream isn).flowPackets).drop offset).take nbytes =
      (List.range' offset (min nbytes (firstMissing isn f.flowPackets - offset))).map stream := by
    intro stream
    rw [FlowPayload.carrying, payloadUpToHole_carrying, ← List.map_drop, ← List.map_take, List.drop_range', take_range', Nat.mul_one,
      Nat.zero_add]
  rcases Nat.eq_zero_or_pos nbytes with rfl | hnbytes
  · refine iff_of_true (fun stream => ?_) (Or.inl rfl)
    rw [FlowPayload.Delivers, FlowPayload.run_carrying_loop h, Copy.loop_of_none_remaining rfl]
    exact ⟨_, rfl⟩
  · have hmem : ∀ p ∈ inspected (f.ordered isn), p ∈ f.flowPackets := fun p hp => FlowPayload.mem_ordered.mp (mem_inspected hp)
    rw [← delivered_iff (fun p hp => end_le_firstMissing h.each (hmem p hp)) hnbytes
      (Nat.zero_le offset)]
    rw [or_iff_right (Nat.ne_of_gt hnbytes)]
    refine forall_congr' fun stream => ?_
    rw [FlowPayload.Delivers, FlowPayload.run_carrying h stream offset hnbytes, hwanted]
    cases delivered 0 offset nbytes ((inspected (f.ordered isn)).map (·.carrying stream isn)) with
    | error e => simp [Except.map, Exn.outcome]
    | ok bytes =>
      simp only [Except.map, Exn.outcome, EStateM.Result.ok.injEq, Prod.mk.injEq, exists_and_left, exists_eq', and_true, Except.ok.injEq]
      exact ⟨fun h => h.1, fun h => ⟨h, by rw [h]⟩⟩

instance (isn : UInt32) (p : FlowPacket) : Decidable (p.OfDirection isn) :=
  decidable_of_iff (p.l4 = .tcp ∧ p.ipHeaderLength.toNat + p.tcpHeaderLength.toNat ≤ p.ipLength.toNat ∧
      (p.tcpHasSyn = true ↔ p.tcpSeq = isn)) ⟨fun ⟨h, h', h''⟩ => ⟨h, h', h''⟩, fun h => ⟨h.tcp, h.headers, h.syn_iff⟩⟩

instance (isn : UInt32) (packets : List FlowPacket) : Decidable (Direction isn packets) :=
  decidable_of_iff ((∀ p ∈ packets, p.OfDirection isn) ∧ packets.countP (·.tcpHasSyn) = 1)
    ⟨fun ⟨h, h'⟩ => ⟨h, h'⟩, fun h => ⟨h.each, h.syn⟩⟩

/-- Two segments that follow on the SYN, added in another order, across the wraparound: both are delivered. -/
theorem delivers_two_segments :
    (FlowPayload.carrying UInt8.ofNat 0xFFFFFFFE
      ⟨[segment false 1 [0, 0], segment true 0xFFFFFFFE [], segment false 0xFFFFFFFF [0, 0]], false⟩).Delivers 0xFFFFFFFE 0 4 :=
  (delivers_iff_serves (by decide) 0 4).mpr (by decide) UInt8.ofNat

/-- Three segments that follow on the SYN, and six bytes to copy: the third is not. Nor is a byte from the inside of the first. -/
theorem third_segment_is_lost :
    let packets := [segment true 100 [], segment false 101 [1, 2], segment false 103 [3, 4], segment false 105 [5, 6]]
    Direction 100 packets ∧ (∀ p ∈ packets, p.payload.length = p.length) ∧
      ¬(FlowPayload.mk packets false).Delivers 100 0 6 ∧ ¬(FlowPayload.mk packets false).Delivers 100 1 2 := by
  refine ⟨by decide, by decide, ?_, ?_⟩
  · rintro ⟨f, hf⟩
    have hrun : (FlowPayload.getPayload 0 6).run ⟨[segment true 100 [], segment false 101 [1, 2], segment false 103 [3, 4],
        segment false 105 [5, 6]], false⟩ = .ok ([1, 2, 3, 4], 4) ⟨[segment true 100 [], segment false 101 [1, 2],
          segment false 103 [3, 4], segment false 105 [5, 6]], true⟩ := rfl
    rw [hrun] at hf
    exact absurd (congrArg Prod.snd (EStateM.Result.ok.inj hf).1) (by decide)
  · rintro ⟨f, hf⟩
    have hrun : (FlowPayload.getPayload 1 2).run ⟨[segment true 100 [], segment false 101 [1, 2], segment false 103 [3, 4],
        segment false 105 [5, 6]], false⟩ = .error .outOfPayload ⟨[segment true 100 [], segment false 101 [1, 2],
          segment false 103 [3, 4], segment false 105 [5, 6]], true⟩ := rfl
    rw [hrun] at hf
    cases hf

end Blockmon.Messages
