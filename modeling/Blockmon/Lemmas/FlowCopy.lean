import Blockmon.Lemmas.FlowPayload

/-!
# What a flow copies of its packets

The copying loop goes through the packets up to the first whose sequence number it does not expect, that packet included (`untilHole`).
It skips those that end at or before the offset and copies from the next one on (`delivered`): from its first byte, or, if nothing but
empty packets was skipped, from the offset, and then not fewer bytes for it.
-/

namespace Blockmon.Messages

namespace FlowPacket

/-- The bytes behind the headers of a TCP packet. -/
def length (p : FlowPacket) : Nat := p.ipLength.toNat - (p.ipHeaderLength.toNat + p.tcpHeaderLength.toNat)

/-- A TCP packet whose payload lies in the buffer. -/
structure Captured (p : FlowPacket) : Prop where
  tcp : p.l4 = .tcp
  headers : p.ipHeaderLength.toNat + p.tcpHeaderLength.toNat ≤ p.ipLength.toNat
  payload : p.payload.length = p.length

/-- The payload of a captured packet has its length. -/
theorem Captured.payloadLength_eq {p : FlowPacket} (h : p.Captured) : p.payloadLength = .ok p.length := by
  have := p.ipLength.toNat_lt
  have := h.headers
  rw [payloadLength, if_pos (by simp [isTcp, h.tcp]), sizeT, length]
  congr 1
  omega

/-- A captured packet is of TCP. -/
theorem Captured.isTcp_eq {p : FlowPacket} (h : p.Captured) : p.isTcp = true := by simp [isTcp, h.tcp]

/-- A captured packet is not of UDP. -/
theorem Captured.isUdp_eq {p : FlowPacket} (h : p.Captured) : p.isUdp = false := by simp [isUdp, h.tcp]

/-- As many bytes are read as asked for. -/
theorem length_of_read {p : FlowPacket} {payloadOffset nbytes : Nat} {bytes : List UInt8}
    (h : p.read payloadOffset nbytes = .ok bytes) : bytes.length = nbytes := by
  rw [read] at h
  split at h
  · next hin =>
    rw [← Except.ok.inj h, List.length_take, List.length_drop]
    omega
  · cases h

end FlowPacket

/-- The packets that the loop looks at when it expects a sequence number. -/
def untilHole (expected : UInt32) : List FlowPacket → List FlowPacket
  | [] => []
  | p :: rest => p :: if p.tcpSeq = expected then untilHole (expected + UInt32.ofNat (p.length + 1)) rest else []

/-- What is copied of these packets when `skipped` bytes are skipped already. -/
def delivered (skipped offset nbytes : Nat) : List FlowPacket → Except FlowError (List UInt8)
  | [] => .ok []
  | p :: rest =>
    if skipped + p.length ≤ offset then delivered (skipped + p.length) offset nbytes rest
    else do
      let bytes ← p.read (if skipped = 0 then offset else 0) (min nbytes p.length)
      .ok (bytes ++ (rest.flatMap (·.payload)).take (nbytes - p.length))

namespace Copy

/-- What is returned. -/
def answer (c : Copy) : List UInt8 × Nat := (c.buffer, c.bytesCopied)

/-- The state while packets are skipped. -/
def skipping (offset skipped nbytes : Nat) (expected : UInt32) : Copy :=
  { effectiveOffset := offset, bytesSkipped := skipped, bytesCopied := 0, buffer := [], bytesRemaining := nbytes,
    expectedSequenceNumber := expected, first := false, more := true }

/-- The state once bytes are copied, with those that have been. -/
def copying (offset remaining : Nat) (buffer : List UInt8) (expected : UInt32) (more : Bool) : Copy :=
  { effectiveOffset := offset, bytesSkipped := offset, bytesCopied := buffer.length, buffer := buffer, bytesRemaining := remaining,
    expectedSequenceNumber := expected, first := false, more := more }

/-- The loop is over. -/
theorem loop_of_not_more {c : Copy} (h : c.more = false) (offset : Nat) (packets : List FlowPacket) :
    c.loop offset packets = .ok c := by
  cases packets with
  | nil => rfl
  | cons p rest => rw [loop, if_neg (by simp [h])]

/-- With nothing remaining the loop is over. -/
theorem loop_of_none_remaining {c : Copy} (h : c.bytesRemaining = 0) (offset : Nat) (packets : List FlowPacket) :
    c.loop offset packets = .ok c := by
  cases packets with
  | nil => rfl
  | cons p rest => rw [loop, if_neg (by simp [h])]

/-- A packet that is not the first. -/
theorem step_running {p : FlowPacket} (h : p.Captured) {c : Copy} (hfirst : c.first = false) (hmore : c.more = true) (offset : Nat) :
    c.step offset p = c.copy offset p p.length >>= fun c => c.follow p p.length := by
  have hat : c.atFirst p = .ok c := by simp [atFirst, hfirst]
  rw [step, hat, h.payloadLength_eq]
  exact if_pos hmore

/-- The next packet is expected behind this one. -/
theorem follow_eq {p : FlowPacket} (h : p.Captured) (c : Copy) :
    c.follow p p.length =
      .ok (if p.tcpSeq = c.expectedSequenceNumber then
          { c with expectedSequenceNumber := c.expectedSequenceNumber + UInt32.ofNat (p.length + 1) }
        else { c with more := false }) := by
  rw [follow, if_pos h.isTcp_eq]
  split <;> rfl

/-- A packet that is copied is followed. -/
theorem follow_copying {p : FlowPacket} (h : p.Captured) (offset remaining : Nat) (buffer : List UInt8) (expected : UInt32) :
    (copying offset remaining buffer expected true).follow p p.length =
      .ok (copying offset remaining buffer (if p.tcpSeq = expected then expected + UInt32.ofNat (p.length + 1) else expected)
        (p.tcpSeq = expected)) := by
  rw [follow_eq h]
  by_cases hseq : p.tcpSeq = expected
  · simp [copying, hseq]
  · simp [copying, hseq]

/-- The rest of a payload is no more than it has. -/
theorem take_min_payload {p : FlowPacket} (h : p.Captured) (n : Nat) : p.payload.take (min n p.length) = p.payload.take n := by
  rw [← h.payload, List.take_eq_take_iff]
  omega

/-- One packet while bytes are copied. -/
theorem step_copying {p : FlowPacket} (h : p.Captured) {buffer : List UInt8} (hbuffer : buffer ≠ []) (offset remaining : Nat)
    (expected : UInt32) :
    (copying offset remaining buffer expected true).step offset p =
      .ok (copying offset (remaining - p.length) (buffer ++ p.payload.take remaining)
        (if p.tcpSeq = expected then expected + UInt32.ofNat (p.length + 1) else expected) (p.tcpSeq = expected)) := by
  have hpos : 0 < buffer.length := List.length_pos_iff.mpr hbuffer
  have hread : p.read 0 (min remaining p.length) = .ok (p.payload.take remaining) := by
    rw [FlowPacket.read, if_pos (by rw [h.payload]; omega), List.drop_zero, take_min_payload h]
  have hbegin : (copying offset remaining buffer expected true).bytesSkipped +
      (copying offset remaining buffer expected true).bytesCopied + p.length >
        (copying offset remaining buffer expected true).effectiveOffset := by
    simp only [copying]
    omega
  have hne : ¬(copying offset remaining buffer expected true).bytesSkipped +
      (copying offset remaining buffer expected true).bytesCopied = 0 := by
    simp only [copying]
    omega
  have hcopy : (copying offset remaining buffer expected true).copy offset p p.length =
      .ok (copying offset (remaining - p.length) (buffer ++ p.payload.take remaining) expected true) := by
    have hlen : (p.payload.take remaining).length = min remaining p.length := by rw [List.length_take, h.payload]
    rw [copy, if_pos hbegin]
    dsimp only
    rw [if_neg hne, show (copying offset remaining buffer expected true).bytesRemaining = remaining from rfl, hread]
    simp only [copying, bind, Except.bind, Except.ok.injEq, Copy.mk.injEq, List.length_append, hlen, true_and, and_true]
    omega
  rw [step_running h rfl rfl, hcopy]
  exact follow_copying h _ _ _ _

/-- The rest of the loop once bytes are copied: the payloads laid end to end. -/
theorem loop_copying {packets : List FlowPacket} (h : ∀ p ∈ packets, p.Captured) {buffer : List UInt8} (hbuffer : buffer ≠ [])
    (offset remaining : Nat) (expected : UInt32) :
    ((copying offset remaining buffer expected true).loop offset packets).map answer =
      .ok (buffer ++ ((untilHole expected packets).flatMap (·.payload)).take remaining,
        (buffer ++ ((untilHole expected packets).flatMap (·.payload)).take remaining).length) := by
  induction packets generalizing buffer remaining expected with
  | nil => simp [loop, untilHole, copying, answer, Except.map]
  | cons p rest ih =>
    have hp := h p List.mem_cons_self
    have hrest : ∀ q ∈ rest, q.Captured := fun q hq => h q (List.mem_cons_of_mem _ hq)
    by_cases hremaining : remaining = 0
    · rw [loop_of_none_remaining hremaining]
      simp [copying, answer, Except.map, hremaining]
    · have hmore : ((copying offset remaining buffer expected true).more &&
          decide (0 < (copying offset remaining buffer expected true).bytesRemaining)) = true := by
        simp [copying, Nat.pos_of_ne_zero hremaining]
      rw [loop, if_pos hmore, step_copying hp hbuffer]
      simp only [bind, Except.bind]
      by_cases hseq : p.tcpSeq = expected
      · rw [if_pos hseq, decide_eq_true hseq, ih hrest (List.append_ne_nil_of_left_ne_nil hbuffer _)]
        rw [untilHole, if_pos hseq, List.flatMap_cons, List.take_append, hp.payload, List.append_assoc]
      · rw [if_neg hseq, decide_eq_false hseq, loop_of_not_more rfl]
        simp [untilHole, hseq, copying, answer, Except.map]

/-- One packet that is skipped. -/
theorem step_skipping {p : FlowPacket} (h : p.Captured) {offset skipped : Nat} (hskip : skipped + p.length ≤ offset) (nbytes : Nat)
    (expected : UInt32) :
    (skipping offset skipped nbytes expected).step offset p =
      .ok (if p.tcpSeq = expected then skipping offset (skipped + p.length) nbytes (expected + UInt32.ofNat (p.length + 1))
        else { skipping offset (skipped + p.length) nbytes expected with more := false }) := by
  have hcopy : (skipping offset skipped nbytes expected).copy offset p p.length =
      .ok (skipping offset (skipped + p.length) nbytes expected) := by
    rw [copy, if_neg (by simp only [skipping]; omega)]
    rfl
  rw [step_running h rfl rfl, hcopy]
  exact follow_eq h _

/-- The packet at which copying begins. -/
theorem step_begin {p : FlowPacket} (h : p.Captured) {offset skipped : Nat} (hbegin : offset < skipped + p.length) (nbytes : Nat)
    (expected : UInt32) :
    (skipping offset skipped nbytes expected).step offset p =
      (p.read (if skipped = 0 then offset else 0) (min nbytes p.length)).map fun bytes =>
        copying offset (nbytes - p.length) bytes
          (if p.tcpSeq = expected then expected + UInt32.ofNat (p.length + 1) else expected) (p.tcpSeq = expected) := by
  have hcopy : (skipping offset skipped nbytes expected).copy offset p p.length =
      (p.read (if skipped = 0 then offset else 0) (min nbytes p.length)).map fun bytes =>
        copying offset (nbytes - p.length) bytes expected true := by
    rw [copy, if_pos (by simp only [skipping]; omega)]
    change (p.read (if skipped = 0 then offset else 0) (min nbytes p.length) >>= fun bytes => _) = _
    cases hread : p.read (if skipped = 0 then offset else 0) (min nbytes p.length) with
    | error e => rfl
    | ok bytes =>
      have hlen := FlowPacket.length_of_read hread
      simp only [skipping, copying, bind, Except.bind, Except.map, Except.ok.injEq, Copy.mk.injEq, List.nil_append, true_and, and_true]
      omega
  rw [step_running h rfl rfl, hcopy]
  cases p.read (if skipped = 0 then offset else 0) (min nbytes p.length) with
  | error e => rfl
  | ok bytes => exact follow_copying h _ _ _ _

/-- The loop from a state in which packets are skipped. -/
theorem loop_skipping {packets : List FlowPacket} (h : ∀ p ∈ packets, p.Captured) {offset skipped nbytes : Nat}
    (hnbytes : 0 < nbytes) (hskipped : skipped ≤ offset) (expected : UInt32) :
    ((skipping offset skipped nbytes expected).loop offset packets).map answer =
      (delivered skipped offset nbytes (untilHole expected packets)).map fun bytes => (bytes, bytes.length) := by
  induction packets generalizing skipped expected with
  | nil => rfl
  | cons p rest ih =>
    have hp := h p List.mem_cons_self
    have hrest : ∀ q ∈ rest, q.Captured := fun q hq => h q (List.mem_cons_of_mem _ hq)
    have hmore : ((skipping offset skipped nbytes expected).more &&
        decide (0 < (skipping offset skipped nbytes expected).bytesRemaining)) = true := by
      simp [skipping, hnbytes]
    rw [loop, if_pos hmore, untilHole, delivered]
    by_cases hskip : skipped + p.length ≤ offset
    · rw [if_pos hskip, step_skipping hp hskip]
      simp only [bind, Except.bind]
      by_cases hseq : p.tcpSeq = expected
      · rw [if_pos hseq, if_pos hseq]
        exact ih hrest hskip _
      · rw [if_neg hseq, if_neg hseq, loop_of_not_more rfl]
        rfl
    · rw [if_neg hskip, step_begin hp (by omega)]
      cases hread : p.read (if skipped = 0 then offset else 0) (min nbytes p.length) with
      | error e => rfl
      | ok bytes =>
        have hbytes : bytes ≠ [] := List.ne_nil_of_length_pos (by rw [FlowPacket.length_of_read hread]; omega)
        simp only [bind, Except.bind, Except.map]
        by_cases hseq : p.tcpSeq = expected
        · rw [if_pos hseq, decide_eq_true hseq, if_pos hseq]
          exact loop_copying hrest hbytes offset (nbytes - p.length) _
        · rw [if_neg hseq, decide_eq_false hseq, loop_of_not_more rfl, if_neg hseq]
          simp [copying, answer]

end Copy

/-- The packets that the loop looks at: none if the first one has no SYN. -/
def inspected : List FlowPacket → List FlowPacket
  | [] => []
  | p :: rest => if p.tcpHasSyn then untilHole p.tcpSeq (p :: rest) else []

/-- The copying loop as a whole. -/
theorem Copy.loop_init {packets : List FlowPacket} (h : ∀ p ∈ packets, p.Captured) {nbytes : Nat} (hnbytes : 0 < nbytes)
    (offset : Nat) :
    ((Copy.init offset nbytes).loop offset packets).map Copy.answer =
      (delivered 0 offset nbytes (inspected packets)).map fun bytes => (bytes, bytes.length) := by
  cases packets with
  | nil => rfl
  | cons p rest =>
    have hp := h p List.mem_cons_self
    have hmore : ((Copy.init offset nbytes).more && decide (0 < (Copy.init offset nbytes).bytesRemaining)) = true := by
      simp [Copy.init, hnbytes]
    by_cases hsyn : p.tcpHasSyn = true
    · have hstep : (Copy.init offset nbytes).step offset p = (Copy.skipping offset 0 nbytes p.tcpSeq).step offset p := by
        have hfirst : (Copy.init offset nbytes).atFirst p = .ok (Copy.skipping offset 0 nbytes p.tcpSeq) := by
          simp [Copy.atFirst, Copy.init, Copy.skipping, hp.isUdp_eq, hp.isTcp_eq, hsyn]
        rw [Copy.step, hfirst]
        rfl
      have hloop : (Copy.init offset nbytes).loop offset (p :: rest) =
          (Copy.skipping offset 0 nbytes p.tcpSeq).loop offset (p :: rest) := by
        have hmore' : ((Copy.skipping offset 0 nbytes p.tcpSeq).more &&
            decide (0 < (Copy.skipping offset 0 nbytes p.tcpSeq).bytesRemaining)) = true := hmore
        rw [Copy.loop, Copy.loop, if_pos hmore, if_pos hmore', hstep]
      rw [hloop, Copy.loop_skipping h hnbytes (Nat.zero_le _), inspected, if_pos hsyn]
    · have hfirst : (Copy.init offset nbytes).atFirst p = .ok { Copy.init offset nbytes with more := false, first := false } := by
        simp [Copy.atFirst, Copy.init, hp.isUdp_eq, hp.isTcp_eq, hsyn]
      have hstep : (Copy.init offset nbytes).step offset p = .ok { Copy.init offset nbytes with more := false, first := false } := by
        rw [Copy.step, hfirst]
        simp only [bind, Except.bind, hp.payloadLength_eq]
        rfl
      rw [Copy.loop, if_pos hmore, hstep, inspected, if_neg hsyn]
      simp only [bind, Except.bind]
      rw [Copy.loop_of_not_more rfl]
      rfl

namespace FlowPayload

/-- A flow without packets has no payload. -/
theorem run_getPayload_of_empty {f : FlowPayload} (h : f.flowPackets = []) (offset nbytes : Nat) :
    (getPayload offset nbytes).run f = .ok ([], 0) f := by
  change EStateM.run (if f.flowPackets = [] then _ else _) f = _
  rw [if_pos h]
  rfl

/-- The call on a list of packets, as the copying loop on the list in order. -/
theorem run_getPayload {f : FlowPayload} {packets : List FlowPacket} (hne : f.flowPackets ≠ [])
    (hsorted : if f.listSorted then packets = f.flowPackets else sorted f.flowPackets = .ok packets) (offset nbytes : Nat) :
    (getPayload offset nbytes).run f =
      Exn.outcome (((Copy.init offset nbytes).loop offset packets).map Copy.answer) { flowPackets := packets, listSorted := true } := by
  have hsort : sortPackets.run f = .ok ⟨⟩ { flowPackets := packets, listSorted := true } := by
    change sortPackets f = _
    rw [sortPackets]
    split at hsorted
    · next hflag =>
      rw [if_pos hflag, hsorted]
      obtain ⟨list, flag⟩ := f
      exact congrArg (fun b => EStateM.Result.ok PUnit.unit (FlowPayload.mk list b)) hflag
    · next hflag => rw [if_neg hflag, hsorted]
  have hcall : (getPayload offset nbytes).run f = (sortPackets >>= fun _ => do
      let f ← get
      let c ← ofExcept ((Copy.init offset nbytes).loop offset f.flowPackets)
      pure (c.buffer, c.bytesCopied)).run f := by
    change EStateM.run (if f.flowPackets = [] then _ else _) f = _
    rw [if_neg hne]
  rw [hcall, Exn.run_bind_of_ok hsort]
  change EStateM.run (ofExcept ((Copy.init offset nbytes).loop offset packets) >>= fun c => pure (c.buffer, c.bytesCopied)) _ = _
  cases (Copy.init offset nbytes).loop offset packets <;> rfl

end FlowPayload

end Blockmon.Messages
