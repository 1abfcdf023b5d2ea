import Blockmon.Lemmas.DNSRecords
import Blockmon.Lemmas.Payload
import Blockmon.Theorems.Payload
import Blockmon.Lemmas.DNSWire

/-!
# When the parsing of a DNS packet ends

The parser follows lengths, links and counts of the message and compares none of them with the length of the packet. It ends, having read
inside of the buffer only, exactly if what it comes to is there: the header, and record after record a name whose labels and links come to
a zero byte, and the fields behind it (`SafeAt`).
-/

namespace Blockmon.Messages.Dns

open Blockmon.Messages.Packet

/-- The header at the offset, the questions behind it, and the answers behind these are in the buffer. -/
def SafeAt (buffer : List UInt8) (off : UInt8) : Prop :=
  InBuffer buffer off.toNat 12 ∧
    ∃ s, QuestionsIn buffer off.toNat (off.toUInt16 + 12) (be16 buffer (off.toNat + 4)).toNat 0 s ∧
      AnswersIn buffer off.toNat (off.toUInt16 + 12 + s) (be16 buffer (off.toNat + 6)).toNat 0

/-- A message is parsed with some fuel just when it is safe at its offset. -/
theorem parseAt_returns_iff {buffer : List UInt8} {off : UInt8} : (∃ fuel d, parseAt buffer fuel off = .ok d) ↔ SafeAt buffer off := by
  constructor
  · rintro ⟨fuel, d, h⟩
    obtain ⟨hin, s, hquestions, hanswers⟩ := parseAt_eq_ok h
    exact ⟨hin, s, readQuestions_eq_ok hquestions, readAnswers_eq_ok hanswers⟩
  · rintro ⟨hin, s, hquestions, hanswers⟩
    obtain ⟨qs, hqs⟩ := hquestions.returns
    obtain ⟨as, has⟩ := hanswers.returns
    obtain ⟨fuel, d, h, -⟩ := exists_parseAt hin hqs has
    exact ⟨fuel, d, h⟩

/-- Where `payload()` points to. -/
def payloadPtr (p : Packet) : Option Nat := (payloadStage p).l4payloadPtr

/-- The payload begins after the headers. -/
theorem payloadPtr_of_headers (memory : Packet) {buffer : ConstBuffer} {iphoff n : Nat} (h : HeadersAt kEthernet buffer.bytes iphoff n) :
    payloadPtr (newPacket memory buffer) = some (iphoff + ipHeaderLength buffer.bytes iphoff + n) := by
  have hfresh := fresh_new memory buffer kEthernet
  rcases hfresh.payload_cases (Or.inl rfl) with ⟨iphoff', n', h', hview⟩ | ⟨hnone, -⟩
  · obtain ⟨rfl, rfl⟩ := headersAt_unique (p := Packet.new memory buffer kEthernet) (Or.inl rfl) h h'
    exact congrArg Prod.fst hview
  · exact absurd h (hnone iphoff n)

/-- The offset is kept in eight bits. -/
theorem dnsOffset_some (mBuffer off : Nat) : dnsOffset mBuffer (some off) = .ofNat off := by
  have haddress : ((mBuffer + off : Nat) : Int) - mBuffer = off := by omega
  rw [dnsOffset, haddress, ← UInt8.toNat_inj]
  simp only [UInt8.toNat_ofNat']
  omega

/-- The call on a packet is the parser on its bytes. -/
theorem run_parseDns {p : Packet} (h : p.Fresh) (mBuffer fuel : Nat) :
    (parseDns mBuffer fuel).run p = Exn.outcome (parseAt p.buffer.bytes fuel (dnsOffset mBuffer (payloadPtr p))) (payloadStage p) := by
  have hbuffer : (payloadStage p).buffer = p.buffer := h.buffer_of_stage (h.stage_payload .fresh).1
  rw [parseDns, Exn.run_bind_of_ok (run_payload h.inBounds), Exn.run_get_ofExcept, hbuffer]
  rfl

/-- Parsing ends without a read outside of the buffer exactly if everything that the parser comes to is in the buffer and every name that
it comes to has an end. -/
theorem parse_dns_ends_iff (memory : Packet) (buffer : ConstBuffer) (mBuffer : Nat) :
    (∃ fuel d s, (parseDns mBuffer fuel).run (newPacket memory buffer) = .ok d s) ↔
      SafeAt buffer.bytes (dnsOffset mBuffer (payloadPtr (newPacket memory buffer))) := by
  have hfresh := fresh_new memory buffer kEthernet
  have hrun : ∀ fuel, (parseDns mBuffer fuel).run (newPacket memory buffer) = Exn.outcome
      (parseAt buffer.bytes fuel (dnsOffset mBuffer (payloadPtr (newPacket memory buffer)))) (payloadStage (newPacket memory buffer)) :=
    fun fuel => run_parseDns hfresh mBuffer fuel
  rw [← parseAt_returns_iff]
  refine exists_congr fun fuel => ?_
  rw [hrun]
  cases parseAt buffer.bytes fuel (dnsOffset mBuffer (payloadPtr (newPacket memory buffer))) with
  | error e => simp [Exn.outcome]
  | ok d => simp [Exn.outcome]

/-! ## Names that have no end -/

/-- A name that is read begins inside of the buffer. -/
theorem DnsName.Reads.lt_length {buffer : List UInt8} {dnsStart data : Nat} {name : DnsName} (h : name.Reads buffer dnsStart data) :
    data < buffer.length := by
  have hrun : ∀ ls, Run buffer data 0 ls → (∃ j, buffer[data + (behind 0 ls).toNat]? = some j) → data < buffer.length := by
    intro ls hrun hend
    cases ls with
    | nil =>
      obtain ⟨j, hj⟩ := hend
      exact (List.getElem?_eq_some_iff.mp hj).1
    | cons l ls =>
      obtain ⟨⟨j, hj, -⟩, -⟩ := hrun
      exact (List.getElem?_eq_some_iff.mp hj).1
  cases name with
  | ended ls => exact hrun ls h.1 ⟨0, h.2⟩
  | linked ls target =>
    obtain ⟨hls, ⟨j, hj, -⟩, -⟩ := h
    exact hrun ls hls ⟨j, hj⟩

/-- A link that leads to itself. -/
theorem not_reads_of_link {buffer : List UInt8} {dnsStart data : Nat} {j : UInt8} (hj : buffer[data]? = some j) (hlink : 0xC0 ≤ j)
    (hjump : dnsStart + (be16 buffer data &&& 0x3FFF).toNat = data) (name : DnsName) : ¬name.Reads buffer dnsStart data := by
  have hrun : ∀ l ls, ¬Run buffer data 0 (l :: ls) := by
    rintro l ls ⟨⟨k, hk, hcont, -⟩, -⟩
    have hkj : j = k := Option.some.inj (hj.symm.trans hk)
    exact hcont (stops_iff.mpr (Or.inr (hkj ▸ hlink)))
  induction name with
  | ended ls =>
    rintro ⟨hls, hend⟩
    cases ls with
    | nil =>
      have hzero : j = 0 := Option.some.inj (hj.symm.trans hend)
      exact absurd (hzero ▸ hlink) (by decide)
    | cons l ls => exact hrun l ls hls
  | linked ls target ih =>
    rintro ⟨hls, -, -, htarget⟩
    cases ls with
    | nil => exact ih (hjump ▸ htarget)
    | cons l ls => exact hrun l ls hls

/-- A frame with a DNS message of one question, whose record is given. -/
def dnsFrame (question : List UInt8) : List UInt8 :=
  [0, 0, 0, 0, 0, 0, 0, 0, 0, 0, 0, 0, 8, 0] ++
    udpPacket (.ofNat (40 + question.length)) ([0, 0, 1, 0, 0, 1, 0, 0, 0, 0, 0, 0] ++ question)

/-- A message whose first question has no name is not safe. -/
theorem not_safeAt_of_first_question {buffer : List UInt8} {off : UInt8} (hcount : (be16 buffer (off.toNat + 4)).toNat ≠ 0)
    (hname : ∀ name : DnsName, ¬name.Reads buffer off.toNat ((off.toUInt16 + 12).toNat)) : ¬SafeAt buffer off := by
  rintro ⟨-, s, hquestions, -⟩
  obtain ⟨n, hn⟩ := Nat.exists_eq_succ_of_ne_zero hcount
  rw [hn] at hquestions
  obtain ⟨m, ⟨name, hreads, -⟩, -⟩ := hquestions
  exact hname name hreads

/-- The headers of a frame with UDP in IPv4, without options. -/
theorem headersAt_udpFrame {frame : List UInt8} (hlen : 54 ≤ frame.length) (hip : etherType frame 12 = Packet.kPktTypeIP4)
    (hproto : ipProto frame 14 = kUDP) (hihl : ipHeaderLength frame 14 = 20) : HeadersAt kEthernet frame 14 sizeofUdphdr := by
  refine ⟨Or.inr ⟨rfl, 0, rfl, fun i hi => absurd hi (Nat.not_lt_zero i), hip⟩, ?_, Or.inr ⟨hproto, rfl⟩, ?_⟩
  · exact le_trans (by decide) hlen
  · rw [hihl]
    exact le_trans (by decide) hlen

/-- What the parser does on such a frame. -/
theorem not_returns_dnsFrame {question : List UInt8} (hsize : (dnsFrame question).length < 2 ^ 64)
    (h : HeadersAt kEthernet (dnsFrame question) 14 sizeofUdphdr) (hihl : ipHeaderLength (dnsFrame question) 14 = 20)
    (hsafe : ¬SafeAt (dnsFrame question) 42) (mBuffer fuel : Nat) (d : Parsed) (s : Packet) :
    (parseDns mBuffer fuel).run (newPacket Packet.zeroed ⟨dnsFrame question, hsize⟩) ≠ .ok d s := by
  intro hrun
  have hfresh := fresh_new Packet.zeroed ⟨dnsFrame question, hsize⟩ kEthernet
  have hptr : payloadPtr (newPacket Packet.zeroed ⟨dnsFrame question, hsize⟩) = some 42 := by
    rw [payloadPtr_of_headers Packet.zeroed h, hihl]
    rfl
  have hparse := (run_parseDns hfresh mBuffer fuel).symm.trans hrun
  change Exn.outcome (parseAt (dnsFrame question) fuel (dnsOffset mBuffer
    (payloadPtr (newPacket Packet.zeroed ⟨dnsFrame question, hsize⟩)))) _ = _ at hparse
  rw [hptr, dnsOffset_some] at hparse
  change Exn.outcome (parseAt (dnsFrame question) fuel 42) _ = _ at hparse
  cases hat : parseAt (dnsFrame question) fuel 42 with
  | error e =>
    rw [hat] at hparse
    cases hparse
  | ok d' => exact hsafe (parseAt_returns_iff.mp ⟨fuel, d', hat⟩)

/-- A packet that ends behind the header, and one whose question is named by a link to itself. -/
theorem truncated_and_looping_dns :
    (∀ mBuffer fuel d s, (parseDns mBuffer fuel).run (newPacket Packet.zeroed ⟨dnsFrame [], by decide⟩) ≠ .ok d s) ∧
      ∀ mBuffer fuel d s,
        (parseDns mBuffer fuel).run (newPacket Packet.zeroed ⟨dnsFrame [0xC0, 12, 0, 1, 0, 1], by decide⟩) ≠ .ok d s := by
  constructor
  · refine not_returns_dnsFrame _ (headersAt_udpFrame (by decide) (by decide) (by decide) (by decide)) (by decide) ?_
    refine not_safeAt_of_first_question (by decide) fun name hreads => ?_
    exact absurd hreads.lt_length (by decide)
  · refine not_returns_dnsFrame _ (headersAt_udpFrame (by decide) (by decide) (by decide) (by decide)) (by decide) ?_
    refine not_safeAt_of_first_question (by decide) ?_
    exact not_reads_of_link (j := 0xC0) (by decide) (by decide) (by decide)

end Blockmon.Messages.Dns

/-!
## Names with links

A name that stands anywhere in the buffer, with links that lead from part to part of the message, is read as its labels with dots
between them. The bytes it takes at its own place are added to a counter of 16 bits.
-/

namespace Blockmon.Messages.Dns

/-- `read_dns_name` returns the labels with dots between them, and `*consumed` has gone up by the bytes that the name takes at its own
place, modulo 2^16. -/
theorem read_dns_name_decompresses (buffer : List UInt8) (dnsStart data : Nat) (name : DnsName) (consumed : UInt16)
    (hstored : name.Stored buffer dnsStart data) (hgood : GoodLabels name.labels) (hplain : name.Plain) (hfits : name.Fits) :
    ∃ consumed' : UInt16,
      Fuel.Returns (fun fuel => readDnsName buffer dnsStart fuel consumed data) (consumed', dotted name.labels) ∧
        consumed'.toNat = (consumed.toNat + name.wireLength) % 2 ^ 16 := by
  have hreads := DnsName.reads_of_stored hgood hfits hstored
  refine ⟨consumed + name.extent, ?_, ?_⟩
  · rw [← (DnsName.text_eq_iff hfits).mpr hplain]
    exact hreads.returns consumed
  · rw [DnsName.extent_eq hfits, UInt16.toNat_add, UInt16.toNat_ofNat', Nat.add_mod_mod]

/-! ## A link behind a label, and a name that is too long for the counter -/

/-- "a" and a link to "b", which stands before it. -/
def linkedBytes : List UInt8 := [1, 98, 0, 1, 97, 0xC0, 0]

/-- A name with a pointer, as two labels. -/
theorem read_dns_name_decompresses_linked :
    ∃ consumed' : UInt16, Fuel.Returns (fun fuel => readDnsName linkedBytes 0 fuel 7 3) (consumed', [97, dot, 98]) ∧
      consumed'.toNat = 11 := by
  have hstored : (DnsName.linked [[97]] (.ended [[98]])).Stored linkedBytes 0 3 := by
    refine ⟨0, by decide, by decide, ?_⟩
    show Layout.At linkedBytes 0 (labelBytes [[98]] ++ [0])
    decide
  exact read_dns_name_decompresses linkedBytes 0 3 _ 7 hstored (by simp [GoodLabels, DnsName.labels])
    ⟨Or.inr (List.cons_ne_nil _ _), trivial⟩ ⟨by decide, show (labelBytes [[98]]).length < 2 ^ 32 by decide⟩

/-- 1024 labels of 63 bytes. -/
def longLabels : List (List UInt8) := List.replicate 1024 (List.replicate 63 97)

/-- The length of equal labels. -/
theorem length_labelBytes_replicate (n : Nat) (l : List UInt8) : (labelBytes (List.replicate n l)).length = n * (l.length + 1) := by
  induction n with
  | zero => simp [labelBytes]
  | succ n ih => rw [List.replicate_succ, length_labelBytes_cons, ih, Nat.succ_mul, Nat.add_comm]

/-- The long name ends where an offset of 16 bits begins anew. -/
theorem length_longLabels : (labelBytes longLabels).length = 2 ^ 16 := by
  rw [longLabels, length_labelBytes_replicate, List.length_replicate]
  decide

/-- A name of 2^16 + 1 bytes. -/
theorem read_dns_name_wraps : ¬∀ (buffer : List UInt8) (dnsStart data : Nat) (name : DnsName) (consumed : UInt16),
    name.Stored buffer dnsStart data → GoodLabels name.labels → name.Plain →
    ∃ consumed' : UInt16,
      Fuel.Returns (fun fuel => readDnsName buffer dnsStart fuel consumed data) (consumed', dotted name.labels) ∧
        consumed'.toNat = consumed.toNat + name.wireLength := by
  intro hall
  have hgood : GoodLabels longLabels := by
    intro l hl
    rw [List.eq_of_mem_replicate hl]
    decide
  obtain ⟨consumed', -, hconsumed⟩ :=
    hall (labelBytes longLabels ++ [0]) 0 0 (.ended longLabels) 0 (List.prefix_refl _) hgood trivial
  have hlt := consumed'.toNat_lt
  rw [hconsumed, DnsName.wireLength, length_longLabels] at hlt
  exact absurd hlt (by decide)

/-! ## A name that is too long for the index -/

/-- A length byte stands before each of the labels. -/
theorem getElem?_labelBytes_replicate {n k : Nat} (l rest : List UInt8) (hk : k < n) :
    (labelBytes (List.replicate n l) ++ rest)[k * (l.length + 1)]? = some (.ofNat l.length) := by
  induction k generalizing n with
  | zero =>
    obtain ⟨n, rfl⟩ := Nat.exists_eq_add_of_le' hk
    rw [Nat.zero_mul]
    rfl
  | succ k ih =>
    obtain ⟨n, rfl⟩ := Nat.exists_eq_add_of_le' (Nat.lt_of_le_of_lt (Nat.zero_le (k + 1)) hk)
    have hlen : (UInt8.ofNat l.length :: l).length = l.length + 1 := rfl
    rw [List.replicate_succ, labelBytes_cons, List.append_assoc, Nat.succ_mul, List.getElem?_append_right (by omega), hlen,
      Nat.add_sub_cancel]
    exact ih (by omega)

/-- The labels of a name of 2^32 bytes and the byte at its end. -/
def wrappingBytes : List UInt8 := labelBytes (List.replicate (2 ^ 26) (List.replicate 63 97)) ++ [0]

/-- Every 64th byte of the long name is a length. -/
theorem getElem?_wrappingBytes {k : Nat} (hk : k < 2 ^ 26) : wrappingBytes[64 * k]? = some 63 := by
  have h := getElem?_labelBytes_replicate (List.replicate 63 97) [0] hk
  rw [List.length_replicate, Nat.mul_comm] at h
  exact h

/-- The index comes back to the first label, so it stays on the length bytes. -/
theorem behind_wrappingBytes {i : UInt32} {k : Nat} (hk : k < 2 ^ 26) (hi : i.toNat = 64 * k) {ls : List (List UInt8)}
    (h : Run wrappingBytes 0 i ls) : wrappingBytes[(behind i ls).toNat]? = some 63 := by
  induction ls generalizing i k with
  | nil =>
    rw [behind, hi]
    exact getElem?_wrappingBytes hk
  | cons l ls ih =>
    obtain ⟨⟨j, hj, -, hbytes⟩, hrest⟩ := h
    rw [Nat.zero_add, hi, getElem?_wrappingBytes hk] at hj
    cases hj
    have hlen : l.length = 63 := length_of_bytesAt hbytes
    have hone : (1 : UInt32).toNat = 1 := rfl
    have hlast : (UInt32.ofNat 63).toNat = 63 := rfl
    refine ih (k := (k + 1) % 2 ^ 26) (Nat.mod_lt _ (by decide)) ?_ hrest
    rw [hlen, UInt32.toNat_add, UInt32.toNat_add, hi, hone, hlast]
    omega

/-- `read_dns_name` never returns from a name of 2^32 bytes. -/
theorem not_returns_wrappingBytes (fuel : Nat) (consumed : UInt16) (r : UInt16 × List UInt8) :
    readDnsName wrappingBytes 0 fuel consumed 0 ≠ .ok r := by
  intro h
  obtain ⟨name, hreads, -⟩ := reads_of_readDnsName h
  cases name with
  | ended ls =>
    obtain ⟨hrun, hend⟩ := hreads
    rw [Nat.zero_add, behind_wrappingBytes (k := 0) (by decide) rfl hrun] at hend
    exact absurd hend (by decide)
  | linked ls target =>
    obtain ⟨hrun, ⟨j, hend, hlink⟩, -⟩ := hreads
    rw [Nat.zero_add, behind_wrappingBytes (k := 0) (by decide) rfl hrun] at hend
    cases hend
    exact absurd hlink (by decide)

end Blockmon.Messages.Dns
