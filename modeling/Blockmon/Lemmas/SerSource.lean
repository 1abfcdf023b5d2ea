import Blockmon.Lemmas.Serializer
import Blockmon.SerSource

/-!
# Frames in the buffers of the exporter and the source

A frame is what an exporter sends for a message: its length in two bytes and the values that `serialize` adds. The exporter sends the
frames of its messages one after the other; the source takes one frame at a time from the front of a buffer.
-/

namespace Blockmon

open BufferSerializer

/-! ## Frames -/

namespace Message

/-- The values that `serialize` adds. -/
def fields : Message → List Field
  | .tweet t => t.fields
  | .wordRecord r => r.fields

/-- The fields of a message on the wire. -/
def payload (m : Message) : List UInt8 := m.fields.flatMap Field.encode

/-- The message as it is sent: the length, with its own two bytes, and the values. -/
def frame (m : Message) : List UInt8 := encodeInt 2 htons (2 + m.payload.length) ++ m.payload

@[simp] theorem length_frame (m : Message) : m.frame.length = 2 + m.payload.length := by
  simp [frame]

/-- The byte strings of a message are not longer than its payload. -/
theorem length_le_payload {m : Message} {bytes : List UInt8} {maxLen : Option Int} (h : Field.data bytes maxLen ∈ m.fields) :
    bytes.length + 2 ≤ m.payload.length := by
  have hsub : (Field.data bytes maxLen).encode.length ≤ m.payload.length := by
    obtain ⟨before, after, hsplit⟩ := List.append_of_mem h
    unfold payload
    rw [hsplit]
    simp only [List.flatMap_append, List.flatMap_cons, List.length_append]
    omega
  simp only [Field.encode, List.length_append, length_encodeInt] at hsub
  omega

/-- A field has two bytes at least. -/
theorem length_mul_le {fs : List Field} (h : ∀ f ∈ fs, 2 ≤ f.encode.length) : 2 * fs.length ≤ (fs.flatMap Field.encode).length := by
  induction fs with
  | nil => simp
  | cons f fs ih =>
    have hf := h f List.mem_cons_self
    have hfs := ih fun g hg => h g (List.mem_cons_of_mem f hg)
    simp only [List.flatMap_cons, List.length_append, List.length_cons]
    omega

/-- A message with a frame that is short enough has short strings and few of them. -/
theorem sizes {m : Message} (h : m.frame.length ≤ 32767) :
    match m with
    | .tweet t => t.tweet.length ≤ 32767
    | .wordRecord r => r.word.length < 2 ^ 31 ∧ ∀ w ∈ r.word, w.length ≤ 32767 := by
  rw [length_frame] at h
  cases m with
  | tweet t =>
    have hlen := length_le_payload (m := .tweet t) (List.mem_singleton_self (Field.data t.tweet none))
    dsimp only
    omega
  | wordRecord r =>
    have hmem : ∀ w ∈ r.word, Field.data w none ∈ (Message.wordRecord r).fields := fun w hw =>
      List.mem_cons_of_mem _ (List.mem_map_of_mem hw)
    refine ⟨?_, fun w hw => ?_⟩
    · have hcount : 2 * (Message.wordRecord r).fields.length ≤ (Message.wordRecord r).payload.length := by
        refine length_mul_le fun f hf => ?_
        rcases List.mem_cons.mp hf with rfl | hf
        · simp [Field.encode]
        · obtain ⟨w, -, rfl⟩ := List.mem_map.mp hf
          simp [Field.encode]
      have hlength : (Message.wordRecord r).fields.length = r.word.length + 1 := by simp [fields, WordRecord.fields]
      omega
    · have hlen := length_le_payload (hmem w hw)
      omega

/-- The fields of a message that fits have their types. -/
theorem typed {m : Message} (h : m.frame.length ≤ 32767) : ∀ f ∈ m.fields, f.Typed := by
  have hsizes := sizes h
  cases m with
  | tweet t => exact Tweet.typed (by dsimp only at hsizes; omega)
  | wordRecord r =>
    refine WordRecord.typed hsizes.1 fun w hw => ?_
    have := hsizes.2 w hw
    omega

/-- A message that fits is its fields. -/
theorem serialize_eq {m : Message} (h : m.frame.length ≤ 32767) : m.serialize = (do Serializer.reset; Field.addAll m.fields) := by
  have hsizes := sizes h
  cases m with
  | tweet t => exact Tweet.serialize_eq (by dsimp only at hsizes; omega)
  | wordRecord r =>
    refine WordRecord.serialize_eq hsizes.1 fun w hw => ?_
    have := hsizes.2 w hw
    omega

end Message

namespace Buffered

variable {s s' : BufferSerializer} {l b : List UInt8}

/-- A message is taken from the front of the buffer. -/
theorem buildSame {m : Message} (h : Buffered s (m.payload ++ l)) (hm : m.frame.length ≤ 32767) :
    ∃ s', m.prototype.buildSame.run s = .ok m s' ∧ Buffered s' l := by
  have hsizes := Message.sizes hm
  cases m with
  | tweet t =>
    obtain ⟨s', hrun, hs'⟩ := Buffered.buildTweet (t := t) h hsizes
    exact ⟨s', Exn.run_bind_of_ok hrun, hs'⟩
  | wordRecord r =>
    obtain ⟨s', hrun, hs'⟩ := Buffered.buildRecord (r := r) h hsizes.1 hsizes.2
    exact ⟨s', Exn.run_bind_of_ok hrun, hs'⟩

/-- The number in the first two bytes, which stay where they are. -/
theorem readInt16 {v : Int} (h : Buffered s (encodeInt 2 htons v ++ l)) (hlo : -2 ^ 15 ≤ v) (hhi : v < 2 ^ 15) :
    ∃ s', Serializer.readInt16.run s = .ok v s' ∧ Buffered s' (encodeInt 2 htons v ++ l) ∧ s'.data = s.data := by
  obtain ⟨hb, -, -⟩ := h.split
  have hlen := h.length_le
  have htail := h.tail
  simp only [List.length_append, length_encodeInt] at hb hlen htail
  have hoffset : 0 ≤ (0 : Int) ∧ toInt (0 + 2) ≤ toInt (s.tail - s.data) := by
    refine ⟨le_refl 0, ?_⟩
    rw [toInt_of_lt (by omega) (by omega), toInt_of_lt (by omega) (by omega)]
    omega
  refine ⟨{ s with log := s.log ++ [⟨false, s.data + 0, 2⟩] }, ?_, ⟨h.head, h.bufEnd, h.data, h.tail, h.fits, h.bytes⟩, rfl⟩
  have hdecode := decodeInt16 hlo hhi
  unfold decodeInt at hdecode
  unfold Serializer.readInt16
  rw [run_getInt16, if_pos hoffset, Int.add_zero, hb, hdecode]

/-- `compact` moves the data to the front. -/
theorem next (h : Buffered s l) : ∃ s', Serializer.next.run s = .ok () s' ∧ Buffered s' l ∧ s'.data = 0 := by
  have hlen := h.length_le
  have htail := h.tail
  have hdiff : toInt (s.tail - s.data) = l.length := by
    rw [show s.tail - s.data = l.length by omega]
    exact toInt_of_lt (by omega) (by omega)
  have hcast := cast_toSize_of_nonneg (n := (l.length : Int)) (by omega) (by omega)
  have hsize : toSize (l.length : Int) = l.length := by omega
  refine ⟨_, run_compact s, ⟨h.head, h.bufEnd, ?_, ?_, ?_, ?_⟩, h.head⟩
  · exact le_of_eq h.head.symm
  · exact congrArg (s.head + ·) hdiff
  · simp only [hdiff, h.head]
    omega
  · simp only [hdiff, hsize]
    rw [Bytes.read_move, h.bytes]

/-- Bytes are appended where there is room for them. -/
theorem addRawData (h : Buffered s l) (hroom : s.data + l.length + b.length ≤ 65536) :
    ∃ s', (Serializer.addRawData b b.length).run s = .ok () s' ∧ Buffered s' (l ++ b) ∧ s'.data = s.data := by
  have htail := h.tail
  have hend := h.bufEnd
  have hdata := h.data
  have hrun := run_putRawData s (Bytes.source b) b.length
  rw [if_pos (by omega)] at hrun
  exact ⟨_, hrun, h.putRawData (by omega) hrun, rfl⟩

/-! ## The exporter's buffer -/

/-- An integer is put where there is room. -/
theorem putInt_ok (h : Buffered s l) (n : Nat) (hton : Nat → Nat) (v : Int) (hroom : s.data + l.length + n ≤ 65536) :
    ∃ s', (BufferSerializer.putInt n hton v).run s = .ok () s' ∧ s'.data = s.data := by
  have htail := h.tail
  have hend := h.bufEnd
  rw [run_putInt, if_pos (by omega)]
  exact ⟨_, rfl, rfl⟩

/-- A field is added where there is room. -/
theorem add_ok (h : Buffered s l) {f : Field} (hf : f.Typed) (hroom : s.data + l.length + f.encode.length ≤ 65536) :
    ∃ s', f.add.run s = .ok () s' ∧ Buffered s' (l ++ f.encode) ∧ s'.data = s.data := by
  have hreturns : ∃ s', f.add.run s = .ok () s' ∧ s'.data = s.data := by
    cases f with
    | int32 v => exact h.putInt_ok 4 htonl v (by simpa [Field.encode] using hroom)
    | int64 v => exact h.putInt_ok 8 htonll v (by simpa [Field.encode] using hroom)
    | int16 v => exact h.putInt_ok 2 htons v (by simpa [Field.encode] using hroom)
    | data bytes maxLen =>
      simp only [Field.encode, List.length_append, length_encodeInt] at hroom
      obtain ⟨m, hlength, hmdata⟩ := h.putInt_ok 2 htons bytes.length (by omega)
      have hm := h.putInt hlength
      obtain ⟨s', hraw, -, hdata⟩ := hm.addRawData (b := bytes) (by simp only [List.length_append, length_encodeInt]; omega)
      exact ⟨s', (Exn.run_bind_of_ok hlength).trans hraw, hdata.trans hmdata⟩
  obtain ⟨s', hrun, hdata⟩ := hreturns
  exact ⟨s', hrun, h.add hf hrun, hdata⟩

/-- Fields are added where there is room. -/
theorem addAll_ok {fs : List Field} (hfs : ∀ f ∈ fs, f.Typed) (h : Buffered s l)
    (hroom : s.data + l.length + (fs.flatMap Field.encode).length ≤ 65536) :
    ∃ s', (Field.addAll fs).run s = .ok () s' ∧ Buffered s' (l ++ fs.flatMap Field.encode) ∧ s'.data = s.data := by
  induction fs generalizing s l with
  | nil => exact ⟨s, rfl, by simpa using h, rfl⟩
  | cons f fs ih =>
    simp only [List.flatMap_cons, List.length_append] at hroom
    obtain ⟨m, hf, hm, hdata⟩ := h.add_ok (hfs f List.mem_cons_self) (by omega)
    obtain ⟨s', hrest, hs', hdata'⟩ := ih (fun g hg => hfs g (List.mem_cons_of_mem f hg)) hm (by rw [List.length_append]; omega)
    refine ⟨s', ?_, by simpa [List.append_assoc] using hs', hdata'.trans hdata⟩
    unfold Field.addAll
    rw [List.forM_cons]
    exact (Exn.run_bind_of_ok hf).trans hrest

/-- `finalize` writes the length over the first two bytes. -/
theorem finalize (h : Buffered s (b ++ l)) (hb : b.length = 2) :
    ∃ s', Serializer.finalize.run s = .ok (s.data, 2 + l.length) s' ∧ Buffered s' (encodeInt 2 htons (2 + l.length) ++ l) ∧
      s'.data = s.data := by
  obtain ⟨-, hl, -⟩ := h.split
  have hlen := h.len
  have hbound := h.length_le
  have htail := h.tail
  simp only [List.length_append, hb] at hlen hbound htail hl
  have hdiff : toInt (s.tail - s.data) = 2 + l.length := by
    rw [show s.tail - s.data = 2 + l.length by omega]
    exact toInt_of_lt (by omega) (by omega)
  have hset := run_setInt16 s (2 + l.length : Int) 0
  have hoffset : 0 ≤ (0 : Int) ∧ toInt (0 + 2) ≤ toInt (s.tail - s.data) := by
    rw [hdiff, toInt_of_lt (by omega) (by omega)]
    omega
  rw [if_pos hoffset, Int.add_zero] at hset
  refine ⟨_, (Exn.run_bind_of_ok hlen).trans ((Exn.run_bind_of_ok hset).trans (congrArg (fun n => EStateM.Result.ok (s.data, n) _) hdiff)),
    ⟨h.head, h.bufEnd, h.data, ?_, h.fits, ?_⟩, rfl⟩
  · simp only [List.length_append, length_encodeInt]
    omega
  · have hsource := Bytes.map_source (encodeInt 2 htons (2 + l.length))
    rw [length_encodeInt] at hsource
    simp only [List.length_append, length_encodeInt, Bytes.read_add]
    congr 1
    · exact (Bytes.read_write_self _ _ _ _).trans hsource
    · exact (Bytes.read_write_of_disjoint (Or.inr (le_refl _))).trans hl

end Buffered

/-- What is in the buffer is loaded. -/
theorem Buffered.load {s : BufferSerializer} {l : List UInt8} (h : Buffered s l) :
    ∃ s', (BufferSerializer.load s.data (toSize l.length)).run s = .ok l s' := by
  have hlen := h.length_le
  have hcast := cast_toSize_of_nonneg (n := (l.length : Int)) (by omega) (by omega)
  have hsize : toSize (l.length : Int) = l.length := by omega
  rw [hsize]
  exact ⟨_, congrArg (fun bytes => EStateM.Result.ok bytes _) h.bytes⟩

/-- What `serialize` and `finalize` leave in the buffer. -/
theorem Buffered.serialize (s : BufferSerializer) {m : Message} (hm : m.frame.length ≤ 32767) :
    ∃ s', m.serialize.run s = .ok () s' ∧ s'.data = 0 ∧ ∃ first, first.length = 2 ∧ Buffered s' (first ++ m.payload) := by
  have hreset : Serializer.reset.run s = .ok () { s with head := 0, data := 0, tail := 2, bufEnd := 65536 } := rfl
  obtain ⟨first, hfirst, hbuffered⟩ := Buffered.reset hreset
  have hlength := hm
  rw [Message.length_frame] at hlength
  obtain ⟨s', hadd, hs', hdata⟩ := hbuffered.addAll_ok (Message.typed hm) (by
    have hpayload : (m.fields.flatMap Field.encode).length = m.payload.length := rfl
    simp only
    omega)
  rw [Message.serialize_eq hm]
  exact ⟨s', (Exn.run_bind_of_ok hreset).trans hadd, hdata, first, hfirst, hs'⟩

/-! ## The exporter -/

namespace SerExporter

/-- A call on the serializer of the exporter. -/
theorem run_onSer {α : Type} {call : EStateM Stop BufferSerializer α} {e : SerExporter} {a : α} {ser : BufferSerializer}
    (h : call.run e.ser = .ok a ser) : (onSer call).run e = .ok a { e with ser := ser } := by
  unfold onSer
  rw [Exn.run_onPart, h]

/-- A message is sent as its frame. -/
theorem run_receiveMsg (e : SerExporter) {m : Message} (hm : m.frame.length ≤ 32767) :
    ∃ ser, (receiveMsg m).run e = .ok () { ser := ser, wire := e.wire ++ m.frame } := by
  obtain ⟨s₁, hserialize, -, first, hfirst, hs₁⟩ := Buffered.serialize e.ser hm
  obtain ⟨s₂, hfinalize, hs₂, hdata⟩ := hs₁.finalize hfirst
  obtain ⟨s₃, hload⟩ := Buffered.load (l := m.frame) hs₂
  rw [hdata, Message.length_frame] at hload
  refine ⟨s₃, ?_⟩
  unfold receiveMsg
  rw [EStateM.run_bind, run_onSer hserialize]
  dsimp only
  rw [EStateM.run_bind, run_onSer hfinalize]
  dsimp only [send]
  rw [EStateM.run_bind, run_onSer (by exact_mod_cast hload)]
  rfl

/-- The exporter sends the frames of its messages. -/
theorem run_receiveAll {ms : List Message} (hms : ∀ m ∈ ms, m.frame.length ≤ 32767) (e : SerExporter) :
    ∃ ser, (forM ms receiveMsg).run e = .ok () { ser := ser, wire := e.wire ++ ms.flatMap Message.frame } := by
  induction ms generalizing e with
  | nil => exact ⟨e.ser, by simp⟩
  | cons m ms ih =>
    obtain ⟨ser, hm⟩ := run_receiveMsg e (hms m List.mem_cons_self)
    obtain ⟨ser', hrest⟩ := ih (fun n hn => hms n (List.mem_cons_of_mem m hn)) { ser := ser, wire := e.wire ++ m.frame }
    refine ⟨ser', ?_⟩
    rw [List.forM_cons, EStateM.run_bind, hm]
    dsimp only
    rw [hrest, List.flatMap_cons, List.append_assoc]

end SerExporter

/-- The exporter fails no assertion, and the wire is the frames of the messages. -/
theorem Peer.wire_eq {peer : Peer} (h : ∀ m ∈ peer.messages, m.frame.length ≤ 32767) :
    Exn.returns peer.exports = true ∧ peer.wire = peer.messages.flatMap Message.frame := by
  obtain ⟨ser, hrun⟩ := SerExporter.run_receiveAll h { ser := Serializer.new peer.exporterMem, wire := [] }
  unfold Peer.wire Peer.exports
  rw [hrun]
  exact ⟨rfl, List.nil_append _⟩

/-! ## The source -/

/-- The messages whose frames lie in the first `n` bytes of the wire. -/
def completed : List Message → Nat → List Message
  | [], _ => []
  | m :: ms, n => if m.frame.length ≤ n then m :: completed ms (n - m.frame.length) else []

/-- The messages that are completed, behind others. -/
theorem completed_append (ms rest : List Message) (n : Nat) :
    completed (ms ++ rest) ((ms.flatMap Message.frame).length + n) = ms ++ completed rest n := by
  induction ms with
  | nil => simp
  | cons m ms ih =>
    have hlength : ((m :: ms).flatMap Message.frame).length = m.frame.length + (ms.flatMap Message.frame).length := by
      rw [List.flatMap_cons, List.length_append]
    have hdiff : m.frame.length + (ms.flatMap Message.frame).length + n - m.frame.length = (ms.flatMap Message.frame).length + n := by omega
    rw [hlength, List.cons_append, completed, if_pos (by omega), hdiff, ih, List.cons_append]

/-- The first frame is not complete. -/
def Incomplete (frag : List UInt8) (rest : List Message) : Prop := ∀ m rest', rest = m :: rest' → frag.length < m.frame.length

/-- A fragment completes no message. -/
theorem completed_of_incomplete {frag : List UInt8} {rest : List Message} (h : Incomplete frag rest) : completed rest frag.length = [] := by
  cases rest with
  | nil => rfl
  | cons m rest =>
    have hlt := h m rest rfl
    rw [completed, if_neg (by omega)]

namespace Client

/-- The buffer of a client holds the bytes `frag`; the messages `rest` have not been sent out. -/
structure Holds (p : Prototype) (c : Client) (frag : List UInt8) (rest : List Message) : Prop where
  peer : ∀ m ∈ c.peer.messages, m.prototype = p ∧ m.frame.length ≤ 32767
  buffered : Buffered c.ser frag
  front : c.ser.data = 0
  room : frag.length ≤ 34766
  messages : c.peer.messages = c.sent ++ rest
  stream : frag ++ c.peer.wire.drop c.received = rest.flatMap Message.frame
  received : c.received = (c.sent.flatMap Message.frame).length + frag.length

/-- A call on the serializer of a client. -/
theorem run_onSer {α : Type} {call : EStateM Stop BufferSerializer α} {c : Client} {a : α} {ser : BufferSerializer}
    (h : call.run c.ser = .ok a ser) : (onSer call).run c = .ok a { c with ser := ser } := by
  unfold onSer
  rw [Exn.run_onPart, h]

variable {p : Prototype} {c : Client} {frag : List UInt8} {rest : List Message}

/-- Two bytes are enough for the length of the next frame. -/
theorem Holds.next (h : Holds p c frag rest) (hlen : 2 ≤ frag.length) :
    ∃ m rest' tail, rest = m :: rest' ∧ frag = encodeInt 2 htons m.frame.length ++ tail ∧ m.frame.length ≤ 32767 ∧
      (m.frame.length ≤ frag.length → ∃ frag', frag = m.frame ++ frag' ∧ frag' ++ c.peer.wire.drop c.received = rest'.flatMap Message.frame) := by
  have hstream := h.stream
  cases rest with
  | nil =>
    have hnil : frag = [] := (List.append_eq_nil_iff.mp hstream).1
    rw [hnil] at hlen
    simp at hlen
  | cons m rest' =>
    have hm := h.peer m (by rw [h.messages]; simp)
    rw [List.flatMap_cons] at hstream
    have hfront : frag <+: m.frame ++ rest'.flatMap Message.frame := by
      rw [← hstream]
      exact List.prefix_append _ _
    have hlength : encodeInt 2 htons m.frame.length <+: m.frame ++ rest'.flatMap Message.frame := by
      rw [Message.length_frame, Message.frame, List.append_assoc]
      exact List.prefix_append _ _
    obtain ⟨tail, htail⟩ := List.prefix_of_prefix_length_le hlength hfront (by simpa using hlen)
    refine ⟨m, rest', tail, rfl, htail.symm, hm.2, fun hcomplete => ?_⟩
    obtain ⟨frag', rfl⟩ := List.prefix_of_prefix_length_le (List.prefix_append m.frame _) hfront hcomplete
    refine ⟨frag', rfl, ?_⟩
    rw [List.append_assoc] at hstream
    exact List.append_cancel_left hstream

/-- The length of the fragment. -/
theorem run_getLen (h : Buffered c.ser frag) : (onSer Serializer.getLen).run c = .ok (frag.length : Int) c := run_onSer h.len

/-- Another serializer with the same fragment. -/
theorem Holds.of_ser (h : Holds p c frag rest) {ser : BufferSerializer} (hser : Buffered ser frag) (hdata : ser.data = 0) :
    Holds p { c with ser := ser } frag rest :=
  ⟨h.peer, hser, hdata, h.room, h.messages, h.stream, h.received⟩

/-- What is done with a complete frame. -/
theorem run_complete {m : Message} (hm : m.frame.length ≤ 32767) (h : Buffered c.ser (m.frame ++ frag)) :
    ∃ ser, (do onSer (Serializer.consume 2); sendRecord (← onSer m.prototype.buildSame); onSer Serializer.next; return true).run c =
        .ok true { c with ser := ser, sent := c.sent ++ [m] } ∧ Buffered ser frag ∧ ser.data = 0 := by
  rw [Message.frame, List.append_assoc] at h
  obtain ⟨s₁, hconsume, hs₁⟩ := h.consume (show ((encodeInt 2 htons (2 + m.payload.length)).length : Int) = 2 by simp)
  obtain ⟨s₂, hbuild, hs₂⟩ := hs₁.buildSame hm
  obtain ⟨s₃, hnext, hs₃, hdata⟩ := hs₂.next
  refine ⟨s₃, ?_, hs₃, hdata⟩
  rw [EStateM.run_bind, run_onSer hconsume]
  dsimp only
  rw [EStateM.run_bind, run_onSer hbuild]
  dsimp only
  rw [EStateM.run_bind]
  dsimp only [sendRecord, EStateM.run_modify]
  rw [EStateM.run_bind, run_onSer hnext]
  rfl

/-- The first frame is taken out of the buffer when it is complete, else nothing is. -/
theorem consume_cases (h : Holds p c frag rest) :
    (Incomplete frag rest ∧ ∃ ser, (consume p).run c = .ok false { c with ser := ser } ∧ Holds p { c with ser := ser } frag rest) ∨
      ∃ m rest' frag' ser, rest = m :: rest' ∧ (consume p).run c = .ok true { c with ser := ser, sent := c.sent ++ [m] } ∧
        Holds p { c with ser := ser, sent := c.sent ++ [m] } frag' rest' := by
  have hgetLen := run_getLen h.buffered
  unfold consume
  rw [EStateM.run_bind, hgetLen]
  dsimp only
  by_cases hlen : 2 ≤ frag.length
  · rw [if_pos (by omega)]
    obtain ⟨m, rest', tail, rfl, htail, hm, hcomplete⟩ := h.next hlen
    have hbuffered := h.buffered
    rw [htail] at hbuffered
    obtain ⟨s₁, hread, hs₁, hdata₁⟩ := hbuffered.readInt16 (by omega) (by omega)
    rw [← htail] at hs₁
    rw [EStateM.run_bind, run_onSer hread]
    dsimp only
    rw [EStateM.run_bind, run_getLen hs₁]
    dsimp only
    by_cases hframe : m.frame.length ≤ frag.length
    · right
      obtain ⟨frag', rfl, hstream⟩ := hcomplete hframe
      rw [if_pos (by omega)]
      have hp := (h.peer m (by rw [h.messages]; simp)).1
      obtain ⟨ser, hrun, hser, hdata⟩ := run_complete (c := { c with ser := s₁ }) hm hs₁
      rw [hp] at hrun
      have hroom := h.room
      have hreceived := h.received
      simp only [List.length_append] at hroom hreceived
      refine ⟨m, rest', frag', ser, rfl, hrun, h.peer, hser, hdata, by omega, ?_, hstream, ?_⟩
      · simp [h.messages]
      · simp only [List.flatMap_append, List.flatMap_singleton, List.length_append]
        omega
    · left
      rw [if_neg (by omega)]
      refine ⟨?_, s₁, rfl, h.of_ser hs₁ (hdata₁.trans h.front)⟩
      intro m' rest'' heq
      rw [← (List.cons.inj heq).1]
      omega
  · left
    rw [if_neg (by omega)]
    refine ⟨?_, c.ser, rfl, h.of_ser h.buffered h.front⟩
    intro m rest' _
    rw [Message.length_frame]
    omega

/-- A chunk is appended to an incomplete frame. -/
theorem receive_incomplete (h : Holds p c frag rest) (hfrag : Incomplete frag rest) (n : Nat) :
    ∃ c', (receive n).run c = .ok () c' ∧ Holds p c' (frag ++ c.chunk n) rest := by
  have hroom : frag.length + (c.chunk n).length ≤ 34766 := by
    have hchunk : (c.chunk n).length ≤ 2000 := by
      unfold chunk DEFAULT_RECV_SIZE
      rw [List.length_take]
      omega
    cases rest with
    | nil =>
      have hnil := (List.append_eq_nil_iff.mp h.stream).1
      rw [hnil, List.length_nil]
      omega
    | cons m rest =>
      have hlt := hfrag m rest rfl
      have hm := (h.peer m (by rw [h.messages]; simp)).2
      omega
  unfold receive
  rw [EStateM.run_bind]
  dsimp only [EStateM.run_get]
  by_cases hchunk : c.chunk n = []
  · rw [if_neg (not_not.mpr hchunk), hchunk, List.append_nil]
    exact ⟨c, rfl, h⟩
  · obtain ⟨ser, hadd, hser, hdata⟩ := h.buffered.addRawData (b := c.chunk n) (by rw [h.front]; omega)
    rw [if_pos hchunk, EStateM.run_bind, run_onSer hadd]
    refine ⟨_, rfl, h.peer, hser, hdata.trans h.front, by rw [List.length_append]; omega, h.messages, ?_, ?_⟩
    · have hsplit : c.chunk n ++ c.peer.wire.drop (c.received + (c.chunk n).length) = c.peer.wire.drop c.received := by
        obtain ⟨tail, htail⟩ : c.chunk n <+: c.peer.wire.drop c.received := List.take_prefix _ _
        rw [← List.drop_drop, ← htail, List.drop_left]
      rw [List.append_assoc, hsplit]
      exact h.stream
    · have hreceived := h.received
      simp only [List.length_append]
      omega

/-- What holds of a client between the iterations. -/
def Inv (p : Prototype) (c : Client) : Prop := ∃ frag rest, Holds p c frag rest

/-- What holds of a client before `recv`. -/
def Waiting (p : Prototype) (c : Client) : Prop := ∃ frag rest, Holds p c frag rest ∧ Incomplete frag rest

/-- A client that waits satisfies the invariant. -/
theorem Waiting.inv (h : Waiting p c) : Inv p c := by
  obtain ⟨frag, rest, hc, -⟩ := h
  exact ⟨frag, rest, hc⟩

/-- A new client waits. -/
theorem Waiting.accept {peer : Peer} (h : ∀ m ∈ peer.messages, m.prototype = p ∧ m.frame.length ≤ 32767) :
    Waiting p (Client.accept peer) := by
  have hwire := (Peer.wire_eq fun m hm => (h m hm).2).2
  refine ⟨[], peer.messages, ⟨h, ⟨rfl, rfl, le_refl 0, rfl, show (0 : Int) ≤ 65536 by decide, rfl⟩, rfl, by decide, rfl, ?_, rfl⟩, ?_⟩
  · simpa [Client.accept] using hwire
  · intro m rest _
    rw [List.length_nil, Message.length_frame]
    omega

end Client

/-! ## The loops over the clients -/

namespace SerSource

variable {p : Prototype} {cs : List Client}

/-- What has arrived for a client. -/
def arrived (c : Client) : Peer × Nat := (c.peer, c.received)

/-- How many messages have not been sent out. -/
def unsent (cs : List Client) : Nat := (cs.map fun c => c.peer.messages.length - c.sent.length).sum

/-- The first client consumes first. -/
theorem consume_cons {c c' : Client} {cs' : List Client} {consumed consumed' : Bool}
    (hrun : (Client.consume p).run c = .ok consumed c') (hrest : consume p cs = .ok (cs', consumed')) :
    consume p (c :: cs) = .ok (c' :: cs', consumed || consumed') := by
  rw [consume, hrun]
  dsimp only
  rw [hrest]
  rfl

/-- The loop over `sers` fails no assertion. When it consumes nothing every client waits; else there is less to send. -/
theorem consume_spec (h : ∀ c ∈ cs, c.Inv p) :
    ∃ cs' consumed, consume p cs = .ok (cs', consumed) ∧ cs'.map arrived = cs.map arrived ∧ (∀ c ∈ cs', c.Inv p) ∧
      if consumed then unsent cs' < unsent cs else unsent cs' = unsent cs ∧ ∀ c ∈ cs', c.Waiting p := by
  induction cs with
  | nil => exact ⟨[], false, rfl, rfl, by simp, by simp⟩
  | cons c cs ih =>
    obtain ⟨cs', consumed, hrest, harrived, hinv, hif⟩ := ih fun d hd => h d (List.mem_cons_of_mem c hd)
    obtain ⟨frag, rest, hc⟩ := h c List.mem_cons_self
    rcases Client.consume_cases hc with ⟨hincomplete, ser, hrun, hc'⟩ | ⟨m, rest', frag', ser, rfl, hrun, hc'⟩
    · refine ⟨{ c with ser := ser } :: cs', consumed, consume_cons hrun hrest, by simp [harrived, arrived], ?_, ?_⟩
      · intro d hd
        rcases List.mem_cons.mp hd with rfl | hd
        · exact ⟨frag, rest, hc'⟩
        · exact hinv d hd
      · cases consumed with
        | true => simpa [unsent] using hif
        | false =>
          refine ⟨by simpa [unsent] using hif.1, fun d hd => ?_⟩
          rcases List.mem_cons.mp hd with rfl | hd
          · exact ⟨frag, rest, hc', hincomplete⟩
          · exact hif.2 d hd
    · refine ⟨{ c with ser := ser, sent := c.sent ++ [m] } :: cs', true, consume_cons hrun hrest, by simp [harrived, arrived], ?_, ?_⟩
      · intro d hd
        rcases List.mem_cons.mp hd with rfl | hd
        · exact ⟨frag', rest', hc'⟩
        · exact hinv d hd
      · have hle : unsent cs' ≤ unsent cs := by
          cases consumed with
          | true => exact le_of_lt hif
          | false => exact le_of_eq hif.1
        have hmessages := congrArg List.length hc.messages
        simp only [List.length_append, List.length_cons] at hmessages
        simp only [if_true, unsent, List.map_cons, List.sum_cons, List.length_append, List.length_singleton] at hle ⊢
        omega

/-- The loop over `client_socket` fails no assertion, as every client waits. -/
theorem receive_spec (ready : Nat → Nat) (h : ∀ c ∈ cs, c.Waiting p) :
    ∃ cs', receive ready cs = .ok cs' ∧ cs'.length = cs.length ∧ ∀ c ∈ cs', c.Inv p := by
  induction cs generalizing ready with
  | nil => exact ⟨[], rfl, rfl, by simp⟩
  | cons c cs ih =>
    obtain ⟨cs', hrest, hlength, hinv⟩ := ih (fun i => ready (i + 1)) fun d hd => h d (List.mem_cons_of_mem c hd)
    obtain ⟨frag, rest, hc, hincomplete⟩ := h c List.mem_cons_self
    obtain ⟨c', hrun, hc'⟩ := Client.receive_incomplete hc hincomplete (ready 0)
    refine ⟨c' :: cs', ?_, by simp [hlength], ?_⟩
    · rw [receive, hrun]
      dsimp only
      rw [hrest]
      rfl
    · intro d hd
      rcases List.mem_cons.mp hd with rfl | hd
      · exact ⟨_, rest, hc'⟩
      · exact hinv d hd

/-- Enough passes consume every complete frame. -/
theorem drain_spec (h : ∀ c ∈ cs, c.Inv p) :
    ∃ cs', (∀ fuel, unsent cs < fuel → drain p fuel cs = .ok (some cs')) ∧ cs'.map arrived = cs.map arrived ∧ ∀ c ∈ cs', c.Waiting p := by
  induction hn : unsent cs using Nat.strongRecOn generalizing cs with
  | ind n ih =>
    obtain ⟨cs', consumed, hrun, harrived, hinv, hif⟩ := consume_spec h
    cases consumed with
    | false =>
      refine ⟨cs', fun fuel hfuel => ?_, harrived, hif.2⟩
      obtain ⟨k, rfl⟩ := Nat.exists_eq_add_of_lt hfuel
      rw [drain, hrun]
      rfl
    | true =>
      have hlt : unsent cs' < unsent cs := hif
      obtain ⟨cs'', hrest, harrived', hwaiting⟩ := ih (unsent cs') (by omega) hinv rfl
      refine ⟨cs'', fun fuel hfuel => ?_, harrived'.trans harrived, hwaiting⟩
      obtain ⟨k, rfl⟩ := Nat.exists_eq_add_of_lt hfuel
      rw [drain, hrun]
      exact hrest _ (by omega)

end SerSource

end Blockmon
