import Mathlib.Tactic.NormNum
import Blockmon.Lemmas.BufferSerializer
import Blockmon.Serializer

/-!
# The buffer as a queue of bytes

`Buffered s l` says that the data in the buffer are the bytes `l`. The operations that put append bytes, the operations that consume take
them from the front, and `compact` changes nothing. What a number or a string is written as is read back from it.
-/

namespace Blockmon

open BufferSerializer

/-- The data of the buffer are the bytes `l`. -/
structure Buffered (s : BufferSerializer) (l : List UInt8) : Prop where
  head : s.head = 0
  bufEnd : s.bufEnd = 65536
  data : 0 ≤ s.data
  tail : s.tail = s.data + l.length
  fits : s.tail ≤ 65536
  bytes : Bytes.read s.mem s.data l.length = l

/-! ## Numbers as they are written -/

/-- The bytes that `put_int16`, `put_int32` and `put_int64` write. -/
def encodeInt (n : Nat) (hton : Nat → Nat) (v : Int) : List UInt8 := Bytes.encode n (hton (Bytes.unsigned (256 ^ n) v))

/-- The number in the bytes. -/
def decodeInt (n : Nat) (ntoh : Nat → Nat) (bytes : List UInt8) : Int := Bytes.signed (256 ^ n) (ntoh (Bytes.decode bytes))

@[simp] theorem length_encodeInt (n : Nat) (hton : Nat → Nat) (v : Int) : (encodeInt n hton v).length = n := Bytes.length_encode _ _

/-- A number that fits is read back. -/
theorem decodeInt_encodeInt {n : Nat} {hton ntoh : Nat → Nat} {v : Int} (hlt : ∀ u, hton u < 256 ^ n)
    (hinv : ∀ u, u < 256 ^ n → ntoh (hton u) = u) (hlo : -((256 ^ n : Nat) : Int) ≤ v * 2) (hhi : v * 2 < ((256 ^ n : Nat) : Int)) :
    decodeInt n ntoh (encodeInt n hton v) = v := by
  have hpos : 0 < 256 ^ n := Nat.pow_pos (by decide)
  unfold decodeInt encodeInt
  rw [Bytes.decode_encode, Nat.mod_eq_of_lt (hlt _), hinv _ (Bytes.unsigned_lt hpos v)]
  exact Bytes.signed_unsigned hlo hhi

/-- Two bytes are read back. -/
theorem decodeInt16 {v : Int} (hlo : -2 ^ 15 ≤ v) (hhi : v < 2 ^ 15) : decodeInt 2 htons (encodeInt 2 htons v) = v := by
  refine decodeInt_encodeInt (Bytes.swap_lt 2) (fun u hu => ?_) ?_ ?_
  · unfold htons
    rw [Bytes.swap_swap, Nat.mod_eq_of_lt hu]
  · norm_num
    omega
  · norm_num
    omega

/-- Four bytes are read back. -/
theorem decodeInt32 {v : Int} (hlo : -2 ^ 31 ≤ v) (hhi : v < 2 ^ 31) : decodeInt 4 htonl (encodeInt 4 htonl v) = v := by
  refine decodeInt_encodeInt (Bytes.swap_lt 4) (fun u hu => ?_) ?_ ?_
  · unfold htonl
    rw [Bytes.swap_swap, Nat.mod_eq_of_lt hu]
  · norm_num
    omega
  · norm_num
    omega

/-- Eight bytes are read back. -/
theorem decodeInt64 {v : Int} (hlo : -2 ^ 63 ≤ v) (hhi : v < 2 ^ 63) : decodeInt 8 ntohll (encodeInt 8 htonll v) = v := by
  refine decodeInt_encodeInt (fun u => ?_) (fun u hu => ?_) ?_ ?_
  · have hlt := Bytes.half_lt u
    norm_num
    exact hlt
  · norm_num at hu
    exact Bytes.half_half hu
  · norm_num
    omega
  · norm_num
    omega

/-! ## The operations on the queue -/

namespace Buffered

variable {s s' : BufferSerializer} {l b : List UInt8}

/-- Bytes written behind the data. -/
theorem append (h : Buffered s l) {n : Nat} {src : Nat → UInt8} {log : List Access} (hsrc : (List.range n).map src = b)
    (hfits : s.tail + n ≤ s.bufEnd) :
    Buffered { s with mem := Bytes.write s.mem s.tail n src, tail := s.tail + n, log := log } (l ++ b) := by
  have hn : n = b.length := by rw [← hsrc, List.length_map, List.length_range]
  rw [h.bufEnd] at hfits
  refine ⟨h.head, h.bufEnd, h.data, ?_, hfits, ?_⟩
  · have htail := h.tail
    simp only [List.length_append]
    omega
  · have hfirst : Bytes.read (Bytes.write s.mem s.tail n src) s.data l.length = l := by
      rw [Bytes.read_write_of_disjoint (Or.inl h.tail.symm.le), h.bytes]
    have hsecond : Bytes.read (Bytes.write s.mem s.tail n src) (s.data + l.length) b.length = b := by
      rw [← h.tail, ← hn, Bytes.read_write_self, hsrc]
    simp only [List.length_append, Bytes.read_add, hfirst, hsecond]

/-- The first bytes of the data and the rest. -/
theorem split (h : Buffered s (b ++ l)) :
    Bytes.read s.mem s.data b.length = b ∧ Bytes.read s.mem (s.data + b.length) l.length = l ∧ s.data + b.length ≤ s.tail := by
  have hbytes := h.bytes
  have htail := h.tail
  rw [List.length_append, Bytes.read_add] at hbytes
  rw [List.length_append] at htail
  obtain ⟨hb, hl⟩ := List.append_inj hbytes (Bytes.length_read _ _ _)
  exact ⟨hb, hl, by omega⟩

/-- The buffer without the first bytes. -/
theorem drop (h : Buffered s (b ++ l)) (log : List Access) : Buffered { s with data := s.data + b.length, log := log } l := by
  obtain ⟨-, hl, -⟩ := h.split
  refine ⟨h.head, h.bufEnd, ?_, ?_, h.fits, hl⟩
  · have hdata := h.data
    simp only
    omega
  · have htail := h.tail
    simp only [List.length_append] at htail ⊢
    omega

/-- An integer is appended. -/
theorem putInt (h : Buffered s l) {n : Nat} {hton : Nat → Nat} {v : Int} (hrun : (BufferSerializer.putInt n hton v).run s = .ok () s') :
    Buffered s' (l ++ encodeInt n hton v) := by
  rw [run_putInt] at hrun
  split at hrun
  · rename_i hfits
    cases hrun
    refine h.append ?_ hfits
    have hsource := Bytes.map_source (encodeInt n hton v)
    rwa [length_encodeInt] at hsource
  · cases hrun

/-- Raw data are appended. -/
theorem putRawData (h : Buffered s l) {bytes : List UInt8} (hsize : (bytes.length : Int) < 2 ^ 63)
    (hrun : (BufferSerializer.putRawData (Bytes.source bytes) bytes.length).run s = .ok () s') :
    Buffered s' (l ++ bytes) := by
  have hcast := cast_toSize_of_nonneg (n := (bytes.length : Int)) (by omega) hsize
  have hlength : toSize (bytes.length : Int) = bytes.length := by exact_mod_cast hcast
  rw [run_putRawData, hlength] at hrun
  split at hrun
  · rename_i hfits
    cases hrun
    exact h.append (Bytes.map_source bytes) hfits
  · cases hrun

/-- Data are appended, behind their length. -/
theorem putData (h : Buffered s l) {bytes : List UInt8} (hsize : (bytes.length : Int) < 2 ^ 63)
    (hrun : (BufferSerializer.putData (Bytes.source bytes) bytes.length).run s = .ok () s') :
    Buffered s' (l ++ (encodeInt 2 htons bytes.length ++ bytes)) := by
  unfold BufferSerializer.putData at hrun
  obtain ⟨u, m, hint, hraw⟩ := Exn.bind_eq_ok.mp hrun
  have hs' := (h.putInt hint).putRawData hsize hraw
  rwa [List.append_assoc] at hs'

/-- An integer is consumed. -/
theorem consumeInt (h : Buffered s (b ++ l)) {n : Nat} (hn : b.length = n) (ntoh : Nat → Nat) :
    ∃ s', (BufferSerializer.consumeInt n ntoh).run s = .ok (decodeInt n ntoh b) s' ∧ Buffered s' l := by
  obtain ⟨hb, -, htail⟩ := h.split
  subst hn
  refine ⟨_, ?_, h.drop (s.log ++ [⟨false, s.data, b.length⟩])⟩
  rw [run_consumeInt, if_pos htail, hb]
  rfl

/-- The length in front of the data is read. -/
theorem wireLength_eq (h : Buffered s (encodeInt 2 htons b.length ++ (b ++ l))) (hlen : b.length ≤ 32767) :
    s.wireLength = b.length := by
  obtain ⟨hb, -, -⟩ := h.split
  rw [length_encodeInt] at hb
  unfold wireLength
  rw [hb]
  exact decodeInt16 (by omega) (by omega)

/-- The two bytes of a length and the string behind it. -/
theorem splitData (h : Buffered s (encodeInt 2 htons b.length ++ (b ++ l))) (hlen : b.length ≤ 32767) :
    s.data + 2 + s.wireLength ≤ s.tail ∧ Bytes.read s.mem (s.data + 2) (toSize s.wireLength) = b ∧
      ∀ log, Buffered { s with data := s.data + 2 + s.wireLength, log := log } l := by
  have hwire := h.wireLength_eq hlen
  have hcast := cast_toSize_of_nonneg (n := s.wireLength) (by omega) (by omega)
  have hsize : toSize s.wireLength = b.length := by omega
  have hfirst := h.drop s.log
  rw [length_encodeInt] at hfirst
  obtain ⟨hb, -, htail⟩ := hfirst.split
  rw [hsize, hwire]
  exact ⟨htail, hb, fun log => hfirst.drop log⟩

/-- A string that is short enough is read back. -/
theorem getString (h : Buffered s (encodeInt 2 htons b.length ++ (b ++ l))) (hlen : b.length ≤ 32767) :
    ∃ s', Serializer.getString.run s = .ok b s' ∧ Buffered s' l := by
  have hwire := h.wireLength_eq hlen
  have hcast := cast_toSize_of_nonneg (n := s.wireLength) (by omega) (by omega)
  obtain ⟨htail, hb, hrest⟩ := h.splitData hlen
  refine ⟨_, ?_, hrest (s.log ++ [⟨false, s.data, 2⟩] ++ [⟨false, s.data + 2, toSize s.wireLength⟩])⟩
  unfold Serializer.getString
  rw [run_consumeAllDataIntoString, if_pos (by omega), if_neg (by unfold maxSize; omega), hb]

/-- Data of a length that fits are read. -/
theorem getData (h : Buffered s (encodeInt 2 htons b.length ++ (b ++ l))) (hlen : b.length ≤ 32767) {max : Int} (hmax : b.length ≤ max) :
    ∃ s', (Serializer.getData max).run s = .ok (b.length, b) s' ∧ Buffered s' l := by
  have hwire := h.wireLength_eq hlen
  obtain ⟨htail, hb, hrest⟩ := h.splitData hlen
  refine ⟨_, ?_, hrest (s.log ++ [⟨false, s.data, 2⟩] ++ [⟨false, s.data + 2, toSize s.wireLength⟩])⟩
  unfold Serializer.getData
  rw [run_consumeAllData, if_pos (by omega), if_pos (by omega), if_pos htail, hb, hwire]

/-- `reset` leaves the two bytes of the length. -/
theorem reset (h : Serializer.reset.run s = .ok () s') : ∃ first, first.length = 2 ∧ Buffered s' first := by
  unfold Serializer.reset at h
  obtain ⟨u, m, hreset, hput⟩ := Exn.bind_eq_ok.mp h
  cases hreset
  rw [run_put] at hput
  split at hput
  · cases hput
    refine ⟨Bytes.read s.mem 0 2, Bytes.length_read s.mem 0 2, rfl, rfl, le_refl 0, ?_, show (0 : Int) + 2 ≤ 65536 by decide, ?_⟩
    · rw [Bytes.length_read]
      rfl
    · rw [Bytes.length_read]
  · cases hput

/-- Bytes are consumed. -/
theorem consume (h : Buffered s (b ++ l)) {offset : Int} (hoffset : (b.length : Int) = offset) :
    ∃ s', (Serializer.consume offset).run s = .ok () s' ∧ Buffered s' l := by
  obtain ⟨-, -, htail⟩ := h.split
  have hhead := h.head
  have hdata := h.data
  refine ⟨_, ?_, h.drop s.log⟩
  unfold Serializer.consume
  rw [run_consume, if_pos (by omega), hoffset]

end Buffered

/-! ## What is read is short -/

/-- A text that is read is short. -/
theorem length_getString {s s' : BufferSerializer} {b : List UInt8} (h : Serializer.getString.run s = .ok b s') : b.length ≤ 32767 := by
  have hbounds := wireLength_bounds s
  unfold Serializer.getString at h
  rw [run_consumeAllDataIntoString] at h
  split at h
  · split at h
    · cases h
    · rename_i hthrow
      rw [← (EStateM.Result.ok.inj h).1, Bytes.length_read]
      by_cases hneg : s.wireLength < 0
      · have hcast := cast_toSize_of_neg hneg (by omega)
        unfold maxSize at hthrow
        omega
      · have hcast := cast_toSize_of_nonneg (n := s.wireLength) (by omega) (by omega)
        omega
  · cases h

/-- Data that are read are short. -/
theorem length_getData {s s' : BufferSerializer} {max len : Int} {b : List UInt8} (h : (Serializer.getData max).run s = .ok (len, b) s') :
    len ≤ 32767 := by
  have hbounds := wireLength_bounds s
  unfold Serializer.getData at h
  rw [run_consumeAllData] at h
  split at h
  · split at h
    · split at h
      · have hlen := (Prod.mk.inj (EStateM.Result.ok.inj h).1).1
        omega
      · cases h
    · cases h
  · cases h

/-- A number that is read fits. -/
theorem number_lt {s s' : BufferSerializer} {v : Int} (h : Serializer.getInt32.run s = .ok v s') : v < 2 ^ 31 := by
  unfold Serializer.getInt32 consumeInt32 at h
  rw [run_consumeInt] at h
  split at h
  · rw [← (EStateM.Result.ok.inj h).1]
    have hlt := Bytes.signed_lt (m := 256 ^ 4) (by decide) (htonl (Bytes.decode (Bytes.read s.mem s.data 4)))
    norm_num at hlt ⊢
    omega
  · cases h

/-! ## Sequences of values -/

/-- A value that is added. A byte string is read with `get_data` into a buffer of the given size, or else with `get_string`. -/
inductive Field where
  | int32 (v : Int)
  | int64 (v : Int)
  | int16 (v : Int)
  | data (bytes : List UInt8) (maxLen : Option Int)
deriving DecidableEq

/-- What a call that reads a value returns; `get_data` also copies the bytes. -/
inductive Reading where
  | number (v : Int)
  | text (bytes : List UInt8)
  | copied (len : Int) (bytes : List UInt8)
deriving DecidableEq

namespace Field

/-- A field is added. -/
def add : Field → EStateM Stop BufferSerializer Unit
  | .int32 v => Serializer.addInt32 v
  | .int64 v => Serializer.addInt64 v
  | .int16 v => Serializer.addInt16 v
  | .data bytes _ => Serializer.addData bytes bytes.length

/-- The call that corresponds to `add`. -/
def get : Field → EStateM Stop BufferSerializer Reading
  | .int32 _ => return .number (← Serializer.getInt32)
  | .int64 _ => return .number (← Serializer.getInt64)
  | .int16 _ => return .number (← Serializer.getInt16)
  | .data _ none => return .text (← Serializer.getString)
  | .data _ (some maxLen) => do
    let (len, bytes) ← Serializer.getData maxLen
    return .copied len bytes

/-- The value as it should be read. -/
def reading : Field → Reading
  | .int32 v => .number v
  | .int64 v => .number v
  | .int16 v => .number v
  | .data bytes none => .text bytes
  | .data bytes (some _) => .copied bytes.length bytes

/-- The fields are added in their order. -/
def addAll (fs : List Field) : EStateM Stop BufferSerializer Unit := forM fs add

/-- The fields are read in their order. -/
def getAll : List Field → EStateM Stop BufferSerializer (List Reading)
  | [] => return []
  | f :: fs => do
    let r ← f.get
    let rs ← getAll fs
    return r :: rs

/-- The values are of the types that the calls take, a byte string has at most 65535 bytes and fits where it is read into. -/
def Typed : Field → Prop
  | .int32 v => -2 ^ 31 ≤ v ∧ v < 2 ^ 31
  | .int64 v => -2 ^ 63 ≤ v ∧ v < 2 ^ 63
  | .int16 v => -32768 ≤ v ∧ v ≤ 32767
  | .data bytes maxLen => bytes.length ≤ 65535 ∧ ∀ max, maxLen = some max → bytes.length ≤ max

/-- A byte string has at most 32767 bytes. -/
def Short : Field → Prop
  | .data bytes _ => bytes.length ≤ 32767
  | _ => True

/-- The bytes that `add` appends. -/
def encode : Field → List UInt8
  | .int32 v => encodeInt 4 htonl v
  | .int64 v => encodeInt 8 htonll v
  | .int16 v => encodeInt 2 htons v
  | .data bytes _ => encodeInt 2 htons bytes.length ++ bytes

end Field

/-- A field is appended. -/
theorem Buffered.add {s s' : BufferSerializer} {l : List UInt8} (h : Buffered s l) {f : Field} (hf : f.Typed)
    (hrun : f.add.run s = .ok () s') : Buffered s' (l ++ f.encode) := by
  cases f with
  | int32 v => exact h.putInt hrun
  | int64 v => exact h.putInt hrun
  | int16 v => exact h.putInt hrun
  | data bytes maxLen =>
    have hlen := hf.1
    exact h.putData (by omega) hrun

/-- A short field is read back. -/
theorem Buffered.get {s : BufferSerializer} {l : List UInt8} {f : Field} (h : Buffered s (f.encode ++ l)) (hf : f.Typed) (hshort : f.Short) :
    ∃ s', f.get.run s = .ok f.reading s' ∧ Buffered s' l := by
  cases f with
  | int32 v =>
    obtain ⟨s', hrun, hs'⟩ := h.consumeInt (length_encodeInt 4 htonl v) htonl
    rw [Field.encode, decodeInt32 hf.1 hf.2] at hrun
    exact ⟨s', Exn.run_bind_of_ok hrun, hs'⟩
  | int64 v =>
    obtain ⟨s', hrun, hs'⟩ := h.consumeInt (length_encodeInt 8 htonll v) ntohll
    rw [Field.encode, decodeInt64 hf.1 hf.2] at hrun
    exact ⟨s', Exn.run_bind_of_ok hrun, hs'⟩
  | int16 v =>
    obtain ⟨hlo, hhi⟩ := hf
    obtain ⟨s', hrun, hs'⟩ := h.consumeInt (length_encodeInt 2 htons v) htons
    rw [Field.encode, decodeInt16 (by omega) (by omega)] at hrun
    exact ⟨s', Exn.run_bind_of_ok hrun, hs'⟩
  | data bytes maxLen =>
    have h : Buffered s (encodeInt 2 htons bytes.length ++ (bytes ++ l)) := by
      rw [← List.append_assoc]
      exact h
    cases maxLen with
    | none =>
      obtain ⟨s', hrun, hs'⟩ := h.getString hshort
      exact ⟨s', Exn.run_bind_of_ok hrun, hs'⟩
    | some max =>
      obtain ⟨s', hrun, hs'⟩ := h.getData hshort (hf.2 max rfl)
      exact ⟨s', Exn.run_bind_of_ok hrun, hs'⟩

/-- What is added one after the other lies in the buffer one after the other. -/
theorem Buffered.addAll {s s' : BufferSerializer} {l : List UInt8} (h : Buffered s l) {fs : List Field} (hfs : ∀ f ∈ fs, f.Typed)
    (hrun : (Field.addAll fs).run s = .ok () s') : Buffered s' (l ++ fs.flatMap Field.encode) := by
  induction fs generalizing s l with
  | nil =>
    cases hrun
    simpa using h
  | cons f fs ih =>
    unfold Field.addAll at hrun
    rw [List.forM_cons] at hrun
    obtain ⟨u, m, hf, hrest⟩ := Exn.bind_eq_ok.mp hrun
    have hm := h.add (hfs f List.mem_cons_self) hf
    have hs' := ih hm (fun g hg => hfs g (List.mem_cons_of_mem f hg)) hrest
    simpa [List.append_assoc] using hs'

/-- Short fields are read back. -/
theorem Buffered.getAll {s : BufferSerializer} {l : List UInt8} {fs : List Field} (h : Buffered s (fs.flatMap Field.encode ++ l))
    (hfs : ∀ f ∈ fs, f.Typed) (hshort : ∀ f ∈ fs, f.Short) :
    ∃ s', (Field.getAll fs).run s = .ok (fs.map Field.reading) s' ∧ Buffered s' l := by
  induction fs generalizing s with
  | nil => exact ⟨s, rfl, h⟩
  | cons f fs ih =>
    rw [List.flatMap_cons, List.append_assoc] at h
    obtain ⟨m, hf, hm⟩ := h.get (hfs f List.mem_cons_self) (hshort f List.mem_cons_self)
    obtain ⟨s', hrest, hs'⟩ := ih hm (fun g hg => hfs g (List.mem_cons_of_mem f hg)) fun g hg => hshort g (List.mem_cons_of_mem f hg)
    refine ⟨s', ?_, hs'⟩
    exact (Exn.run_bind_of_ok hf).trans (Exn.run_bind_of_ok hrest)

/-! ## Messages -/

namespace Tweet

/-- The values that `serialize` adds. -/
def fields (t : Tweet) : List Field := [.data t.tweet none]

/-- A tweet is its fields. -/
theorem serialize_eq {t : Tweet} (h : t.tweet.length < 2 ^ 31) : t.serialize = (do Serializer.reset; Field.addAll t.fields) := by
  have hsize : toInt t.tweet.length = t.tweet.length := toInt_of_lt (by omega) (by omega)
  simp [serialize, hsize, fields, Field.addAll, Field.add]

/-- The fields of a tweet have their types. -/
theorem typed {t : Tweet} (h : t.tweet.length ≤ 65535) : ∀ f ∈ t.fields, f.Typed := by
  simpa [fields, Field.Typed] using h

end Tweet

namespace WordRecord

/-- The fields of a record: the number of the words, and the words. -/
def fields (r : WordRecord) : List Field := .int32 r.word.length :: r.word.map (.data · none)

/-- A record is its fields. -/
theorem serialize_eq {r : WordRecord} (hcount : r.word.length < 2 ^ 31) (hsizes : ∀ w ∈ r.word, w.length < 2 ^ 31) :
    r.serialize = (do Serializer.reset; Field.addAll r.fields) := by
  have hnumber : toInt r.word.length = r.word.length := toInt_of_lt (by omega) (by omega)
  have hloop : ∀ ws : List (List UInt8), (∀ w ∈ ws, w.length < 2 ^ 31) →
      (forM ws fun w => Serializer.addData w (toInt w.length)) = Field.addAll (ws.map (.data · none)) := by
    intro ws hws
    induction ws with
    | nil => rfl
    | cons w ws ih =>
      have hlen := hws w List.mem_cons_self
      have hsize : toInt w.length = w.length := toInt_of_lt (by omega) (by omega)
      simp only [Field.addAll, List.map_cons, List.forM_cons, hsize, ih fun v hv => hws v (List.mem_cons_of_mem w hv)]
      rfl
  simp only [serialize, hnumber, Int.toNat_natCast, List.take_length, hloop r.word hsizes]
  rfl

/-- The fields of a record have their types. -/
theorem typed {r : WordRecord} (hcount : r.word.length < 2 ^ 31) (hsizes : ∀ w ∈ r.word, w.length ≤ 65535) : ∀ f ∈ r.fields, f.Typed := by
  intro f hf
  rcases List.mem_cons.mp hf with rfl | hf
  · exact ⟨by omega, by omega⟩
  · obtain ⟨w, hw, rfl⟩ := List.mem_map.mp hf
    exact ⟨hsizes w hw, by simp⟩

end WordRecord

namespace Buffered

variable {s : BufferSerializer} {l : List UInt8}

/-- The buffer holds 65536 bytes at most. -/
theorem length_le (h : Buffered s l) : l.length ≤ 65536 := by
  have hdata := h.data
  have htail := h.tail
  have hfits := h.fits
  omega

/-- The length is that of what is in the buffer. -/
theorem len (h : Buffered s l) : Serializer.getLen.run s = .ok (l.length : Int) s := by
  have hlen := h.length_le
  have hdiff : toInt (s.tail - s.data) = l.length := by
    have htail := h.tail
    rw [show s.tail - s.data = l.length by omega]
    exact toInt_of_lt (by omega) (by omega)
  rw [← hdiff]
  rfl

/-- A tweet is read back. -/
theorem buildTweet {t : Tweet} (h : Buffered s (t.fields.flatMap Field.encode ++ l)) (hlen : t.tweet.length ≤ 32767) :
    ∃ s', Tweet.buildSame.run s = .ok t s' ∧ Buffered s' l := by
  have h : Buffered s (encodeInt 2 htons t.tweet.length ++ (t.tweet ++ l)) := by
    simpa [Tweet.fields, Field.encode] using h
  obtain ⟨s', hrun, hs'⟩ := h.getString hlen
  exact ⟨s', Exn.run_bind_of_ok hrun, hs'⟩

/-- Words are read back. -/
theorem getWords {ws : List (List UInt8)} (h : Buffered s ((ws.map (Field.data · none)).flatMap Field.encode ++ l))
    (hlen : ∀ w ∈ ws, w.length ≤ 32767) :
    ∃ s', (WordRecord.getWords ws.length).run s = .ok ws s' ∧ Buffered s' l := by
  induction ws generalizing s with
  | nil => exact ⟨s, rfl, h⟩
  | cons w ws ih =>
    have h : Buffered s (encodeInt 2 htons w.length ++ (w ++ ((ws.map (Field.data · none)).flatMap Field.encode ++ l))) := by
      simpa [Field.encode] using h
    obtain ⟨m, hw, hm⟩ := h.getString (hlen w List.mem_cons_self)
    obtain ⟨s', hws, hs'⟩ := ih hm fun v hv => hlen v (List.mem_cons_of_mem w hv)
    refine ⟨s', ?_, hs'⟩
    exact (Exn.run_bind_of_ok hw).trans (Exn.run_bind_of_ok hws)

/-- A record is read back. -/
theorem buildRecord {r : WordRecord} (h : Buffered s (r.fields.flatMap Field.encode ++ l)) (hcount : r.word.length < 2 ^ 31)
    (hlen : ∀ w ∈ r.word, w.length ≤ 32767) :
    ∃ s', WordRecord.buildSame.run s = .ok r s' ∧ Buffered s' l := by
  have hgetLen := h.len
  have h : Buffered s (encodeInt 4 htonl r.word.length ++ ((r.word.map (Field.data · none)).flatMap Field.encode ++ l)) := by
    simpa [WordRecord.fields, Field.encode] using h
  obtain ⟨m, hcountRun, hm⟩ := h.consumeInt (length_encodeInt 4 htonl r.word.length) htonl
  rw [decodeInt32 (by omega) (by omega)] at hcountRun
  obtain ⟨s', hws, hs'⟩ := hm.getWords hlen
  refine ⟨s', ?_, hs'⟩
  have hnonempty : ((r.fields.flatMap Field.encode ++ l).length : Int) ≠ 0 := by
    simp only [WordRecord.fields, List.flatMap_cons, List.length_append, Field.encode, length_encodeInt]
    omega
  unfold WordRecord.buildSame
  rw [Exn.run_bind_of_ok hgetLen, if_pos hnonempty]
  exact (Exn.run_bind_of_ok hcountRun).trans (Exn.run_bind_of_ok hws)

end Buffered

end Blockmon
