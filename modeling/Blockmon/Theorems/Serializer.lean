import Blockmon.Lemmas.Serializer

/-!
# Reading back what was serialized

The length of a byte string is written as 16 bits and read as a signed number: 32768 bytes and more are written, and read as a negative
length. Everything else is read back as it was added, in the same order.
-/

namespace Blockmon

open BufferSerializer

/-- A number of bytes that is read as a length is at most 32767. -/
theorem Field.short_of_get {f : Field} {s s' : BufferSerializer} (h : f.get.run s = .ok f.reading s') : f.Short := by
  cases f with
  | int32 v => trivial
  | int64 v => trivial
  | int16 v => trivial
  | data bytes maxLen =>
    cases maxLen with
    | none =>
      obtain ⟨b, m, hget, hreturn⟩ := Exn.bind_eq_ok.mp h
      obtain ⟨hreading, -⟩ := EStateM.Result.ok.inj hreturn
      have hb : b = bytes := Reading.text.inj hreading
      rw [← hb]
      exact length_getString hget
    | some max =>
      obtain ⟨⟨len, b⟩, m, hget, hreturn⟩ := Exn.bind_eq_ok.mp h
      obtain ⟨hreading, -⟩ := EStateM.Result.ok.inj hreturn
      have hlen : len = bytes.length := (Reading.copied.inj hreading).1
      have hbound := length_getData hget
      unfold Short
      omega

/-- Fields that are read back are short. -/
theorem Field.short_of_getAll (fs : List Field) {s s' : BufferSerializer} (h : (Field.getAll fs).run s = .ok (fs.map Field.reading) s') :
    ∀ f ∈ fs, f.Short := by
  induction fs generalizing s s' with
  | nil => simp
  | cons f fs ih =>
    obtain ⟨r, m, hf, hrest⟩ := Exn.bind_eq_ok.mp h
    obtain ⟨rs, m', hfs, hreturn⟩ := Exn.bind_eq_ok.mp hrest
    obtain ⟨hreading, -⟩ := EStateM.Result.ok.inj hreturn
    obtain ⟨hr, hrs⟩ := List.cons.inj hreading
    subst hr hrs
    intro g hg
    rcases List.mem_cons.mp hg with rfl | hg
    · exact Field.short_of_get hf
    · exact ih hfs g hg

/-- The words of a record that was read are short. -/
theorem WordRecord.short_of_getWords {n : Nat} {s s' : BufferSerializer} {ws : List (List UInt8)}
    (h : (WordRecord.getWords n).run s = .ok ws s') : ws.length = n ∧ ∀ w ∈ ws, w.length ≤ 32767 := by
  induction n generalizing s s' ws with
  | zero =>
    cases h
    simp
  | succ n ih =>
    obtain ⟨w, m, hw, hrest⟩ := Exn.bind_eq_ok.mp h
    obtain ⟨vs, m', hvs, hreturn⟩ := Exn.bind_eq_ok.mp hrest
    obtain ⟨rfl, -⟩ := EStateM.Result.ok.inj hreturn
    obtain ⟨hlength, hshort⟩ := ih hvs
    refine ⟨by simp [hlength], ?_⟩
    intro v hv
    rcases List.mem_cons.mp hv with rfl | hv
    · exact length_getString hw
    · exact hshort v hv

/-- A record that is read back has short words. -/
theorem WordRecord.short_of_buildSame {r : WordRecord} {s s' : BufferSerializer} (h : WordRecord.buildSame.run s = .ok r s') :
    r.word.length < 2 ^ 31 ∧ ∀ w ∈ r.word, w.length ≤ 32767 := by
  unfold WordRecord.buildSame at h
  obtain ⟨len, m, -, hrest⟩ := Exn.bind_eq_ok.mp h
  split at hrest
  · obtain ⟨number, m', hnumber, hrest⟩ := Exn.bind_eq_ok.mp hrest
    obtain ⟨ws, m'', hws, hreturn⟩ := Exn.bind_eq_ok.mp hrest
    obtain ⟨rfl, -⟩ := EStateM.Result.ok.inj hreturn
    obtain ⟨hlength, hshort⟩ := WordRecord.short_of_getWords hws
    have hbound := number_lt hnumber
    exact ⟨by simp only [hlength]; omega, hshort⟩
  · obtain ⟨rfl, -⟩ := EStateM.Result.ok.inj hrest
    simp

/-- What was added after `reset` is read back after the two bytes of the length, up to the last byte. -/
theorem Buffered.roundTrip {fs : List Field} (hfs : ∀ f ∈ fs, f.Typed) {s₀ s : BufferSerializer}
    (hrun : (do Serializer.reset; Field.addAll fs).run s₀ = .ok () s) :
    ∃ s', (Serializer.consume 2).run s = .ok () s' ∧ Buffered s' (fs.flatMap Field.encode ++ []) := by
  obtain ⟨u, m, hreset, hadd⟩ := Exn.bind_eq_ok.mp hrun
  obtain ⟨first, hfirst, hm⟩ := Buffered.reset hreset
  rw [List.append_nil]
  exact (hm.addAll hfs hadd).consume (by omega)

/-- A buffer without bytes is empty. -/
theorem Buffered.empty {s : BufferSerializer} (h : Buffered s []) : s.data = s.tail := by
  have htail := h.tail
  simp only [List.length_nil] at htail
  omega

/-- A value that is added where there is room for it. -/
theorem run_addData (s : BufferSerializer) (bytes : List UInt8) (hbytes : (bytes.length : Int) < 2 ^ 63)
    (hroom : s.tail + 2 + bytes.length ≤ s.bufEnd) : ∃ s', (Serializer.addData bytes bytes.length).run s = .ok () s' := by
  unfold Serializer.addData
  rw [run_putData, putInt16, run_putInt, if_pos (by omega)]
  dsimp only
  rw [run_putRawData, if_pos (by simpa [Int.add_assoc] using hroom)]
  exact ⟨_, rfl⟩

/-- What is added to a `Serializer` is read back exactly when no byte string has more than 32767 bytes; a tweet exactly when it has at most
32767 bytes, and a record exactly when its words have and their number is an `int`. -/
theorem serializer_roundTrip_iff (s₀ s : BufferSerializer) :
    (∀ fs : List Field, (∀ f ∈ fs, f.Typed) → (do Serializer.reset; Field.addAll fs).run s₀ = .ok () s →
      ((∃ s', (do Serializer.consume 2; Field.getAll fs).run s = .ok (fs.map Field.reading) s' ∧ s'.data = s'.tail) ↔ ∀ f ∈ fs, f.Short)) ∧
    (∀ t : Tweet, t.serialize.run s₀ = .ok () s →
      ((∃ s', (do Serializer.consume 2; Tweet.buildSame).run s = .ok t s' ∧ s'.data = s'.tail) ↔ t.tweet.length ≤ 32767)) ∧
    (∀ r : WordRecord, r.serialize.run s₀ = .ok () s →
      ((∃ s', (do Serializer.consume 2; WordRecord.buildSame).run s = .ok r s' ∧ s'.data = s'.tail) ↔
        r.word.length < 2 ^ 31 ∧ ∀ w ∈ r.word, w.length ≤ 32767)) := by
  refine ⟨?_, ?_, ?_⟩
  · intro fs hfs hrun
    constructor
    · rintro ⟨s', hread, -⟩
      obtain ⟨u, m, -, hget⟩ := Exn.bind_eq_ok.mp hread
      exact Field.short_of_getAll fs hget
    · intro hshort
      obtain ⟨m, hconsume, hm⟩ := Buffered.roundTrip hfs hrun
      obtain ⟨s', hget, hs'⟩ := hm.getAll hfs hshort
      exact ⟨s', (Exn.run_bind_of_ok hconsume).trans hget, hs'.empty⟩
  · intro t hrun
    constructor
    · rintro ⟨s', hread, -⟩
      obtain ⟨u, m, -, hget⟩ := Exn.bind_eq_ok.mp hread
      obtain ⟨b, m', hstring, hreturn⟩ := Exn.bind_eq_ok.mp hget
      obtain ⟨rfl, -⟩ := EStateM.Result.ok.inj hreturn
      exact length_getString hstring
    · intro hlen
      rw [Tweet.serialize_eq (by omega)] at hrun
      obtain ⟨m, hconsume, hm⟩ := Buffered.roundTrip (Tweet.typed (by omega)) hrun
      obtain ⟨s', hget, hs'⟩ := hm.buildTweet hlen
      exact ⟨s', (Exn.run_bind_of_ok hconsume).trans hget, hs'.empty⟩
  · intro r hrun
    constructor
    · rintro ⟨s', hread, -⟩
      obtain ⟨u, m, -, hget⟩ := Exn.bind_eq_ok.mp hread
      exact WordRecord.short_of_buildSame hget
    · rintro ⟨hcount, hlen⟩
      have hsizes : ∀ w ∈ r.word, w.length < 2 ^ 31 := fun w hw => by
        have := hlen w hw
        omega
      have htyped : ∀ w ∈ r.word, w.length ≤ 65535 := fun w hw => by
        have := hlen w hw
        omega
      rw [WordRecord.serialize_eq hcount hsizes] at hrun
      obtain ⟨m, hconsume, hm⟩ := Buffered.roundTrip (WordRecord.typed hcount htyped) hrun
      obtain ⟨s', hget, hs'⟩ := hm.buildRecord hcount hlen
      exact ⟨s', (Exn.run_bind_of_ok hconsume).trans hget, hs'.empty⟩

/-- A tweet of five bytes. -/
theorem serializer_roundTrip_iff_tweet :
    ∃ s s', (Tweet.mk [104, 101, 108, 108, 111]).serialize.run (fresh fun _ => 0) = .ok () s ∧
      (do Serializer.consume 2; Tweet.buildSame).run s = .ok ⟨[104, 101, 108, 108, 111]⟩ s' ∧ s'.data = s'.tail := by
  have hroom : ((Tweet.mk [104, 101, 108, 108, 111]).serialize.run (fresh fun _ => 0)) = .ok () _ := rfl
  obtain ⟨s', hread, hempty⟩ := ((serializer_roundTrip_iff _ _).2.1 _ hroom).mpr (by decide)
  exact ⟨_, s', hroom, hread, hempty⟩

/-- A byte string of more than 32767 bytes is accepted while there is room for it, and not read back. -/
theorem accepted_and_lost (bytes : List UInt8) (hlo : 32767 < bytes.length) (hhi : bytes.length ≤ 65532) :
    ∃ s, (do Serializer.reset; Field.addAll [.data bytes none]).run (fresh fun _ => 0) = .ok () s ∧
      ¬∃ s', (do Serializer.consume 2; Field.getAll [.data bytes none]).run s = .ok [.text bytes] s' := by
  have hreset : Serializer.reset.run (fresh fun _ => 0) = .ok () { fresh fun _ => 0 with tail := 2 } := rfl
  have hroom : (2 : Int) + 2 + bytes.length ≤ 65536 := by omega
  obtain ⟨s, hadd⟩ := run_addData { fresh fun _ => 0 with tail := 2 } bytes (by omega) hroom
  refine ⟨s, (Exn.run_bind_of_ok hreset).trans (Exn.run_bind_of_ok hadd), ?_⟩
  rintro ⟨s', hread⟩
  obtain ⟨u, m, -, hget⟩ := Exn.bind_eq_ok.mp hread
  have hshort := Field.short_of_getAll [.data bytes none] hget _ (List.mem_singleton_self _)
  exact absurd (show bytes.length ≤ 32767 from hshort) (by omega)

/-- A byte string of 32768 bytes is accepted; it is not read back. -/
theorem serializer_loses_string :
    ¬∀ (s₀ s : BufferSerializer) (fs : List Field), (∀ f ∈ fs, f.Typed) → (do Serializer.reset; Field.addAll fs).run s₀ = .ok () s →
      ∃ s', (do Serializer.consume 2; Field.getAll fs).run s = .ok (fs.map Field.reading) s' ∧ s'.data = s'.tail := by
  intro h
  obtain ⟨bytes, hbytes⟩ : ∃ bytes, bytes = List.replicate 32768 (0 : UInt8) := ⟨_, rfl⟩
  have hlength : bytes.length = 32768 := by rw [hbytes, List.length_replicate]
  have htyped : ∀ f ∈ [Field.data bytes none], f.Typed := by
    intro f hf
    rw [List.mem_singleton.mp hf]
    exact ⟨by omega, by simp⟩
  obtain ⟨s, hadd, hlost⟩ := accepted_and_lost bytes (by omega) (by omega)
  obtain ⟨s', hread, -⟩ := h _ s _ htyped hadd
  exact hlost ⟨s', hread⟩

end Blockmon
