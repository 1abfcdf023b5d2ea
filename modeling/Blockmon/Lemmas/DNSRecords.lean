import Blockmon.Lemmas.DNSNames

/-!
# Reading DNS records

Where the cursors of the two loops go, and what they need to find there: `QuestionsIn` and `AnswersIn` say of the bytes what the loops do with
them, and a loop returns exactly if its records are there.
-/

namespace Blockmon.Messages.Dns

section Records

variable (buffer : List UInt8) (dnsStart : Nat)

/-- A question at `qOffset + s` is all there, and the next one is at `qOffset + s'`. -/
def QuestionIn (qOffset s s' : UInt16) : Prop :=
  ∃ name : DnsName, name.Reads buffer dnsStart (qOffset.toNat + s.toNat) ∧
    InBuffer buffer (qOffset.toNat + (s + name.extent).toNat) 2 ∧ InBuffer buffer (qOffset.toNat + (s + name.extent + 2).toNat) 2 ∧
      s' = s + name.extent + 2 + 2

/-- The questions are inside, one behind the other. -/
def QuestionsIn (qOffset : UInt16) : Nat → UInt16 → UInt16 → Prop
  | 0, s, s' => s' = s
  | n + 1, s, s' => ∃ m, QuestionIn buffer dnsStart qOffset s m ∧ QuestionsIn qOffset n m s'

/-- The data of a record of the type, as far as the loop looks at them. -/
def DataIn (aOffset s s' type : UInt16) : Prop :=
  if type = 1 then InBuffer buffer (aOffset.toNat + s.toNat) 4 ∧ s' = s + 4
  else if type = 5 then ∃ name : DnsName, name.Reads buffer dnsStart (aOffset.toNat + s.toNat) ∧ s' = s + name.extent
  else s' = s

/-- An answer at `aOffset + s` is all there, and the next one is looked for at `aOffset + s'`. -/
def AnswerIn (aOffset s s' : UInt16) : Prop :=
  ∃ name : DnsName, name.Reads buffer dnsStart (aOffset.toNat + s.toNat) ∧
    InBuffer buffer (aOffset.toNat + (s + name.extent).toNat) 2 ∧ InBuffer buffer (aOffset.toNat + (s + name.extent + 2).toNat) 2 ∧
      InBuffer buffer (aOffset.toNat + (s + name.extent + 2 + 2).toNat) 4 ∧
        DataIn buffer dnsStart aOffset (s + name.extent + 2 + 2 + 4 + 2) s' (be16 buffer (aOffset.toNat + (s + name.extent).toNat))

/-- The answers are inside, one behind the other. -/
def AnswersIn (aOffset : UInt16) : Nat → UInt16 → Prop
  | 0, _ => True
  | n + 1, s => ∃ m, AnswerIn buffer dnsStart aOffset s m ∧ AnswersIn aOffset n m

variable {buffer dnsStart}

/-- A number of 16 bits is read just inside of the buffer. -/
theorem loadBEu16_eq_ok_iff {off : Nat} {v : UInt16} : loadBEu16 buffer off = .ok v ↔ InBuffer buffer off 2 ∧ be16 buffer off = v := by
  rw [loadBEu16_eq]
  split
  · next h => simp [h]
  · next h => simp [h]

/-- A number of 32 bits is read just inside of the buffer. -/
theorem loadBEu32_eq_ok_iff {off : Nat} {v : UInt32} : loadBEu32 buffer off = .ok v ↔ InBuffer buffer off 4 ∧ be32 buffer off = v := by
  rw [loadBEu32_eq]
  split
  · next h => simp [h]
  · next h => simp [h]

/-! ## Questions -/

/-- A question that is read is inside. -/
theorem readQuestion_eq_ok {fuel : Nat} {qOffset s : UInt16} {r : UInt16 × QRecord}
    (h : readQuestion buffer dnsStart fuel qOffset s = .ok r) : QuestionIn buffer dnsStart qOffset s r.1 := by
  obtain ⟨n, hname, h⟩ := Exn.except_bind_eq_ok.mp h
  obtain ⟨rtype, htype, h⟩ := Exn.except_bind_eq_ok.mp h
  obtain ⟨dclass, hclass, h⟩ := Exn.except_bind_eq_ok.mp h
  obtain ⟨name, hreads, rfl⟩ := reads_of_readDnsName hname
  rw [UInt16.zero_add] at htype hclass h
  exact ⟨name, hreads, (loadBEu16_eq_ok_iff.mp htype).1, (loadBEu16_eq_ok_iff.mp hclass).1, (congrArg Prod.fst (Except.ok.inj h)).symm⟩

/-- What a question in memory says is what is read, given enough fuel. -/
theorem returns_readQuestion {qOffset s : UInt16} {name : DnsName} (hname : name.Reads buffer dnsStart (qOffset.toNat + s.toNat))
    (htype : InBuffer buffer (qOffset.toNat + (s + name.extent).toNat) 2)
    (hclass : InBuffer buffer (qOffset.toNat + (s + name.extent + 2).toNat) 2) :
    Fuel.Returns (fun fuel => readQuestion buffer dnsStart fuel qOffset s) (s + name.extent + 2 + 2,
      { rtype := be16 buffer (qOffset.toNat + (s + name.extent).toNat)
        dclass := be16 buffer (qOffset.toNat + (s + name.extent + 2).toNat)
        qname := name.text }) := by
  refine (hname.returns 0).bind (Fuel.returns_const _ ?_)
  rw [UInt16.zero_add, Exn.except_bind_of_ok (loadBEu16_eq_ok_iff.mpr ⟨htype, rfl⟩),
    Exn.except_bind_of_ok (loadBEu16_eq_ok_iff.mpr ⟨hclass, rfl⟩)]

/-- Questions that are read are inside. -/
theorem readQuestions_eq_ok {fuel n : Nat} {qOffset s : UInt16} {r : UInt16 × List (Nat × QRecord)}
    (h : readQuestions buffer dnsStart fuel qOffset n s = .ok r) : QuestionsIn buffer dnsStart qOffset n s r.1 := by
  induction n generalizing s r with
  | zero => exact (congrArg Prod.fst (Except.ok.inj h)).symm
  | succ n ih =>
    obtain ⟨q, hq, h⟩ := Exn.except_bind_eq_ok.mp h
    obtain ⟨rest, hrest, h⟩ := Exn.except_bind_eq_ok.mp h
    obtain rfl := Except.ok.inj h
    have := ih hrest
    exact ⟨q.1, readQuestion_eq_ok hq, this⟩

/-- Questions that are inside are read. -/
theorem QuestionsIn.returns {n : Nat} {qOffset s s' : UInt16} (h : QuestionsIn buffer dnsStart qOffset n s s') :
    ∃ qs, Fuel.Returns (fun fuel => readQuestions buffer dnsStart fuel qOffset n s) (s', qs) := by
  induction n generalizing s with
  | zero => exact ⟨[], Fuel.returns_const _ (by rw [QuestionsIn] at h; rw [h])⟩
  | succ n ih =>
    obtain ⟨m, ⟨name, hname, htype, hclass, rfl⟩, hrest⟩ := h
    obtain ⟨qs, hqs⟩ := ih hrest
    exact ⟨_, (returns_readQuestion hname htype hclass).bind (hqs.bind (Fuel.returns_const _ rfl))⟩

/-! ## Answers -/

/-- Data that are read are inside. -/
theorem readData_eq_ok {fuel : Nat} {aOffset s type dclass : UInt16} {ttl : UInt32} {tmp : List UInt8} {r : UInt16 × Answer}
    (h : readData buffer dnsStart fuel aOffset s type dclass ttl tmp = .ok r) : DataIn buffer dnsStart aOffset s r.1 type := by
  rw [readData] at h
  rw [DataIn]
  by_cases ha : type = 1
  · rw [if_pos ha] at h ⊢
    obtain ⟨ip, hip, h⟩ := Exn.except_bind_eq_ok.mp h
    exact ⟨(loadBEu32_eq_ok_iff.mp hip).1, (congrArg Prod.fst (Except.ok.inj h)).symm⟩
  · rw [if_neg ha] at h ⊢
    by_cases hcname : type = 5
    · rw [if_pos hcname] at h ⊢
      obtain ⟨cname, hname, h⟩ := Exn.except_bind_eq_ok.mp h
      obtain ⟨name, hreads, rfl⟩ := reads_of_readDnsName hname
      rw [UInt16.zero_add] at h
      exact ⟨name, hreads, (congrArg Prod.fst (Except.ok.inj h)).symm⟩
    · rw [if_neg hcname] at h ⊢
      exact (congrArg Prod.fst (Except.ok.inj h)).symm

/-- Data that are inside are read. -/
theorem DataIn.returns {aOffset s s' type : UInt16} (h : DataIn buffer dnsStart aOffset s s' type) (dclass : UInt16) (ttl : UInt32)
    (tmp : List UInt8) : ∃ a, Fuel.Returns (fun fuel => readData buffer dnsStart fuel aOffset s type dclass ttl tmp) (s', a) := by
  rw [DataIn] at h
  simp only [readData]
  by_cases ha : type = 1
  · simp only [if_pos ha] at h ⊢
    obtain ⟨hin, rfl⟩ := h
    exact ⟨_, Fuel.returns_const _ (Exn.except_bind_of_ok (loadBEu32_eq_ok_iff.mpr ⟨hin, rfl⟩))⟩
  · simp only [if_neg ha] at h ⊢
    by_cases hcname : type = 5
    · simp only [if_pos hcname] at h ⊢
      obtain ⟨name, hname, rfl⟩ := h
      exact ⟨_, (hname.returns 0).bind (Fuel.returns_const _ (by rw [UInt16.zero_add]))⟩
    · simp only [if_neg hcname] at h ⊢
      exact ⟨.none, Fuel.returns_const _ (by rw [h])⟩

/-- An answer that is read is inside. -/
theorem readAnswer_eq_ok {fuel : Nat} {aOffset s : UInt16} {r : UInt16 × Answer}
    (h : readAnswer buffer dnsStart fuel aOffset s = .ok r) : AnswerIn buffer dnsStart aOffset s r.1 := by
  obtain ⟨n, hname, h⟩ := Exn.except_bind_eq_ok.mp h
  obtain ⟨type, htype, h⟩ := Exn.except_bind_eq_ok.mp h
  obtain ⟨dclass, hclass, h⟩ := Exn.except_bind_eq_ok.mp h
  obtain ⟨ttl, httl, h⟩ := Exn.except_bind_eq_ok.mp h
  obtain ⟨name, hreads, rfl⟩ := reads_of_readDnsName hname
  rw [UInt16.zero_add] at htype hclass httl h
  obtain ⟨hin, rfl⟩ := loadBEu16_eq_ok_iff.mp htype
  exact ⟨name, hreads, hin, (loadBEu16_eq_ok_iff.mp hclass).1, (loadBEu32_eq_ok_iff.mp httl).1, readData_eq_ok h⟩

/-- A pass over an answer, down to the switch on its type. -/
theorem returns_readAnswer {aOffset s : UInt16} {name : DnsName} (hname : name.Reads buffer dnsStart (aOffset.toNat + s.toNat))
    (htype : InBuffer buffer (aOffset.toNat + (s + name.extent).toNat) 2)
    (hclass : InBuffer buffer (aOffset.toNat + (s + name.extent + 2).toNat) 2)
    (httl : InBuffer buffer (aOffset.toNat + (s + name.extent + 2 + 2).toNat) 4) {r : UInt16 × Answer}
    (hdata : Fuel.Returns (fun fuel => readData buffer dnsStart fuel aOffset (s + name.extent + 2 + 2 + 4 + 2)
      (be16 buffer (aOffset.toNat + (s + name.extent).toNat)) (be16 buffer (aOffset.toNat + (s + name.extent + 2).toNat))
      (be32 buffer (aOffset.toNat + (s + name.extent + 2 + 2).toNat)) name.text) r) :
    Fuel.Returns (fun fuel => readAnswer buffer dnsStart fuel aOffset s) r := by
  refine (hname.returns 0).bind ?_
  simp only [UInt16.zero_add, Exn.except_bind_of_ok (loadBEu16_eq_ok_iff.mpr ⟨htype, rfl⟩),
    Exn.except_bind_of_ok (loadBEu16_eq_ok_iff.mpr ⟨hclass, rfl⟩), Exn.except_bind_of_ok (loadBEu32_eq_ok_iff.mpr ⟨httl, rfl⟩)]
  exact hdata

/-- Answers that are read are inside. -/
theorem readAnswers_eq_ok {fuel n : Nat} {aOffset s : UInt16} {r : List (Nat × Answer)}
    (h : readAnswers buffer dnsStart fuel aOffset n s = .ok r) : AnswersIn buffer dnsStart aOffset n s := by
  induction n generalizing s r with
  | zero => exact trivial
  | succ n ih =>
    obtain ⟨a, ha, h⟩ := Exn.except_bind_eq_ok.mp h
    obtain ⟨rest, hrest, h⟩ := Exn.except_bind_eq_ok.mp h
    exact ⟨a.1, readAnswer_eq_ok ha, ih hrest⟩

/-- Answers that are inside are read. -/
theorem AnswersIn.returns {n : Nat} {aOffset s : UInt16} (h : AnswersIn buffer dnsStart aOffset n s) :
    ∃ r, Fuel.Returns (fun fuel => readAnswers buffer dnsStart fuel aOffset n s) r := by
  induction n generalizing s with
  | zero => exact ⟨[], Fuel.returns_const _ rfl⟩
  | succ n ih =>
    obtain ⟨m, ⟨name, hname, htype, hclass, httl, hdata⟩, hrest⟩ := h
    obtain ⟨a, ha⟩ := hdata.returns (be16 buffer (aOffset.toNat + (s + name.extent + 2).toNat))
      (be32 buffer (aOffset.toNat + (s + name.extent + 2 + 2).toNat)) name.text
    obtain ⟨r, hr⟩ := ih hrest
    exact ⟨_, (returns_readAnswer hname htype hclass httl ha).bind (hr.bind (Fuel.returns_const _ rfl))⟩

end Records

/-! ## The header -/

/-- A header that is read is inside. -/
theorem readHeader_eq_ok {buffer : List UInt8} {off : Nat} {h : Header} (hread : readHeader buffer off = .ok h) :
    InBuffer buffer off 12 ∧ h.nQuestions = be16 buffer (off + 4) ∧ h.nAnswer = be16 buffer (off + 6) := by
  obtain ⟨id, -, hread⟩ := Exn.except_bind_eq_ok.mp hread
  obtain ⟨b2, -, hread⟩ := Exn.except_bind_eq_ok.mp hread
  obtain ⟨b3, -, hread⟩ := Exn.except_bind_eq_ok.mp hread
  obtain ⟨nQuestions, hquestions, hread⟩ := Exn.except_bind_eq_ok.mp hread
  obtain ⟨nAnswer, hanswer, hread⟩ := Exn.except_bind_eq_ok.mp hread
  obtain ⟨nNs, -, hread⟩ := Exn.except_bind_eq_ok.mp hread
  obtain ⟨nAdditional, hadditional, hread⟩ := Exn.except_bind_eq_ok.mp hread
  have hin := (loadBEu16_eq_ok_iff.mp hadditional).1
  rw [← Except.ok.inj hread]
  exact ⟨by omega, (loadBEu16_eq_ok_iff.mp hquestions).2.symm, (loadBEu16_eq_ok_iff.mp hanswer).2.symm⟩

/-- A header that is inside is read. -/
theorem exists_readHeader {buffer : List UInt8} {off : Nat} (h : InBuffer buffer off 12) : ∃ header, readHeader buffer off = .ok header := by
  have hload : ∀ k, k + 2 ≤ 12 → loadBEu16 buffer (off + k) = .ok (be16 buffer (off + k)) :=
    fun k hk => loadBEu16_eq_ok_iff.mpr ⟨by omega, rfl⟩
  have hbyte : ∀ k, k < 12 → byteAt buffer (off + k) = .ok (u8 buffer (off + k)) := fun k hk => byteAt_of_lt (by omega)
  have hid : loadBEu16 buffer off = .ok (be16 buffer off) := hload 0 (by decide)
  rw [readHeader, hid, hbyte 2 (by decide), hbyte 3 (by decide), hload 4 (by decide), hload 6 (by decide), hload 8 (by decide),
    hload 10 (by decide)]
  exact ⟨_, rfl⟩

/-! ## The message -/

section Parse

variable {buffer : List UInt8} {off : UInt8}

/-- What a parsed message consists of. -/
theorem parseAt_eq_ok {fuel : Nat} {d : Parsed} (h : parseAt buffer fuel off = .ok d) :
    InBuffer buffer off.toNat 12 ∧
      ∃ s, readQuestions buffer off.toNat fuel (off.toUInt16 + 12) (be16 buffer (off.toNat + 4)).toNat 0 = .ok (s, d.questions) ∧
        readAnswers buffer off.toNat fuel (off.toUInt16 + 12 + s) (be16 buffer (off.toNat + 6)).toNat 0 = .ok d.answers := by
  obtain ⟨header, hheader, h⟩ := Exn.except_bind_eq_ok.mp h
  obtain ⟨questions, hquestions, h⟩ := Exn.except_bind_eq_ok.mp h
  obtain ⟨answers, hanswers, h⟩ := Exn.except_bind_eq_ok.mp h
  obtain ⟨hin, hq, ha⟩ := readHeader_eq_ok hheader
  rw [hq] at hquestions
  rw [ha] at hanswers
  rw [← Except.ok.inj h]
  exact ⟨hin, questions.1, hquestions, hanswers⟩

/-- A message is parsed from its parts. -/
theorem exists_parseAt {s : UInt16} {questions : List (Nat × QRecord)} {answers : List (Nat × Answer)} (hin : InBuffer buffer off.toNat 12)
    (hquestions : Fuel.Returns
      (fun fuel => readQuestions buffer off.toNat fuel (off.toUInt16 + 12) (be16 buffer (off.toNat + 4)).toNat 0) (s, questions))
    (hanswers : Fuel.Returns
      (fun fuel => readAnswers buffer off.toNat fuel (off.toUInt16 + 12 + s) (be16 buffer (off.toNat + 6)).toNat 0) answers) :
    ∃ fuel d, parseAt buffer fuel off = .ok d ∧ d.questions = questions ∧ d.answers = answers := by
  obtain ⟨header, hheader⟩ := exists_readHeader hin
  obtain ⟨-, hq, ha⟩ := readHeader_eq_ok hheader
  have hrest : Fuel.Returns (fun fuel => (readAnswers buffer off.toNat fuel (off.toUInt16 + 12 + s)
      (be16 buffer (off.toNat + 6)).toNat 0).bind fun answers => .ok (Parsed.mk header questions answers))
      (Parsed.mk header questions answers) := hanswers.bind (Fuel.returns_const (.ok (Parsed.mk header questions answers)) rfl)
  obtain ⟨fuel, hfuel⟩ := (hquestions.bind (g := fun fuel questions =>
    (readAnswers buffer off.toNat fuel (off.toUInt16 + 12 + questions.1) (be16 buffer (off.toNat + 6)).toNat 0).bind fun answers =>
      .ok (Parsed.mk header questions.2 answers)) hrest).exists
  refine ⟨fuel, Parsed.mk header questions answers, ?_, rfl, rfl⟩
  rw [parseAt, Exn.except_bind_of_ok hheader, hq, ha]
  exact hfuel

end Parse

end Blockmon.Messages.Dns
