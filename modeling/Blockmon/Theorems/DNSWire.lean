import Blockmon.Lemmas.DNSSections
import Blockmon.Theorems.DNSPacket

/-!
# When a DNS message is read record by record

The parser keeps the offset of the message in eight bits and the places of its records in sixteen, and it takes the data of a record for
as long as its type makes them. It reads the message as it is written exactly if neither shows (`Kept`).
-/

namespace Blockmon.Messages.Dns

open Layout
open Blockmon.Messages.Packet

/-- Each record is read at its place, and the lists of the packet are those of the message. -/
structure ReadsRight (off : Nat) (msg : Message) (d : Parsed) : Prop where
  questions : d.questions.map Prod.fst = (placed Question.wireLength msg.questions (off + 12)).map Prod.fst
  answers : d.answers.map Prod.fst = (placed Resource.wireLength msg.answers (off + msg.answersAt)).map Prod.fst
  queries : d.queries = msg.questions.map Question.record
  aRecs : d.aRecs = msg.answers.filterMap Resource.aRecord
  cNames : d.cNames = msg.answers.filterMap Resource.cnameRecord

/-- The offset fits into eight bits and the place of the first answer into sixteen, all answers but the last end where the parser goes on,
and no link leads from a label to the root. Else there is nothing to read, where the parser looks for it as well. -/
def Kept (buffer : List UInt8) (off : Nat) (msg : Message) : Prop :=
  if off < 2 ^ 8 then
    (msg.answers ≠ [] → off + msg.answersAt < 2 ^ 16) ∧ (∀ r ∈ msg.answers.dropLast, r.Skipped) ∧
      (∀ q ∈ msg.questions, q.name.Plain) ∧ ∀ r ∈ msg.answers, r.Plain
  else
    msg.questions = [] ∧ msg.answers = [] ∧ be16 buffer (off % 2 ^ 8 + 4) = 0 ∧ be16 buffer (off % 2 ^ 8 + 6) = 0

/-! ## What is read and what is written -/

/-- Two filters that take the same elements are equal just when they are on each. -/
theorem filterMap_eq_iff {α β : Type} {f g : α → Option β} (h : ∀ x, (f x).isSome = (g x).isSome) {l : List α} :
    l.filterMap f = l.filterMap g ↔ ∀ x ∈ l, f x = g x := by
  induction l with
  | nil => exact iff_of_true rfl nofun
  | cons x l ih =>
    have hx := h x
    cases hf : f x with
    | none =>
      have hg : g x = none := by rwa [hf, Option.isSome_none, eq_comm, Option.isSome_eq_false_iff, Option.isNone_iff_eq_none] at hx
      rw [List.filterMap_cons_none hf, List.filterMap_cons_none hg, ih, List.forall_mem_cons, hf, hg]
      exact ⟨fun h => ⟨rfl, h⟩, fun h => h.2⟩
    | some y =>
      rw [hf, Option.isSome_some, eq_comm, Option.isSome_iff_exists] at hx
      obtain ⟨z, hg⟩ := hx
      rw [List.filterMap_cons_some hf, List.filterMap_cons_some hg, List.cons.injEq, ih, List.forall_mem_cons, hf, hg, Option.some.injEq]

namespace Resource

/-- The record that is kept of an answer with an address. -/
def readA (r : Resource) : Option ARecord :=
  match r.readAs with
  | .a x => some x
  | _ => none

/-- What the parser has of an alias. -/
def readCname (r : Resource) : Option CnameRecord :=
  match r.readAs with
  | .cname x => some x
  | _ => none

/-- The names of a record that are kept. -/
def ValidNames (r : Resource) : Prop :=
  ValidLabels r.name.labels ∧ ∀ name, r.data = .cname name → ValidLabels name.labels

/-- An address is read just where there is one. -/
theorem isSome_readA (r : Resource) : r.readA.isSome = r.aRecord.isSome := by
  obtain ⟨name, dclass, ttl, data⟩ := r
  cases data <;> rfl

/-- An alias is read just where there is one. -/
theorem isSome_readCname (r : Resource) : r.readCname.isSome = r.cnameRecord.isSome := by
  obtain ⟨name, dclass, ttl, data⟩ := r
  cases data <;> rfl

/-- The records of a resource are read right just when it is plain. -/
theorem records_eq_iff {r : Resource} (hv : r.ValidNames) : (r.readA = r.aRecord ∧ r.readCname = r.cnameRecord) ↔ r.Plain := by
  obtain ⟨name, dclass, ttl, data⟩ := r
  obtain ⟨hname, hcname⟩ := hv
  have htext := DnsName.text_eq_iff hname.fits
  cases data with
  | address ipAddr => simp [readA, readCname, readAs, aRecord, cnameRecord, Plain, htext]
  | cname cname =>
    have hcname := DnsName.text_eq_iff (hcname cname rfl).fits
    simp [readA, readCname, readAs, aRecord, cnameRecord, Plain, htext, hcname]
  | other type data => simp [readA, readCname, readAs, aRecord, cnameRecord, Plain]

end Resource

/-- The resources in a message have valid names. -/
theorem validNames_of_laid {m : List UInt8} {rs : List Resource} {pos : Nat}
    (h : Laid (Resource.At m) Resource.wireLength rs pos) : ∀ r ∈ rs, r.ValidNames := by
  induction rs generalizing pos with
  | nil => exact nofun
  | cons r rs ih =>
    obtain ⟨⟨⟨hv, -⟩, -, hdata⟩, hrs⟩ := h
    refine List.forall_mem_cons.mpr ⟨⟨hv, fun name hname => ?_⟩, ih hrs⟩
    rw [hname] at hdata
    exact hdata.1

/-- The questions in a message have valid names. -/
theorem valid_of_laid {m : List UInt8} {qs : List Question} {pos : Nat}
    (h : Laid (Question.At m) Question.wireLength qs pos) : ∀ q ∈ qs, ValidLabels q.name.labels := by
  induction qs generalizing pos with
  | nil => exact nofun
  | cons q qs ih => exact List.forall_mem_cons.mpr ⟨h.1.1.1, ih h.2⟩

/-- A question is read right just when its name is plain. -/
theorem record_eq_iff {q : Question} (hv : ValidLabels q.name.labels) : q.readAs = q.record ↔ q.name.Plain := by
  rw [← DnsName.text_eq_iff hv.fits, Question.readAs, Question.record]
  simp

/-- The lists of a packet in which each record has been read at its place. -/
theorem queries_eq_iff {qs : List Question} (hv : ∀ q ∈ qs, ValidLabels q.name.labels) (pos : Nat) :
    ((placed Question.wireLength qs pos).map (Prod.map id Question.readAs)).map Prod.snd = qs.map Question.record ↔
      ∀ q ∈ qs, q.name.Plain := by
  have hsnd : ((placed Question.wireLength qs pos).map (Prod.map id Question.readAs)).map Prod.snd = qs.map Question.readAs := by
    have h := congrArg (List.map Question.readAs) (map_snd_placed Question.wireLength qs pos)
    rwa [List.map_map] at h ⊢
  rw [hsnd, List.map_inj_left]
  exact forall₂_congr fun q hq => record_eq_iff (hv q hq)

/-- The addresses and aliases of what was parsed are those of the resources. -/
theorem aRecs_eq {rs : List Resource} {pos : Nat} {d : Parsed}
    (h : d.answers = (placed Resource.wireLength rs pos).map (Prod.map id Resource.readAs)) :
    d.aRecs = rs.filterMap Resource.readA ∧ d.cNames = rs.filterMap Resource.readCname := by
  have hsnd := map_snd_placed Resource.wireLength rs pos
  rw [Parsed.aRecs, Parsed.cNames, h, List.filterMap_map, List.filterMap_map]
  rw [← hsnd, List.filterMap_map, List.filterMap_map, hsnd]
  refine ⟨List.filterMap_congr fun x _ => ?_, List.filterMap_congr fun x _ => ?_⟩
  · simp only [Function.comp_apply, Prod.map, Resource.readA]
    cases x.2.readAs <;> rfl
  · simp only [Function.comp_apply, Prod.map, Resource.readCname]
    cases x.2.readAs <;> rfl

/-- The answers are read right just when each resource is plain. -/
theorem answers_eq_iff {rs : List Resource} (hv : ∀ r ∈ rs, r.ValidNames) :
    (rs.filterMap Resource.readA = rs.filterMap Resource.aRecord ∧
      rs.filterMap Resource.readCname = rs.filterMap Resource.cnameRecord) ↔ ∀ r ∈ rs, r.Plain := by
  rw [filterMap_eq_iff Resource.isSome_readA, filterMap_eq_iff Resource.isSome_readCname]
  constructor
  · rintro ⟨ha, hcname⟩ r hr
    exact (Resource.records_eq_iff (hv r hr)).mp ⟨ha r hr, hcname r hr⟩
  · intro h
    exact ⟨fun r hr => ((Resource.records_eq_iff (hv r hr)).mpr (h r hr)).1,
      fun r hr => ((Resource.records_eq_iff (hv r hr)).mpr (h r hr)).2⟩

/-! ## The parser and the message -/

section Parse

variable {buffer : List UInt8} {off : Nat} {msg : Message}

/-- The counts in the header are those of the questions and of the answers. -/
theorem Message.At.counts_eq (h : msg.At (buffer.drop off)) :
    (be16 buffer (off + 4)).toNat = msg.questions.length ∧ (be16 buffer (off + 6)).toNat = msg.answers.length := by
  obtain ⟨hquestions, hanswers⟩ := at_append_iff.mp (at_drop_iff.mp h.counts)
  rw [length_num16, Nat.add_assoc] at hanswers
  rw [be16_of_at hquestions, be16_of_at hanswers]
  exact ⟨UInt16.toNat_ofNat_of_lt' h.fewQuestions, UInt16.toNat_ofNat_of_lt' h.fewAnswers⟩

/-- The questions begin after the header. -/
theorem toNat_qOffset {o : UInt8} : (o.toUInt16 + 12).toNat = o.toNat + 12 := by
  have ho := o.toNat_lt
  have htwelve : (12 : UInt16).toNat = 12 := rfl
  rw [UInt16.toNat_add, UInt8.toNat_toUInt16, htwelve]
  omega

/-- The first question is looked for at the cursor. -/
theorem readQuestions_first {buffer : List UInt8} {dnsStart fuel n : Nat} {cursor s s' : UInt16} {qs : List (Nat × QRecord)}
    (h : readQuestions buffer dnsStart fuel cursor n s = .ok (s', qs)) :
    (n = 0 ∧ s' = s ∧ qs.map Prod.fst = []) ∨ ∃ rest, qs.map Prod.fst = (cursor.toNat + s.toNat) :: rest := by
  cases n with
  | zero =>
    obtain ⟨rfl, rfl⟩ := Prod.mk.inj (Except.ok.inj h)
    exact Or.inl ⟨rfl, rfl, rfl⟩
  | succ n =>
    obtain ⟨q, -, h⟩ := Exn.except_bind_eq_ok.mp h
    obtain ⟨rest, -, h⟩ := Exn.except_bind_eq_ok.mp h
    obtain ⟨-, rfl⟩ := Prod.mk.inj (Except.ok.inj h)
    exact Or.inr ⟨rest.2.map Prod.fst, rfl⟩

/-- The answers begin where the cursor is. -/
theorem readAnswers_first {buffer : List UInt8} {dnsStart fuel n : Nat} {cursor s : UInt16} {answers : List (Nat × Answer)}
    (h : readAnswers buffer dnsStart fuel cursor n s = .ok answers) :
    (n = 0 ∧ answers.map Prod.fst = []) ∨ ∃ rest, answers.map Prod.fst = (cursor.toNat + s.toNat) :: rest := by
  cases n with
  | zero =>
    obtain rfl := Except.ok.inj h
    exact Or.inl ⟨rfl, rfl⟩
  | succ n =>
    obtain ⟨x, rest, -, -, rfl⟩ := readAnswers_head h
    exact Or.inr ⟨rest.map Prod.fst, rfl⟩

/-- Records that begin at another place than the first one read are none. -/
theorem nil_of_first_ne {ρ : Type} {size : ρ → Nat} {rs : List ρ} {pos first : Nat} {read : List Nat}
    (h : read = (placed size rs pos).map Prod.fst) (hne : first ≠ pos) (hread : ∃ rest, read = first :: rest) : False := by
  obtain ⟨rest, rfl⟩ := hread
  cases rs with
  | nil => cases h
  | cons r rs => exact hne (List.cons.inj h).1

/-- Only an empty list has no places. -/
theorem nil_of_placed_eq_nil {ρ : Type} {size : ρ → Nat} {rs : List ρ} {pos : Nat}
    (h : [] = (placed size rs pos).map Prod.fst) : rs = [] := by
  cases rs with
  | nil => rfl
  | cons r rs => cases h

/-- A message that is read right is a kept one. -/
theorem kept_of_readsRight (hmsg : msg.At (buffer.drop off)) {fuel : Nat} {d : Parsed}
    (hparse : parseAt buffer fuel (.ofNat off) = .ok d) (hright : ReadsRight off msg d) : Kept buffer off msg := by
  obtain ⟨-, s, hquestions, hanswers⟩ := parseAt_eq_ok hparse
  have hoff : (UInt8.ofNat off).toNat = off % 2 ^ 8 := UInt8.toNat_ofNat'
  have hcursor : ((UInt8.ofNat off).toUInt16 + 12).toNat = off % 2 ^ 8 + 12 := by rw [toNat_qOffset, hoff]
  rw [hoff] at hquestions hanswers
  by_cases hsmall : off < 2 ^ 8
  · rw [Nat.mod_eq_of_lt hsmall] at hquestions hanswers hcursor
    obtain ⟨hq, ha⟩ := hmsg.counts_eq
    rw [hq] at hquestions
    rw [ha] at hanswers
    have hfits := hmsg.fits
    rw [Message.answersAt] at hfits
    obtain ⟨rfl, hlist⟩ := Prod.mk.inj ((settled_readQuestions _ _ _ _ _).eq hquestions
      (returns_readQuestions_at (a := 0) hcursor hmsg.questions (by omega)))
    rw [Nat.zero_add] at hanswers
    -- the cursor of the answers, which may wrap
    have hbase : ((UInt8.ofNat off).toUInt16 + 12 + .ofNat (total Question.wireLength msg.questions)).toNat =
        (off + msg.answersAt) % 2 ^ 16 := by
      rw [UInt16.toNat_add, hcursor, UInt16.toNat_ofNat', Message.answersAt]
      omega
    have hplace : msg.answers ≠ [] → off + msg.answersAt < 2 ^ 16 := by
      intro hne
      by_contra hge
      rcases readAnswers_first hanswers with ⟨hnone, -⟩ | hfirst
      · exact hne (List.length_eq_zero_iff.mp hnone)
      · have hzero : (0 : UInt16).toNat = 0 := rfl
        rw [hbase, hzero] at hfirst
        exact nil_of_first_ne hright.answers (by omega) hfirst
    have hplain : ∀ q ∈ msg.questions, q.name.Plain := by
      have hqueries := hright.queries
      rw [Parsed.queries, hlist] at hqueries
      exact (queries_eq_iff (valid_of_laid hmsg.questions) _).mp hqueries
    rw [Kept, if_pos hsmall]
    by_cases hne : msg.answers = []
    · rw [hne] at hplace ⊢
      exact ⟨hplace, nofun, hplain, nofun⟩
    · have hlt := hplace hne
      rw [Nat.mod_eq_of_lt hlt] at hbase
      have hfit : 0 + total Resource.wireLength msg.answers < 2 ^ 16 := by omega
      have hskip := skipped_of_places (a := 0) hbase hmsg.answers hfit hanswers hright.answers
      have hread := (settled_readAnswers _ _ _ _ _).eq hanswers (returns_readAnswers_at (a := 0) hbase hmsg.answers hfit hskip)
      obtain ⟨haRecs, hcNames⟩ := aRecs_eq hread
      have hrecords := (answers_eq_iff (validNames_of_laid hmsg.answers)).mp
        ⟨haRecs.symm.trans hright.aRecs, hcNames.symm.trans hright.cNames⟩
      exact ⟨hplace, hskip, hplain, hrecords⟩
  · -- the parser is in front of the message
    rw [Kept, if_neg hsmall]
    have hzero : (0 : UInt16).toNat = 0 := rfl
    rcases readQuestions_first hquestions with ⟨hnone, rfl, hnil⟩ | hfirst
    · have hq := nil_of_placed_eq_nil (hnil.symm.trans hright.questions)
      rcases readAnswers_first hanswers with ⟨hnone', hnil'⟩ | hfirst
      · have ha := nil_of_placed_eq_nil (hnil'.symm.trans hright.answers)
        exact ⟨hq, ha, UInt16.toNat_inj.mp hnone, UInt16.toNat_inj.mp hnone'⟩
      · rw [UInt16.add_zero, hcursor, hzero] at hfirst
        have hat : msg.answersAt = 12 := by rw [Message.answersAt, hq, total_nil]
        exact (nil_of_first_ne hright.answers (by omega) hfirst).elim
    · rw [hcursor, hzero] at hfirst
      exact (nil_of_first_ne hright.questions (by omega) hfirst).elim

/-- A kept message is read right. -/
theorem exists_readsRight (hmsg : msg.At (buffer.drop off)) (hkept : Kept buffer off msg) :
    ∃ fuel d, parseAt buffer fuel (.ofNat off) = .ok d ∧ ReadsRight off msg d := by
  have hoff : (UInt8.ofNat off).toNat = off % 2 ^ 8 := UInt8.toNat_ofNat'
  generalize UInt8.ofNat off = o at hoff
  have hcursor : (o.toUInt16 + 12).toNat = off % 2 ^ 8 + 12 := by rw [toNat_qOffset, hoff]
  have hlen := hmsg.header
  rw [List.length_drop] at hlen
  have hin : InBuffer buffer o.toNat 12 := by
    rw [hoff]
    omega
  by_cases hsmall : off < 2 ^ 8
  · rw [Kept, if_pos hsmall] at hkept
    obtain ⟨hplace, hskip, hplain, hrecords⟩ := hkept
    rw [Nat.mod_eq_of_lt hsmall] at hoff hcursor
    subst hoff
    obtain ⟨hq, ha⟩ := hmsg.counts_eq
    have hfits := hmsg.fits
    rw [Message.answersAt] at hfits
    have hquestions := returns_readQuestions_at (a := 0) hcursor hmsg.questions (by omega)
    rw [Nat.zero_add] at hquestions
    have hanswers : Fuel.Returns (fun fuel => readAnswers buffer o.toNat fuel
        (o.toUInt16 + 12 + .ofNat (total Question.wireLength msg.questions)) msg.answers.length 0)
        ((placed Resource.wireLength msg.answers (o.toNat + msg.answersAt)).map (Prod.map id Resource.readAs)) := by
      by_cases hne : msg.answers = []
      · rw [hne]
        exact Fuel.returns_const _ rfl
      · have hlt := hplace hne
        have hbase : (o.toUInt16 + 12 + .ofNat (total Question.wireLength msg.questions)).toNat = o.toNat + msg.answersAt := by
          rw [UInt16.toNat_add, hcursor, UInt16.toNat_ofNat', Message.answersAt]
          rw [Message.answersAt] at hlt
          omega
        exact returns_readAnswers_at (a := 0) hbase hmsg.answers (by omega) hskip
    rw [← hq] at hquestions
    rw [← ha] at hanswers
    obtain ⟨fuel, d, hparse, hdq, hda⟩ := exists_parseAt hin hquestions hanswers
    obtain ⟨haRecs, hcNames⟩ := aRecs_eq hda
    obtain ⟨ha', hcname'⟩ := (answers_eq_iff (validNames_of_laid hmsg.answers)).mpr hrecords
    refine ⟨fuel, d, hparse, ?_, ?_, ?_, haRecs.trans ha', hcNames.trans hcname'⟩
    · rw [hdq, List.map_map]
      rfl
    · rw [hda, List.map_map]
      rfl
    · rw [Parsed.queries, hdq]
      exact (queries_eq_iff (valid_of_laid hmsg.questions) _).mpr hplain
  · rw [Kept, if_neg hsmall] at hkept
    obtain ⟨hq, ha, hquestions, hanswers⟩ := hkept
    rw [← hoff] at hquestions hanswers
    have hreadQ : Fuel.Returns (fun fuel => readQuestions buffer o.toNat fuel (o.toUInt16 + 12) (be16 buffer (o.toNat + 4)).toNat 0)
        (0, []) := by
      rw [hquestions]
      exact Fuel.returns_const _ rfl
    have hreadA : Fuel.Returns
        (fun fuel => readAnswers buffer o.toNat fuel (o.toUInt16 + 12 + 0) (be16 buffer (o.toNat + 6)).toNat 0) [] := by
      rw [hanswers]
      exact Fuel.returns_const _ rfl
    obtain ⟨fuel, d, hparse, hdq, hda⟩ := exists_parseAt hin hreadQ hreadA
    refine ⟨fuel, d, hparse, ?_, ?_, ?_, ?_, ?_⟩
    · rw [hdq, hq]
      rfl
    · rw [hda, ha]
      rfl
    · rw [Parsed.queries, hdq, hq]
      rfl
    · rw [Parsed.aRecs, hda, ha]
      rfl
    · rw [Parsed.cNames, hda, ha]
      rfl

end Parse

/-- The parser behind the headers of a packet. -/
theorem parseDns_returns_iff (memory : Packet) (buffer : ConstBuffer) (mBuffer : Nat) {iphoff : Nat}
    (hheaders : HeadersAt kEthernet buffer.bytes iphoff sizeofUdphdr) (P : Parsed → Prop) :
    (∃ fuel d s, (parseDns mBuffer fuel).run (newPacket memory buffer) = .ok d s ∧ P d) ↔
      ∃ fuel d, parseAt buffer.bytes fuel (.ofNat (iphoff + ipHeaderLength buffer.bytes iphoff + sizeofUdphdr)) = .ok d ∧ P d := by
  have hfresh := fresh_new memory buffer kEthernet
  have hrun : ∀ fuel, (parseDns mBuffer fuel).run (newPacket memory buffer) = Exn.outcome
      (parseAt buffer.bytes fuel (.ofNat (iphoff + ipHeaderLength buffer.bytes iphoff + sizeofUdphdr)))
      (payloadStage (newPacket memory buffer)) := by
    intro fuel
    have h := run_parseDns hfresh mBuffer fuel
    have hptr : payloadPtr (Packet.new memory buffer kEthernet) = _ := payloadPtr_of_headers memory hheaders
    rw [hptr, dnsOffset_some] at h
    exact h
  refine exists_congr fun fuel => ?_
  rw [hrun]
  cases parseAt buffer.bytes fuel (.ofNat (iphoff + ipHeaderLength buffer.bytes iphoff + sizeofUdphdr)) with
  | error e => simp [Exn.outcome]
  | ok d => simp [Exn.outcome]

/-- A message in a packet is read record by record exactly if its records are where the cursors come to. -/
theorem parse_dns_reads_right_iff (memory : Packet) (buffer : ConstBuffer) (mBuffer iphoff : Nat) (msg : Message)
    (hheaders : HeadersAt kEthernet buffer.bytes iphoff sizeofUdphdr)
    (hmsg : msg.At (buffer.bytes.drop (iphoff + ipHeaderLength buffer.bytes iphoff + sizeofUdphdr))) :
    (∃ fuel d s, (parseDns mBuffer fuel).run (newPacket memory buffer) = .ok d s ∧
      ReadsRight (iphoff + ipHeaderLength buffer.bytes iphoff + sizeofUdphdr) msg d) ↔
      Kept buffer.bytes (iphoff + ipHeaderLength buffer.bytes iphoff + sizeofUdphdr) msg := by
  rw [parseDns_returns_iff memory buffer mBuffer hheaders]
  constructor
  · rintro ⟨fuel, d, hparse, hright⟩
    exact kept_of_readsRight hmsg hparse hright
  · exact exists_readsRight hmsg

/-- A frame with a DNS message. -/
def messageFrame (message : List UInt8) : List UInt8 :=
  [0, 0, 0, 0, 0, 0, 0, 0, 0, 0, 0, 0, 8, 0] ++ udpPacket (.ofNat (28 + message.length)) message

/-- A question for an address, and the answer, whose name is a link to the question. -/
def answered : Message where
  questions := [{ name := .ended [[97]], rtype := 1, dclass := 1 }]
  answers := [{ name := .linked [] (.ended [[97]]), dclass := 1, ttl := 60, data := .address 0x01020304 }]

/-- The bytes of the answered question. -/
def answeredBytes : List UInt8 :=
  [0, 0, 0x81, 0x80, 0, 1, 0, 1, 0, 0, 0, 0] ++ [1, 97, 0, 0, 1, 0, 1] ++ [0xC0, 12, 0, 1, 0, 1, 0, 0, 0, 60, 0, 4, 1, 2, 3, 4]

/-- The root has a valid name. -/
theorem validLabels_nil : ValidLabels [] := ⟨nofun, by decide⟩

/-- A name with one letter is valid. -/
theorem validLabels_a : ValidLabels [[97]] := ⟨by simp, by decide⟩

/-- The bytes are the message. -/
theorem answered_at : answered.At ((messageFrame answeredBytes).drop 42) where
  header := by decide
  counts := by decide
  fewQuestions := by decide
  fewAnswers := by decide
  questions := ⟨⟨⟨validLabels_a, show Layout.At _ _ _ by decide⟩, by decide⟩, trivial⟩
  answers := ⟨⟨⟨validLabels_a, 12, by decide, by decide, show Layout.At _ _ _ by decide⟩, by decide, show Layout.At _ _ _ by decide⟩, trivial⟩
  fits := by decide

/-- The answered question is read right. -/
theorem answered_is_read : ∃ fuel d s,
    (parseDns 0 fuel).run (newPacket Packet.zeroed ⟨messageFrame answeredBytes, by decide⟩) = .ok d s ∧ ReadsRight 42 answered d := by
  have hoff : 14 + ipHeaderLength (messageFrame answeredBytes) 14 + sizeofUdphdr = 42 := by decide
  have hmsg : answered.At ((messageFrame answeredBytes).drop (14 + ipHeaderLength (messageFrame answeredBytes) 14 + sizeofUdphdr)) := by
    rw [hoff]
    exact answered_at
  have hiff := parse_dns_reads_right_iff Packet.zeroed ⟨messageFrame answeredBytes, by decide⟩ 0 14 answered
    (headersAt_udpFrame (by decide) (by decide) (by decide) (by decide)) hmsg
  dsimp only at hiff
  rw [hoff] at hiff
  refine hiff.mpr ?_
  rw [Kept, if_pos (by decide)]
  refine ⟨fun _ => by decide, nofun, ?_, ?_⟩
  · simp [answered, DnsName.Plain]
  · simp [answered, Resource.Plain, DnsName.Plain]

/-- Two answers for the root: an address of sixteen bytes, and one of four. -/
def twoAddresses : Message where
  questions := []
  answers :=
    [{ name := .ended [], dclass := 1, ttl := 60, data := .other 28 (List.replicate 16 0) },
      { name := .ended [], dclass := 1, ttl := 60, data := .address 0x01020304 }]

/-- The bytes of the two addresses. -/
def twoAddressesBytes : List UInt8 :=
  [0, 0, 0x81, 0x80, 0, 0, 0, 2, 0, 0, 0, 0] ++ ([0, 0, 28, 0, 1, 0, 0, 0, 60, 0, 16] ++ List.replicate 16 0) ++
    [0, 0, 1, 0, 1, 0, 0, 0, 60, 0, 4, 1, 2, 3, 4]

/-- The bytes are the message of the two addresses. -/
theorem twoAddresses_at : twoAddresses.At ((messageFrame twoAddressesBytes).drop 42) where
  header := by decide
  counts := by decide
  fewQuestions := by decide
  fewAnswers := by decide
  questions := trivial
  answers :=
    ⟨⟨⟨validLabels_nil, show Layout.At _ _ _ by decide⟩, by decide, ⟨by decide, by decide⟩, show Layout.At _ _ _ by decide⟩,
      ⟨⟨validLabels_nil, show Layout.At _ _ _ by decide⟩, by decide, show Layout.At _ _ _ by decide⟩, trivial⟩
  fits := by decide

/-- The second answer is looked for in the data of the first. -/
theorem second_address_is_missed :
    HeadersAt kEthernet (messageFrame twoAddressesBytes) 14 sizeofUdphdr ∧
      twoAddresses.At ((messageFrame twoAddressesBytes).drop 42) ∧
        ¬∃ fuel d s, (parseDns 0 fuel).run (newPacket Packet.zeroed ⟨messageFrame twoAddressesBytes, by decide⟩) = .ok d s ∧
          ReadsRight 42 twoAddresses d := by
  have hheaders : HeadersAt kEthernet (messageFrame twoAddressesBytes) 14 sizeofUdphdr :=
    headersAt_udpFrame (by decide) (by decide) (by decide) (by decide)
  refine ⟨hheaders, twoAddresses_at, fun hread => ?_⟩
  have hoff : 14 + ipHeaderLength (messageFrame twoAddressesBytes) 14 + sizeofUdphdr = 42 := by decide
  obtain ⟨fuel, d, hparse, hright⟩ :=
    (parseDns_returns_iff Packet.zeroed ⟨messageFrame twoAddressesBytes, by decide⟩ 0 hheaders _).mp hread
  dsimp only at hparse
  rw [hoff] at hparse
  have hkept := kept_of_readsRight twoAddresses_at hparse hright
  rw [Kept, if_pos (by decide)] at hkept
  have hskip := hkept.2.1 _ List.mem_cons_self
  exact absurd (show List.replicate 16 (0 : UInt8) = [] from hskip) (by decide)

end Blockmon.Messages.Dns
