import Blockmon.Lemmas.DNSRecords
import Blockmon.Lib.Layout

/-!
# The wire format of DNS messages

A message as the standard lays it out, from its own first byte on: the header with its counts, and behind it the questions and the resource
records, one behind the other. A name ends at a zero byte or in a link to another name of the message.
-/

namespace Blockmon.Messages.Dns

open Layout

/-- A number of two bytes, the most significant first. -/
def num16 (v : Nat) : List UInt8 := [.ofNat (v / 2 ^ 8), .ofNat v]

/-- A number of 32 bits on the wire. -/
def num32 (v : Nat) : List UInt8 := num16 (v / 2 ^ 16) ++ num16 v

/-! ## Names -/

/-- The labels on the wire, each behind its length. -/
def labelBytes (ls : List (List UInt8)) : List UInt8 := ls.flatMap fun l => .ofNat l.length :: l

/-- Labels of at most 63 bytes in a name of at most 255. -/
structure ValidLabels (ls : List (List UInt8)) : Prop where
  label : ∀ l ∈ ls, l ≠ [] ∧ l.length ≤ 63
  name : (labelBytes ls).length < 255

/-- Labels of 1 to 63 bytes, in a name of any length. -/
def GoodLabels (ls : List (List UInt8)) : Prop := ∀ l ∈ ls, l ≠ [] ∧ l.length ≤ 63

/-- A name as it is written. -/
def dotted (ls : List (List UInt8)) : List UInt8 := [dot].intercalate ls

namespace DnsName

/-- The labels of a name, with those of the name that it links to. -/
def labels : DnsName → List (List UInt8)
  | ended ls => ls
  | linked ls target => ls ++ target.labels

/-- The bytes that a name takes where it stands. -/
def wireLength : DnsName → Nat
  | ended ls => (labelBytes ls).length + 1
  | linked ls _ => (labelBytes ls).length + 2

/-- A name in a message. -/
def At (m : List UInt8) : DnsName → Nat → Prop
  | ended ls, pos => Layout.At m pos (labelBytes ls ++ [0])
  | linked ls target, pos => ∃ k < 2 ^ 14, Layout.At m pos (labelBytes ls ++ num16 (0xC000 + k)) ∧ target.At m k

/-- A name in the buffer: it stands anywhere, and links count from the beginning of the message. -/
def Stored (buffer : List UInt8) (dnsStart : Nat) : DnsName → Nat → Prop
  | ended ls, data => Layout.At buffer data (labelBytes ls ++ [0])
  | linked ls target, data =>
    ∃ k < 2 ^ 14, Layout.At buffer data (labelBytes ls ++ num16 (0xC000 + k)) ∧ target.Stored buffer dnsStart (dnsStart + k)

/-- The reader can count the bytes of the labels, wherever a part of the name stands. -/
def Fits : DnsName → Prop
  | ended ls => (labelBytes ls).length < 2 ^ 32
  | linked ls target => (labelBytes ls).length < 2 ^ 32 ∧ target.Fits

/-- Behind labels no link leads to the name without labels. -/
def Plain : DnsName → Prop
  | ended _ => True
  | linked ls target => (ls = [] ∨ target.labels ≠ []) ∧ target.Plain

end DnsName

/-! ## Records -/

/-- A question of a message. -/
structure Question where
  name : DnsName
  rtype : UInt16
  dclass : UInt16

/-- The data of a record: an address of four bytes, the canonical name, or what the record has for data. -/
inductive RData where
  | address (ipAddr : UInt32)
  | cname (name : DnsName)
  | other (type : UInt16) (data : List UInt8)

/-- A resource record of a message. -/
structure Resource where
  name : DnsName
  dclass : UInt16
  ttl : UInt32
  data : RData

namespace Question

/-- The bytes of a question. -/
def wireLength (q : Question) : Nat := q.name.wireLength + 4

/-- The question is written at the position. -/
def At (m : List UInt8) (q : Question) (pos : Nat) : Prop :=
  (ValidLabels q.name.labels ∧ q.name.At m pos) ∧
    Layout.At m (pos + q.name.wireLength) (num16 q.rtype.toNat ++ num16 q.dclass.toNat)

/-- What the parser should have of a question. -/
def record (q : Question) : QRecord := { rtype := q.rtype, dclass := q.dclass, qname := dotted q.name.labels }

end Question

namespace RData

/-- The type that the data have. -/
def type : RData → UInt16
  | address _ => 1
  | cname _ => 5
  | other type _ => type

/-- The bytes of the data. -/
def wireLength : RData → Nat
  | address _ => 4
  | cname name => name.wireLength
  | other _ data => data.length

/-- The data are written at the position. -/
def At (m : List UInt8) : RData → Nat → Prop
  | address ipAddr, pos => Layout.At m pos (num32 ipAddr.toNat)
  | cname name, pos => ValidLabels name.labels ∧ name.At m pos
  | other type data, pos => (type ≠ 1 ∧ type ≠ 5) ∧ Layout.At m pos data

end RData

namespace Resource

/-- The bytes of a resource. -/
def wireLength (r : Resource) : Nat := r.name.wireLength + 10 + r.data.wireLength

/-- The resource is written at the position. -/
def At (m : List UInt8) (r : Resource) (pos : Nat) : Prop :=
  (ValidLabels r.name.labels ∧ r.name.At m pos) ∧
    Layout.At m (pos + r.name.wireLength)
      (num16 r.data.type.toNat ++ num16 r.dclass.toNat ++ num32 r.ttl.toNat ++ num16 r.data.wireLength) ∧
      r.data.At m (pos + r.name.wireLength + 10)

/-- What the parser should have of an address. -/
def aRecord (r : Resource) : Option ARecord :=
  match r.data with
  | .address ipAddr => some { ttl := r.ttl, rtype := 1, dclass := r.dclass, ipAddr := ipAddr, qname := dotted r.name.labels }
  | _ => none

/-- What the parser should have of an alias. -/
def cnameRecord (r : Resource) : Option CnameRecord :=
  match r.data with
  | .cname name =>
    some { ttl := r.ttl, rtype := 5, dclass := r.dclass, qname := dotted r.name.labels, cname := dotted name.labels }
  | _ => none

end Resource

/-! ## Messages -/

/-- A message without its other sections. -/
structure Message where
  questions : List Question
  answers : List Resource

namespace Message

/-- Where the answers begin. -/
def answersAt (msg : Message) : Nat := 12 + total Question.wireLength msg.questions

/-- A message, as far as its answers, which fits into a packet. -/
structure At (m : List UInt8) (msg : Message) : Prop where
  header : 12 ≤ m.length
  counts : Layout.At m 4 (num16 msg.questions.length ++ num16 msg.answers.length)
  fewQuestions : msg.questions.length < 2 ^ 16
  fewAnswers : msg.answers.length < 2 ^ 16
  questions : Laid (Question.At m) Question.wireLength msg.questions 12
  answers : Laid (Resource.At m) Resource.wireLength msg.answers msg.answersAt
  fits : msg.answersAt + total Resource.wireLength msg.answers < 2 ^ 16

end Message

/-! ## Names are read -/

section Numbers

variable {buffer : List UInt8} {pos : Nat}

/-- A number of 16 bits has two bytes. -/
theorem length_num16 (v : Nat) : (num16 v).length = 2 := rfl

/-- A byte of what is written. -/
theorem u8_of_at {bs : List UInt8} (h : At buffer pos bs) {i : Nat} {b : UInt8} (hb : bs[i]? = some b) : u8 buffer (pos + i) = b := by
  rw [u8, List.getD_eq_getElem?_getD, h.getElem? hb]
  rfl

/-- A number of 16 bits that is written is read. -/
theorem be16_of_at {v : Nat} (h : At buffer pos (num16 v)) : be16 buffer pos = .ofNat v := by
  have hhi : u8 buffer (pos + 0) = .ofNat (v / 2 ^ 8) := u8_of_at h rfl
  have hlo : u8 buffer (pos + 1) = .ofNat v := u8_of_at h rfl
  rw [Nat.add_zero] at hhi
  rw [be16, hhi, hlo, ← UInt16.toNat_inj]
  simp only [UInt8.toNat_ofNat', UInt16.toNat_ofNat']
  omega

/-- A number of 32 bits that is written is read. -/
theorem be32_of_at {v : Nat} (h : At buffer pos (num32 v)) : be32 buffer pos = .ofNat v := by
  obtain ⟨hhi, hlo⟩ := at_append_iff.mp h
  rw [length_num16] at hlo
  rw [be32, be16_of_at hhi, be16_of_at hlo, ← UInt32.toNat_inj]
  simp only [UInt16.toNat_ofNat', UInt32.toNat_ofNat']
  omega

end Numbers

section Labels

variable {buffer : List UInt8} {data : Nat} {l : List UInt8} {ls : List (List UInt8)}

/-- The first label comes first. -/
theorem labelBytes_cons (l : List UInt8) (ls : List (List UInt8)) : labelBytes (l :: ls) = .ofNat l.length :: l ++ labelBytes ls := rfl

/-- The length of the labels, by the first one. -/
theorem length_labelBytes_cons (l : List UInt8) (ls : List (List UInt8)) :
    (labelBytes (l :: ls)).length = l.length + 1 + (labelBytes ls).length := by
  rw [labelBytes_cons, List.length_append, List.length_cons]

/-- The bytes of labels in two parts. -/
theorem labelBytes_append (ls ls' : List (List UInt8)) : labelBytes (ls ++ ls') = labelBytes ls ++ labelBytes ls' := List.flatMap_append

/-- Parts of valid labels are valid. -/
theorem ValidLabels.of_append {ls' : List (List UInt8)} (h : ValidLabels (ls ++ ls')) : ValidLabels ls ∧ ValidLabels ls' := by
  have hname := h.name
  rw [labelBytes_append, List.length_append] at hname
  exact ⟨⟨fun l hl => h.label l (List.mem_append_left _ hl), by omega⟩, ⟨fun l hl => h.label l (List.mem_append_right _ hl), by omega⟩⟩

/-- A label takes its length and one byte. -/
theorem ofNat_step (a : Nat) (l : List UInt8) : UInt32.ofNat a + 1 + .ofNat l.length = .ofNat (a + (l.length + 1)) := by
  rw [UInt32.ofNat_add, UInt32.ofNat_add, UInt32.add_assoc, UInt32.add_comm 1]
  rfl

/-- The position behind labels. -/
theorem behind_ofNat (a : Nat) (ls : List (List UInt8)) : behind (.ofNat a) ls = .ofNat (a + (labelBytes ls).length) := by
  induction ls generalizing a with
  | nil => rfl
  | cons l ls ih => rw [behind, ofNat_step, ih, length_labelBytes_cons, Nat.add_assoc]

/-- Labels in the message are labels to the reader, as long as its counter does not wrap. -/
theorem run_of_at (hgood : GoodLabels ls) {a : Nat} (hfit : a + (labelBytes ls).length < 2 ^ 32)
    (h : At buffer (data + a) (labelBytes ls)) : Run buffer data (.ofNat a) ls := by
  induction ls generalizing a with
  | nil => trivial
  | cons l ls ih =>
    obtain ⟨hne, hlen⟩ := hgood l List.mem_cons_self
    have hpos := List.length_pos_iff.mpr hne
    rw [length_labelBytes_cons] at hfit
    rw [labelBytes_cons] at h
    obtain ⟨hl, hrest⟩ := at_append_iff.mp h
    rw [List.length_cons, Nat.add_assoc] at hrest
    have hi : (UInt32.ofNat a).toNat = a := UInt32.toNat_ofNat_of_lt' (show a < 2 ^ 32 by omega)
    have hsucc : (UInt32.ofNat a + 1).toNat = a + 1 := by
      have hstep : UInt32.ofNat a + 1 = .ofNat (a + 1) := by
        rw [UInt32.ofNat_add]
        rfl
      rw [hstep]
      exact UInt32.toNat_ofNat_of_lt' (show a + 1 < 2 ^ 32 by omega)
    have hj : (UInt8.ofNat l.length).toNat = l.length := UInt8.toNat_ofNat_of_lt' (show l.length < 2 ^ 8 by omega)
    refine ⟨⟨.ofNat l.length, ?_, ?_, ?_⟩, ?_⟩
    · rw [hi]
      exact hl.getElem? (i := 0) rfl
    · have hzero : (0 : UInt8).toNat = 0 := rfl
      have hlink : (0xC0 : UInt8).toNat = 192 := rfl
      rw [stops_iff, ← UInt8.toNat_inj, UInt8.le_iff_toNat_le, hj]
      omega
    · have hbytes : At buffer (data + a + 1) l := (at_append_iff.mp (show At buffer (data + a) ([.ofNat l.length] ++ l) from hl)).2
      rw [hsucc, hj, bytesAt_eq_ok_iff]
      exact ⟨hbytes.le_length hne, hbytes.take_drop⟩
    · rw [ofNat_step]
      exact ih (fun l' hl' => hgood l' (List.mem_cons_of_mem _ hl')) (by omega) hrest

/-! ## The text of a name -/

/-- The first label has no point before it. -/
theorem dotted_cons (l : List UInt8) (ls : List (List UInt8)) : dotted (l :: ls) = l ++ ls.flatMap fun l' => [dot] ++ l' := by
  induction ls generalizing l with
  | nil => rw [dotted, List.intercalate_singleton, List.flatMap_nil, List.append_nil]
  | cons l' ls ih =>
    have htail := ih l'
    rw [dotted] at htail ⊢
    rw [List.intercalate_cons_cons, htail, List.flatMap_cons, List.append_assoc, List.append_assoc]

/-- There is a point between two names. -/
theorem dotted_append {ls' : List (List UInt8)} (hne' : ls' ≠ []) :
    dotted (l :: ls ++ ls') = dotted (l :: ls) ++ [dot] ++ dotted ls' := by
  cases ls' with
  | nil => exact absurd rfl hne'
  | cons l' ls' =>
    rw [List.cons_append, dotted_cons, dotted_cons, dotted_cons, List.flatMap_append, List.flatMap_cons]
    simp only [List.append_assoc]

/-- The name behind labels that have been read. -/
theorem spell_of_pos {a : Nat} (hpos : 0 < a) (hfit : a + (labelBytes ls).length < 2 ^ 32) (ret : List UInt8) :
    spell (.ofNat a) ret ls = ret ++ ls.flatMap fun l => [dot] ++ l := by
  induction ls generalizing a ret with
  | nil => rw [spell, List.flatMap_nil, List.append_nil]
  | cons l ls ih =>
    rw [length_labelBytes_cons] at hfit
    have hfirst : UInt32.ofNat a + 1 ≠ 1 := by
      intro h
      have hzero : UInt32.ofNat a = 0 := by rwa [UInt32.add_eq_right] at h
      have ha := congrArg UInt32.toNat hzero
      rw [UInt32.toNat_ofNat_of_lt' (show a < 2 ^ 32 by omega)] at ha
      exact absurd ha (Nat.ne_of_gt hpos)
    rw [spell, if_pos hfirst, ofNat_step, ih (by omega) (by omega), List.flatMap_cons]
    simp only [List.append_assoc]

/-- The parser spells the labels with points, if they do not wrap. -/
theorem spell_zero (hfit : (labelBytes ls).length < 2 ^ 32) : spell 0 [] ls = dotted ls := by
  cases ls with
  | nil => rfl
  | cons l ls =>
    rw [length_labelBytes_cons] at hfit
    have hstep : (0 : UInt32) + 1 + .ofNat l.length = .ofNat (l.length + 1) := by
      rw [← Nat.zero_add (l.length + 1)]
      exact ofNat_step 0 l
    have hfirst : ¬((0 : UInt32) + 1 ≠ 1) := by decide
    rw [spell, if_neg hfirst, hstep, spell_of_pos (by omega) (by omega), dotted_cons, List.nil_append]

/-- The text that is read is the name that is written. -/
theorem DnsName.text_eq_iff {name : DnsName} (hfits : name.Fits) : name.text = dotted name.labels ↔ name.Plain := by
  induction name with
  | ended ls => exact iff_of_true (spell_zero hfits) trivial
  | linked ls target ih =>
    obtain ⟨hls, htarget⟩ := hfits
    cases ls with
    | nil =>
      have hrest := ih htarget
      rw [DnsName.text, DnsName.labels, List.nil_append, hrest, DnsName.Plain]
      exact ⟨fun h => ⟨Or.inl rfl, h⟩, fun h => h.2⟩
    | cons l ls =>
      rw [DnsName.text, DnsName.labels, DnsName.Plain, spell_zero hls]
      by_cases hroot : target.labels = []
      · -- the text has a dot behind the last label
        rw [hroot, List.append_nil]
        constructor
        · intro h
          have hlen := congrArg List.length h
          simp only [List.length_append, List.length_singleton] at hlen
          omega
        · rintro ⟨hlabels, -⟩
          rcases hlabels with h | h
          · cases h
          · exact absurd rfl h
      · rw [dotted_append hroot, List.append_cancel_left_eq, ih htarget]
        exact ⟨fun h => ⟨Or.inr hroot, h⟩, fun h => h.2⟩

end Labels

/-! ## The reader and the message -/

section Names

variable {buffer : List UInt8} {off : Nat}

/-- Valid labels do not wrap. -/
theorem ValidLabels.fits {name : DnsName} (hv : ValidLabels name.labels) : name.Fits := by
  induction name with
  | ended ls =>
    have hname : (labelBytes ls).length < 255 := hv.name
    rw [DnsName.Fits]
    omega
  | linked ls target ih =>
    obtain ⟨hls, htarget⟩ := hv.of_append
    have hname := hls.name
    exact ⟨by omega, ih htarget⟩

/-- The position behind labels that do not wrap. -/
theorem toNat_behind {ls : List (List UInt8)} (hfit : (labelBytes ls).length < 2 ^ 32) :
    (behind 0 ls).toNat = (labelBytes ls).length := by
  have h := behind_ofNat 0 ls
  rw [Nat.zero_add] at h
  exact (congrArg UInt32.toNat h).trans (UInt32.toNat_ofNat_of_lt' hfit)

/-- The extent of a name is its length on the wire. -/
theorem DnsName.extent_eq {name : DnsName} (hfits : name.Fits) : name.extent = .ofNat name.wireLength := by
  cases name with
  | ended ls => rw [extent, wireLength, toNat_behind hfits]
  | linked ls target => rw [extent, wireLength, toNat_behind hfits.1]

/-- The mask leaves the target of a link. -/
theorem link_target {k : Nat} (hk : k < 2 ^ 14) : ((UInt16.ofNat (0xC000 + k)) &&& 0x3FFF).toNat = k := by
  rw [UInt16.toNat_and, UInt16.toNat_ofNat_of_lt' (show 0xC000 + k < 2 ^ 16 by omega)]
  have hmask : (0x3FFF : UInt16).toNat = 2 ^ 14 - 1 := rfl
  rw [hmask, Nat.and_two_pow_sub_one_eq_mod]
  omega

/-- A link begins with two ones. -/
theorem link_byte {k : Nat} (hk : k < 2 ^ 14) : (0xC0 : UInt8) ≤ .ofNat ((0xC000 + k) / 2 ^ 8) := by
  have hlink : (0xC0 : UInt8).toNat = 192 := rfl
  rw [UInt8.le_iff_toNat_le, hlink, UInt8.toNat_ofNat_of_lt' (show (0xC000 + k) / 2 ^ 8 < 2 ^ 8 by omega)]
  omega

/-- A name in the message is one in the buffer. -/
theorem DnsName.At.stored {name : DnsName} {pos : Nat} (h : name.At (buffer.drop off) pos) : name.Stored buffer off (off + pos) := by
  induction name generalizing pos with
  | ended ls => exact at_drop_iff.mp h
  | linked ls target ih =>
    obtain ⟨k, hk, hbytes, htarget⟩ := h
    exact ⟨k, hk, at_drop_iff.mp hbytes, ih htarget⟩

/-- A name in the buffer is a name to the reader. -/
theorem DnsName.reads_of_stored {name : DnsName} {data : Nat} (hgood : GoodLabels name.labels) (hfits : name.Fits)
    (h : name.Stored buffer off data) : name.Reads buffer off data := by
  induction name generalizing data with
  | ended ls =>
    obtain ⟨hlabels, hend⟩ := at_append_iff.mp h
    rw [Reads, toNat_behind hfits]
    constructor
    · exact run_of_at (a := 0) hgood (by rwa [Nat.zero_add]) hlabels
    · exact hend.getElem? (i := 0) rfl
  | linked ls target ih =>
    obtain ⟨k, hk, hbytes, htarget⟩ := h
    obtain ⟨hlabels, hlink⟩ := at_append_iff.mp hbytes
    obtain ⟨hls, hrest⟩ := hfits
    rw [Reads, toNat_behind hls, be16_of_at hlink, link_target hk]
    refine ⟨run_of_at (a := 0) (fun l hl => hgood l (List.mem_append_left _ hl)) (by rwa [Nat.zero_add]) hlabels,
      ⟨_, hlink.getElem? (i := 0) rfl, link_byte hk⟩, hlink.le_length (List.cons_ne_nil _ _), ?_⟩
    exact ih (fun l hl => hgood l (List.mem_append_right _ hl)) hrest htarget

/-- A name that is written is read. -/
theorem DnsName.reads_of_at {name : DnsName} {pos : Nat} (hv : ValidLabels name.labels) (h : name.At (buffer.drop off) pos) :
    name.Reads buffer off (off + pos) := reads_of_stored hv.label hv.fits h.stored

end Names

end Blockmon.Messages.Dns
