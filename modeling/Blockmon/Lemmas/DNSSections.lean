import Blockmon.Lemmas.DNSWire

/-!
# The loops over the sections of a message

What a pass of a loop makes of the record at its cursor, and where the cursor goes. Behind a record of a type that the switch does not know
it stays in front of the data, so the loop over the answers keeps to the message exactly as long as such records have no data.
-/

namespace Blockmon.Messages.Dns

open Layout

namespace Question

/-- What is read. -/
def readAs (q : Question) : QRecord := { rtype := q.rtype, dclass := q.dclass, qname := q.name.text }

end Question

namespace Resource

/-- What the cursor moves on by. -/
def advance (r : Resource) : Nat :=
  r.name.wireLength + 10 + match r.data with
    | .address _ => 4
    | .cname name => name.wireLength
    | .other _ _ => 0

/-- What the parser has of a resource. -/
def readAs (r : Resource) : Answer :=
  match r.data with
  | .address ipAddr => .a { ttl := r.ttl, rtype := 1, dclass := r.dclass, ipAddr := ipAddr, qname := r.name.text }
  | .cname name => .cname { ttl := r.ttl, rtype := 5, dclass := r.dclass, qname := r.name.text, cname := name.text }
  | .other _ _ => .none

/-- The cursor comes to the end of the record. -/
def Skipped (r : Resource) : Prop :=
  match r.data with
  | .other _ data => data = []
  | _ => True

/-- The names that are kept are written without links to the root. -/
def Plain (r : Resource) : Prop :=
  match r.data with
  | .address _ => r.name.Plain
  | .cname name => r.name.Plain ∧ name.Plain
  | .other _ _ => True

/-- The parser goes on behind the resource just when the resource is skipped in full. -/
theorem advance_eq_iff {r : Resource} : r.advance = r.wireLength ↔ r.Skipped := by
  obtain ⟨name, dclass, ttl, data⟩ := r
  rw [advance, wireLength, Skipped]
  cases data with
  | address ipAddr => exact iff_of_true rfl trivial
  | cname name => exact iff_of_true rfl trivial
  | other type data =>
    simp only [RData.wireLength]
    rw [← List.length_eq_zero_iff]
    omega

/-- The parser never goes on behind the end. -/
theorem advance_le (r : Resource) : r.advance ≤ r.wireLength := by
  obtain ⟨name, dclass, ttl, data⟩ := r
  rw [advance, wireLength]
  cases data with
  | address ipAddr => exact Nat.le_refl _
  | cname name => exact Nat.le_refl _
  | other type data => exact Nat.add_le_add_left (Nat.zero_le _) _

end Resource

/-! ## What is returned does not depend on the fuel -/

section Settled

variable (buffer : List UInt8) (dnsStart : Nat)

/-- More fuel changes no name. -/
theorem settled_readDnsName (consumed : UInt16) (data : Nat) :
    Fuel.Settled fun fuel => readDnsName buffer dnsStart fuel consumed data := by
  intro fuel r h
  obtain ⟨name, hreads, rfl⟩ := reads_of_readDnsName h
  exact hreads.returns consumed

/-- More fuel changes no question. -/
theorem settled_readQuestion (qOffset s : UInt16) : Fuel.Settled fun fuel => readQuestion buffer dnsStart fuel qOffset s :=
  (settled_readDnsName buffer dnsStart _ _).bind fun _ => Fuel.settled_const _

/-- More fuel changes no questions. -/
theorem settled_readQuestions (qOffset : UInt16) (n : Nat) (s : UInt16) :
    Fuel.Settled fun fuel => readQuestions buffer dnsStart fuel qOffset n s := by
  induction n generalizing s with
  | zero => exact Fuel.settled_const _
  | succ n ih => exact (settled_readQuestion buffer dnsStart qOffset s).bind fun q => (ih q.1).bind fun _ => Fuel.settled_const _

/-- More fuel changes no data. -/
theorem settled_readData (aOffset aSize type dclass : UInt16) (ttl : UInt32) (tmp : List UInt8) :
    Fuel.Settled fun fuel => readData buffer dnsStart fuel aOffset aSize type dclass ttl tmp := by
  simp only [readData]
  by_cases ha : type = 1
  · simp only [if_pos ha]
    exact Fuel.settled_const _
  · simp only [if_neg ha]
    by_cases hcname : type = 5
    · simp only [if_pos hcname]
      exact (settled_readDnsName buffer dnsStart _ _).bind fun _ => Fuel.settled_const _
    · simp only [if_neg hcname]
      exact Fuel.settled_const _

/-- More fuel changes no answer. -/
theorem settled_readAnswer (aOffset s : UInt16) : Fuel.Settled fun fuel => readAnswer buffer dnsStart fuel aOffset s := by
  refine (settled_readDnsName buffer dnsStart _ _).bind fun tmp => ?_
  refine (Fuel.settled_const _).bind fun type => ?_
  refine (Fuel.settled_const _).bind fun dclass => ?_
  exact (Fuel.settled_const _).bind fun ttl => settled_readData buffer dnsStart _ _ _ _ _ _

/-- More fuel changes no answers. -/
theorem settled_readAnswers (aOffset : UInt16) (n : Nat) (s : UInt16) :
    Fuel.Settled fun fuel => readAnswers buffer dnsStart fuel aOffset n s := by
  induction n generalizing s with
  | zero => exact Fuel.settled_const _
  | succ n ih => exact (settled_readAnswer buffer dnsStart aOffset s).bind fun a => (ih a.1).bind fun _ => Fuel.settled_const _

end Settled

/-! ## One record -/

section Record

variable {buffer : List UInt8} {off base a : Nat} {cursor : UInt16}

/-- Two bytes further. -/
theorem ofNat_add_two (n : Nat) : UInt16.ofNat n + 2 = .ofNat (n + 2) := (UInt16.ofNat_add n 2).symm

/-- Four bytes further. -/
theorem ofNat_add_four (n : Nat) : UInt16.ofNat n + 4 = .ofNat (n + 4) := (UInt16.ofNat_add n 4).symm

/-- The place of a cursor that has not wrapped. -/
theorem place_eq (hcursor : cursor.toNat = off + base) {n : Nat} (hn : n < 2 ^ 16) :
    cursor.toNat + (UInt16.ofNat n).toNat = off + (base + n) := by
  rw [hcursor, UInt16.toNat_ofNat_of_lt' hn, Nat.add_assoc]

/-- A question that is written is read. -/
theorem returns_readQuestion_at {q : Question} (hcursor : cursor.toNat = off + base) (h : q.At (buffer.drop off) (base + a))
    (hfit : a + q.wireLength < 2 ^ 16) :
    Fuel.Returns (fun fuel => readQuestion buffer off fuel cursor (.ofNat a)) (.ofNat (a + q.wireLength), q.readAs) := by
  obtain ⟨⟨hv, hname⟩, hfields⟩ := h
  obtain ⟨htype, hclass⟩ := at_append_iff.mp (at_drop_iff.mp hfields)
  rw [Question.wireLength] at hfit
  have hname := DnsName.reads_of_at hv hname
  have hbehind : UInt16.ofNat a + q.name.extent = .ofNat (a + q.name.wireLength) := by rw [DnsName.extent_eq hv.fits, UInt16.ofNat_add]
  have hplace := place_eq (n := a) hcursor (by omega)
  have htypeAt := place_eq (n := a + q.name.wireLength) hcursor (by omega)
  have hclassAt := place_eq (n := a + q.name.wireLength + 2) hcursor (by omega)
  simp only [← Nat.add_assoc, length_num16] at hname hplace htypeAt hclassAt htype hclass
  have hname : q.name.Reads buffer off (cursor.toNat + (UInt16.ofNat a).toNat) := hplace ▸ hname
  have hread := returns_readQuestion hname
    (by rw [hbehind, htypeAt]; exact htype.le_length (List.cons_ne_nil _ _))
    (by rw [hbehind, ofNat_add_two, hclassAt]; exact hclass.le_length (List.cons_ne_nil _ _))
  simp only [hbehind, ofNat_add_two, htypeAt, hclassAt, be16_of_at htype, be16_of_at hclass, UInt16.ofNat_toNat] at hread
  exact hread

/-- The switch at the data of a record. -/
theorem returns_readData_at {r : Resource} (hcursor : cursor.toNat = off + base)
    (h : r.data.At (buffer.drop off) (base + a)) (hfit : a + r.data.wireLength < 2 ^ 16) :
    Fuel.Returns (fun fuel => readData buffer off fuel cursor (.ofNat a) r.data.type r.dclass r.ttl r.name.text)
      (.ofNat (a + (r.advance - (r.name.wireLength + 10))), r.readAs) := by
  obtain ⟨name, dclass, ttl, data⟩ := r
  have hplace := place_eq (n := a) hcursor (by omega)
  rw [Resource.advance, Nat.add_sub_cancel_left]
  cases data with
  | address ipAddr =>
    have hbytes := at_drop_iff.mp h
    have hload : loadBEu32 buffer (cursor.toNat + (UInt16.ofNat a).toNat) = .ok ipAddr := by
      rw [hplace, loadBEu32_eq_ok_iff]
      refine ⟨hbytes.le_length (List.cons_ne_nil _ _), ?_⟩
      rw [be32_of_at hbytes, UInt32.ofNat_toNat]
    have hread : ∀ fuel, readData buffer off fuel cursor (.ofNat a) 1 dclass ttl name.text =
        .ok (.ofNat (a + 4), Resource.readAs ⟨name, dclass, ttl, .address ipAddr⟩) := by
      intro fuel
      rw [readData, if_pos rfl, Exn.except_bind_of_ok hload, ofNat_add_four]
      rfl
    exact ⟨0, fun fuel _ => hread fuel⟩
  | cname cname =>
    obtain ⟨hv, hname⟩ := h
    have hreads := DnsName.reads_of_at hv hname
    rw [← hplace] at hreads
    refine (hreads.returns 0).bind (Fuel.returns_const _ ?_)
    rw [UInt16.zero_add, DnsName.extent_eq hv.fits, ← UInt16.ofNat_add]
    rfl
  | other type data =>
    obtain ⟨⟨ha, hcname⟩, -⟩ := h
    have hread : ∀ fuel, readData buffer off fuel cursor (.ofNat a) type dclass ttl name.text =
        .ok (.ofNat a, Resource.readAs ⟨name, dclass, ttl, .other type data⟩) := by
      intro fuel
      rw [readData, if_neg ha, if_neg hcname]
      rfl
    exact ⟨0, fun fuel _ => hread fuel⟩

/-- A pass over an answer. -/
theorem returns_readAnswer_at {r : Resource} (hcursor : cursor.toNat = off + base) (h : r.At (buffer.drop off) (base + a))
    (hfit : a + r.wireLength < 2 ^ 16) :
    Fuel.Returns (fun fuel => readAnswer buffer off fuel cursor (.ofNat a)) (.ofNat (a + r.advance), r.readAs) := by
  obtain ⟨⟨hv, hname⟩, hfields, hdata⟩ := h
  obtain ⟨hfields, -⟩ := at_append_iff.mp (at_drop_iff.mp hfields)
  obtain ⟨hfields, httl⟩ := at_append_iff.mp hfields
  obtain ⟨htype, hclass⟩ := at_append_iff.mp hfields
  rw [Resource.wireLength] at hfit
  have hname := DnsName.reads_of_at hv hname
  have hbehind : UInt16.ofNat a + r.name.extent = .ofNat (a + r.name.wireLength) := by rw [DnsName.extent_eq hv.fits, UInt16.ofNat_add]
  have hplace := place_eq (n := a) hcursor (by omega)
  have htypeAt := place_eq (n := a + r.name.wireLength) hcursor (by omega)
  have hclassAt := place_eq (n := a + r.name.wireLength + 2) hcursor (by omega)
  have httlAt := place_eq (n := a + r.name.wireLength + 2 + 2) hcursor (by omega)
  have hdataAt : r.data.At (buffer.drop off) (base + (a + r.name.wireLength + 2 + 2 + 4 + 2)) := by
    simpa only [Nat.add_assoc] using hdata
  have hread := returns_readData_at hcursor hdataAt (by omega)
  have hnext : a + r.name.wireLength + 2 + 2 + 4 + 2 + (r.advance - (r.name.wireLength + 10)) = a + r.advance := by
    rw [Resource.advance, Nat.add_sub_cancel_left]
    omega
  rw [hnext] at hread
  simp only [← Nat.add_assoc, List.length_append, length_num16] at hname hplace htypeAt hclassAt httlAt htype hclass httl
  have hname : r.name.Reads buffer off (cursor.toNat + (UInt16.ofNat a).toNat) := hplace ▸ hname
  refine returns_readAnswer hname ?_ ?_ ?_ ?_
  · rw [hbehind, htypeAt]
    exact htype.le_length (List.cons_ne_nil _ _)
  · rw [hbehind, ofNat_add_two, hclassAt]
    exact hclass.le_length (List.cons_ne_nil _ _)
  · rw [hbehind, ofNat_add_two, ofNat_add_two, httlAt]
    exact httl.le_length (List.cons_ne_nil _ _)
  · simp only [hbehind, ofNat_add_two, ofNat_add_four, htypeAt, hclassAt, httlAt, be16_of_at htype, be16_of_at hclass,
      be32_of_at httl, UInt16.ofNat_toNat, UInt32.ofNat_toNat]
    exact hread

end Record

/-! ## The loops -/

section Sections

variable {buffer : List UInt8} {off base : Nat} {cursor : UInt16}

/-- Questions that are written are read. -/
theorem returns_readQuestions_at {qs : List Question} {a : Nat} (hcursor : cursor.toNat = off + base)
    (h : Laid (Question.At (buffer.drop off)) Question.wireLength qs (base + a))
    (hfit : a + total Question.wireLength qs < 2 ^ 16) :
    Fuel.Returns (fun fuel => readQuestions buffer off fuel cursor qs.length (.ofNat a))
      (.ofNat (a + total Question.wireLength qs),
        (placed Question.wireLength qs (off + (base + a))).map (Prod.map id Question.readAs)) := by
  induction qs generalizing a with
  | nil => exact Fuel.returns_const _ rfl
  | cons q qs ih =>
    obtain ⟨hq, hqs⟩ := h
    rw [total_cons, ← Nat.add_assoc] at hfit
    rw [Nat.add_assoc] at hqs
    have hrest := ih hqs hfit
    have hshift : off + (base + (a + q.wireLength)) = off + (base + a) + q.wireLength := by omega
    rw [hshift, Nat.add_assoc a] at hrest
    refine (returns_readQuestion_at hcursor hq (by omega)).bind (hrest.bind (Fuel.returns_const _ ?_))
    rw [place_eq hcursor (by omega), total_cons, placed, List.map_cons]
    rfl

/-- Answers that are written are read. -/
theorem returns_readAnswers_at {rs : List Resource} {a : Nat} (hcursor : cursor.toNat = off + base)
    (h : Laid (Resource.At (buffer.drop off)) Resource.wireLength rs (base + a))
    (hfit : a + total Resource.wireLength rs < 2 ^ 16) (hskip : ∀ r ∈ rs.dropLast, r.Skipped) :
    Fuel.Returns (fun fuel => readAnswers buffer off fuel cursor rs.length (.ofNat a))
      ((placed Resource.wireLength rs (off + (base + a))).map (Prod.map id Resource.readAs)) := by
  induction rs generalizing a with
  | nil => exact Fuel.returns_const _ rfl
  | cons r rs ih =>
    obtain ⟨hr, hrs⟩ := h
    rw [total_cons, ← Nat.add_assoc] at hfit
    rw [Nat.add_assoc] at hrs
    have hread := returns_readAnswer_at hcursor hr (by omega)
    have hplace := place_eq (n := a) hcursor (by omega)
    cases rs with
    | nil =>
      refine hread.bind (Fuel.returns_const _ ?_)
      rw [hplace]
      rfl
    | cons r' rs =>
      have hadvance := Resource.advance_eq_iff.mpr (hskip r List.mem_cons_self)
      rw [hadvance] at hread
      have hrest := ih hrs hfit fun x hx => hskip x (List.mem_cons_of_mem _ hx)
      have hshift : off + (base + (a + r.wireLength)) = off + (base + a) + r.wireLength := by omega
      rw [hshift] at hrest
      refine hread.bind (hrest.bind (Fuel.returns_const _ ?_))
      rw [hplace]
      rfl

/-- The first answer is looked for at the cursor. -/
theorem readAnswers_head {fuel n : Nat} {s : UInt16} {answers : List (Nat × Answer)}
    (h : readAnswers buffer off fuel cursor (n + 1) s = .ok answers) :
    ∃ r rest, readAnswer buffer off fuel cursor s = .ok r ∧ readAnswers buffer off fuel cursor n r.1 = .ok rest ∧
      answers = (cursor.toNat + s.toNat, r.2) :: rest := by
  obtain ⟨r, hr, h⟩ := Exn.except_bind_eq_ok.mp h
  obtain ⟨rest, hrest, h⟩ := Exn.except_bind_eq_ok.mp h
  exact ⟨r, rest, hr, hrest, (Except.ok.inj h).symm⟩

/-- Answers are at their places only if the cursor comes to the end of each one that another one follows. -/
theorem skipped_of_places {fuel a : Nat} {rs : List Resource} {answers : List (Nat × Answer)} (hcursor : cursor.toNat = off + base)
    (h : Laid (Resource.At (buffer.drop off)) Resource.wireLength rs (base + a))
    (hfit : a + total Resource.wireLength rs < 2 ^ 16)
    (hread : readAnswers buffer off fuel cursor rs.length (.ofNat a) = .ok answers)
    (hplaces : answers.map Prod.fst = (placed Resource.wireLength rs (off + (base + a))).map Prod.fst) :
    ∀ r ∈ rs.dropLast, r.Skipped := by
  induction rs generalizing a answers with
  | nil => exact nofun
  | cons r rs ih =>
    obtain ⟨hr, hrs⟩ := h
    rw [total_cons, ← Nat.add_assoc] at hfit
    rw [Nat.add_assoc] at hrs
    obtain ⟨x, rest, hx, hrest, rfl⟩ := readAnswers_head hread
    have hfirst := (settled_readAnswer buffer off cursor (.ofNat a)).eq hx (returns_readAnswer_at hcursor hr (by omega))
    subst hfirst
    cases rs with
    | nil => exact nofun
    | cons r' rs =>
      rw [placed, List.map_cons, List.map_cons] at hplaces
      have hplaces := (List.cons.inj hplaces).2
      -- the place of the next answer
      have hnext : cursor.toNat + (UInt16.ofNat (a + r.advance)).toNat = off + (base + a) + r.wireLength := by
        obtain ⟨y, rest', -, -, hrest⟩ := readAnswers_head hrest
        rw [hrest, placed, List.map_cons, List.map_cons] at hplaces
        exact (List.cons.inj hplaces).1
      have hle := r.advance_le
      rw [place_eq hcursor (by omega)] at hnext
      have hadvance : r.advance = r.wireLength := by omega
      rw [hadvance] at hrest
      have hshift : off + (base + a) + r.wireLength = off + (base + (a + r.wireLength)) := by omega
      rw [hshift] at hplaces
      have htail := ih hrs hfit hrest hplaces
      intro x hx
      rcases List.mem_cons.mp hx with rfl | hx
      · exact Resource.advance_eq_iff.mp hadvance
      · exact htail x hx

end Sections

end Blockmon.Messages.Dns
