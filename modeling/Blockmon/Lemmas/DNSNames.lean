import Blockmon.DNSPacket
import Blockmon.Lib.Fuel

/-!
# Reading DNS names

A name in memory is a run of labels that ends at a zero byte or at a link to another name; the reader returns exactly if what it finds is
a name in this sense, of finite depth and inside of the buffer.
-/

namespace Blockmon.Messages.Dns

/-- The labels of a name, and where a link at their end leads to. -/
inductive DnsName where
  | ended (labels : List (List UInt8))
  | linked (labels : List (List UInt8)) (target : DnsName)

/-- Places in the buffer. -/
abbrev InBuffer (buffer : List UInt8) (off n : Nat) : Prop := off + n ≤ buffer.length

section Loads

variable {buffer : List UInt8} {off : Nat}

/-- A byte is read just where there is one. -/
theorem byteAt_eq_ok_iff {b : UInt8} : byteAt buffer off = .ok b ↔ buffer[off]? = some b := by
  rw [byteAt]
  cases h : buffer[off]? with
  | none => simp
  | some b' => simp

/-- Bytes are read just where there are as many. -/
theorem bytesAt_eq_ok_iff {n : Nat} {l : List UInt8} :
    bytesAt buffer off n = .ok l ↔ InBuffer buffer off n ∧ (buffer.drop off).take n = l := by
  rw [bytesAt]
  split
  · next h => simp [h]
  · next h => simp [h]

/-- As many bytes are read as asked for. -/
theorem length_of_bytesAt {n : Nat} {l : List UInt8} (h : bytesAt buffer off n = .ok l) : l.length = n := by
  obtain ⟨hin, rfl⟩ := bytesAt_eq_ok_iff.mp h
  rw [List.length_take, List.length_drop]
  omega

/-- Two bytes as a number, the most significant first. -/
def be16 (buffer : List UInt8) (off : Nat) : UInt16 := .ofNat ((u8 buffer off).toNat * 2 ^ 8 + (u8 buffer (off + 1)).toNat)

/-- A number of 32 bits in network order. -/
def be32 (buffer : List UInt8) (off : Nat) : UInt32 := .ofNat ((be16 buffer off).toNat * 2 ^ 16 + (be16 buffer (off + 2)).toNat)

/-- A byte inside of the buffer. -/
theorem byteAt_of_lt (h : off < buffer.length) : byteAt buffer off = .ok (u8 buffer off) := by
  rw [byteAt_eq_ok_iff, u8, List.getD_eq_getElem?_getD, List.getElem?_eq_getElem h]
  rfl

/-- A byte outside of the buffer. -/
theorem byteAt_of_not_lt (h : ¬off < buffer.length) : byteAt buffer off = .error .outOfBounds := by
  rw [byteAt, List.getElem?_eq_none (Nat.le_of_not_lt h)]

/-- The read of 16 bits. -/
theorem loadBEu16_eq : loadBEu16 buffer off = if InBuffer buffer off 2 then .ok (be16 buffer off) else .error .outOfBounds := by
  rw [loadBEu16]
  by_cases h : off < buffer.length
  · rw [byteAt_of_lt h]
    by_cases h' : off + 1 < buffer.length
    · rw [byteAt_of_lt h', if_pos (by omega)]
      rfl
    · rw [byteAt_of_not_lt h', if_neg (by omega)]
      rfl
  · rw [byteAt_of_not_lt h, if_neg (by omega)]
    rfl

/-- The read of 32 bits. -/
theorem loadBEu32_eq : loadBEu32 buffer off = if InBuffer buffer off 4 then .ok (be32 buffer off) else .error .outOfBounds := by
  rw [loadBEu32, loadBEu16_eq, loadBEu16_eq]
  by_cases h : off + 2 ≤ buffer.length
  · rw [if_pos h]
    by_cases h' : off + 4 ≤ buffer.length
    · rw [if_pos h', if_pos (by omega)]
      rfl
    · rw [if_neg h', if_neg (by omega)]
      rfl
  · have h' : ¬InBuffer buffer off 4 := by omega
    rw [if_neg h]
    exact (if_neg h').symm

/-- The target of a link is read just inside of the buffer. -/
theorem readJump_eq_ok_iff {jump : Nat} :
    readJump buffer off = .ok jump ↔ InBuffer buffer off 2 ∧ (be16 buffer off &&& 0x3FFF).toNat = jump := by
  rw [readJump, loadBEu16_eq]
  by_cases h : InBuffer buffer off 2
  · rw [if_pos h]
    exact ⟨fun h' => ⟨h, Except.ok.inj h'⟩, fun h' => congrArg Except.ok h'.2⟩
  · rw [if_neg h]
    exact ⟨nofun, fun h' => absurd h'.1 h⟩

end Loads

/-! ## A run of labels -/

/-- The counter behind the labels. -/
def behind (i : UInt32) : List (List UInt8) → UInt32
  | [] => i
  | l :: ls => behind (i + 1 + .ofNat l.length) ls

/-- The name with the labels put behind it. -/
def spell (i : UInt32) (ret : List UInt8) : List (List UInt8) → List UInt8
  | [] => ret
  | l :: ls => spell (i + 1 + .ofNat l.length) ((if i + 1 ≠ 1 then ret ++ [dot] else ret) ++ l) ls

/-- The byte at which the reader stops reading labels. -/
def Stops (j : UInt8) : Prop := ¬(j ≠ 0 ∧ j < 0xC0)

section Names

variable (buffer : List UInt8) (data : Nat)

/-- Labels in memory, each behind its length. -/
def Run (i : UInt32) : List (List UInt8) → Prop
  | [] => True
  | l :: ls =>
    (∃ j, buffer[data + i.toNat]? = some j ∧ ¬Stops j ∧ bytesAt buffer (data + (i + 1).toNat) j.toNat = .ok l) ∧
      Run (i + 1 + .ofNat l.length) ls

variable {buffer data}

/-- The labels that the loop reads. -/
theorem readLabels_eq_ok_iff {fuel : Nat} {i i' : UInt32} {j j' : UInt8} {ret ret' : List UInt8} (hj : buffer[data + i.toNat]? = some j) :
    readLabels buffer data fuel i j ret = .ok (i', j', ret') ↔
      ∃ ls, ls.length < fuel ∧ Run buffer data i ls ∧ behind i ls = i' ∧ spell i ret ls = ret' ∧
        buffer[data + i'.toNat]? = some j' ∧ Stops j' := by
  induction fuel generalizing i j ret with
  | zero =>
    rw [readLabels]
    constructor
    · intro h
      cases h
    · rintro ⟨ls, hfuel, -⟩
      exact absurd hfuel (Nat.not_lt_zero _)
  | succ fuel ih =>
    rw [readLabels]
    by_cases hstop : j ≠ 0 ∧ j < 0xC0
    · rw [if_pos hstop]
      constructor
      · intro h
        obtain ⟨l, hlabel, h⟩ := Exn.except_bind_eq_ok.mp h
        obtain ⟨next, hnext, h⟩ := Exn.except_bind_eq_ok.mp h
        obtain ⟨ls, hlen, hrun, hbehind, hspell, hend⟩ := (ih (byteAt_eq_ok_iff.mp hnext)).mp h
        exact ⟨l :: ls, Nat.succ_lt_succ hlen, ⟨⟨j, hj, not_not.mpr hstop, hlabel⟩, hrun⟩, hbehind, hspell, hend⟩
      · rintro ⟨ls, hlen, hrun, hbehind, hspell, hend, hstops⟩
        cases ls with
        | nil =>
          rw [behind] at hbehind
          subst hbehind
          rw [hj] at hend
          cases hend
          exact absurd hstop hstops
        | cons l ls =>
          obtain ⟨⟨k, hk, -, hlabel⟩, hrun⟩ := hrun
          rw [hj] at hk
          cases hk
          -- the byte behind the label begins another one or ends the run
          have hnext : ∃ next, buffer[data + (i + 1 + .ofNat l.length).toNat]? = some next := by
            cases ls with
            | nil =>
              rw [behind, behind] at hbehind
              exact ⟨j', hbehind ▸ hend⟩
            | cons l' ls =>
              obtain ⟨⟨k, hk, -⟩, -⟩ := hrun
              exact ⟨k, hk⟩
          obtain ⟨next, hnext⟩ := hnext
          rw [Exn.except_bind_of_ok hlabel, Exn.except_bind_of_ok (byteAt_eq_ok_iff.mpr hnext)]
          exact (ih hnext).mpr ⟨ls, Nat.lt_of_succ_lt_succ hlen, hrun, hbehind, hspell, hend, hstops⟩
    · rw [if_neg hstop]
      constructor
      · intro h
        simp only [Except.ok.injEq, Prod.mk.injEq] at h
        obtain ⟨rfl, rfl, rfl⟩ := h
        exact ⟨[], Nat.succ_pos _, trivial, rfl, rfl, hj, hstop⟩
      · rintro ⟨ls, -, hrun, hbehind, hspell, hend, -⟩
        cases ls with
        | nil =>
          rw [behind] at hbehind
          rw [spell] at hspell
          subst hbehind hspell
          rw [hj] at hend
          cases hend
          rfl
        | cons l ls =>
          obtain ⟨⟨k, hk, hcont, -⟩, -⟩ := hrun
          rw [hj] at hk
          cases hk
          exact absurd hstop hcont

end Names

/-! ## Names -/

namespace DnsName

/-- What the reader adds to `*consumed`. -/
def extent : DnsName → UInt16
  | ended ls => .ofNat ((behind 0 ls).toNat + 1)
  | linked ls _ => .ofNat ((behind 0 ls).toNat + 2)

/-- What the reader makes of a name. -/
def text : DnsName → List UInt8
  | ended ls => spell 0 [] ls
  | linked [] target => target.text
  | linked (l :: ls) target => spell 0 [] (l :: ls) ++ [dot] ++ target.text

/-- The fuel that reading it takes. -/
def depth : DnsName → Nat
  | ended ls => ls.length + 1
  | linked ls target => max (ls.length + 1) (target.depth + 1)

/-- A name in memory. Links count from the beginning of the message. -/
def Reads (buffer : List UInt8) (dnsStart : Nat) : DnsName → Nat → Prop
  | ended ls, data => Run buffer data 0 ls ∧ buffer[data + (behind 0 ls).toNat]? = some 0
  | linked ls target, data =>
    Run buffer data 0 ls ∧ (∃ j, buffer[data + (behind 0 ls).toNat]? = some j ∧ 0xC0 ≤ j) ∧
      InBuffer buffer (data + (behind 0 ls).toNat) 2 ∧
        target.Reads buffer dnsStart (dnsStart + (be16 buffer (data + (behind 0 ls).toNat) &&& 0x3FFF).toNat)

end DnsName

section Read

variable {buffer : List UInt8} {dnsStart : Nat}

/-- The loop stops at a zero or at a link. -/
theorem stops_iff {j : UInt8} : Stops j ↔ j = 0 ∨ 0xC0 ≤ j := by
  rw [Stops, Decidable.not_and_iff_not_or_not, not_not, UInt8.not_lt]

/-- The first byte of a name that does not begin with a link. -/
theorem first_lt_of_run {data : Nat} {l : List UInt8} {ls : List (List UInt8)} (h : Run buffer data 0 (l :: ls)) :
    ∃ first, buffer[data]? = some first ∧ first < 0xC0 := by
  obtain ⟨⟨j, hj, hcont, -⟩, -⟩ := h
  exact ⟨j, hj, (not_not.mp hcont).2⟩

/-- A name that is read is one in memory. -/
theorem reads_of_readDnsName {fuel : Nat} {consumed : UInt16} {data : Nat} {r : UInt16 × List UInt8}
    (h : readDnsName buffer dnsStart fuel consumed data = .ok r) :
    ∃ name : DnsName, name.Reads buffer dnsStart data ∧ r = (consumed + name.extent, name.text) := by
  induction fuel generalizing consumed data r with
  | zero => cases h
  | succ fuel ih =>
    rw [readDnsName] at h
    obtain ⟨first, hfirst, h⟩ := Exn.except_bind_eq_ok.mp h
    have hfirst := byteAt_eq_ok_iff.mp hfirst
    by_cases hlabel : first < 0xC0
    · rw [if_pos hlabel] at h
      obtain ⟨⟨i, j, ret⟩, hlabels, h⟩ := Exn.except_bind_eq_ok.mp h
      obtain ⟨ls, -, hrun, rfl, rfl, hend, hstops⟩ := (readLabels_eq_ok_iff hfirst).mp hlabels
      by_cases hzero : j = 0
      · rw [if_neg (not_not.mpr hzero)] at h
        exact ⟨.ended ls, ⟨hrun, hzero ▸ hend⟩, (Except.ok.inj h).symm⟩
      · rw [if_pos hzero] at h
        have hlink := (stops_iff.mp hstops).resolve_left hzero
        obtain ⟨jump, hjump, h⟩ := Exn.except_bind_eq_ok.mp h
        obtain ⟨tmp, htarget, h⟩ := Exn.except_bind_eq_ok.mp h
        obtain ⟨hin, rfl⟩ := readJump_eq_ok_iff.mp hjump
        obtain ⟨target, hreads, rfl⟩ := ih htarget
        cases ls with
        | nil =>
          -- a name without labels begins with its link
          have hj : first = j := Option.some.inj (hfirst.symm.trans hend)
          exact absurd (hj ▸ hlabel) (UInt8.not_lt.mpr hlink)
        | cons l ls => exact ⟨.linked (l :: ls) target, ⟨hrun, ⟨j, hend, hlink⟩, hin, hreads⟩, (Except.ok.inj h).symm⟩
    · rw [if_neg hlabel] at h
      obtain ⟨jump, hjump, h⟩ := Exn.except_bind_eq_ok.mp h
      obtain ⟨ret, htarget, h⟩ := Exn.except_bind_eq_ok.mp h
      obtain ⟨hin, rfl⟩ := readJump_eq_ok_iff.mp hjump
      obtain ⟨target, hreads, rfl⟩ := ih htarget
      exact ⟨.linked [] target, ⟨trivial, ⟨first, hfirst, UInt8.not_lt.mp hlabel⟩, hin, hreads⟩, (Except.ok.inj h).symm⟩

/-- A name in memory is read, with fuel for its depth. -/
theorem DnsName.Reads.readDnsName_eq {name : DnsName} {data : Nat} (h : name.Reads buffer dnsStart data) {fuel : Nat}
    (hfuel : name.depth ≤ fuel) (consumed : UInt16) :
    readDnsName buffer dnsStart fuel consumed data = .ok (consumed + name.extent, name.text) := by
  induction name generalizing fuel consumed data with
  | ended ls =>
    obtain ⟨fuel, rfl⟩ := Nat.exists_eq_add_of_le' (le_trans (Nat.succ_le_succ (Nat.zero_le _)) hfuel)
    obtain ⟨hrun, hend⟩ := h
    have hfirst : ∃ first, buffer[data]? = some first ∧ first < 0xC0 := by
      cases ls with
      | nil => exact ⟨0, hend, by decide⟩
      | cons l ls => exact first_lt_of_run hrun
    obtain ⟨first, hfirst, hlabel⟩ := hfirst
    have hlabels : readLabels buffer data (fuel + 1) 0 first [] = .ok (behind 0 ls, 0, spell 0 [] ls) :=
      (readLabels_eq_ok_iff hfirst).mpr ⟨ls, hfuel, hrun, rfl, rfl, hend, stops_iff.mpr (Or.inl rfl)⟩
    rw [readDnsName, Exn.except_bind_of_ok (byteAt_eq_ok_iff.mpr hfirst), if_pos hlabel, Exn.except_bind_of_ok hlabels]
    rfl
  | linked ls target ih =>
    obtain ⟨fuel, rfl⟩ := Nat.exists_eq_add_of_le' (le_trans (Nat.succ_le_succ (Nat.zero_le _)) (le_trans (le_max_right _ _) hfuel))
    obtain ⟨hrun, ⟨j, hend, hlink⟩, hin, htarget⟩ := h
    have hread := ih htarget (Nat.le_of_succ_le_succ (le_trans (le_max_right _ _) hfuel)) 0
    have hjump := readJump_eq_ok_iff.mpr ⟨hin, rfl⟩
    cases ls with
    | nil =>
      have hfirst : buffer[data]? = some j := hend
      have hjump : readJump buffer data = .ok (be16 buffer data &&& 0x3FFF).toNat := hjump
      rw [readDnsName, Exn.except_bind_of_ok (byteAt_eq_ok_iff.mpr hfirst), if_neg (UInt8.not_lt.mpr hlink),
        Exn.except_bind_of_ok hjump]
      exact Exn.except_bind_of_ok hread
    | cons l ls =>
      obtain ⟨first, hfirst, hlabel⟩ := first_lt_of_run hrun
      have hne : j ≠ 0 := by
        rintro rfl
        exact absurd hlink (by decide)
      have hlabels : readLabels buffer data (fuel + 1) 0 first [] = .ok (behind 0 (l :: ls), j, spell 0 [] (l :: ls)) :=
        (readLabels_eq_ok_iff hfirst).mpr
          ⟨l :: ls, le_trans (le_max_left _ _) hfuel, hrun, rfl, rfl, hend, stops_iff.mpr (Or.inr hlink)⟩
      rw [readDnsName, Exn.except_bind_of_ok (byteAt_eq_ok_iff.mpr hfirst), if_pos hlabel, Exn.except_bind_of_ok hlabels]
      rw [if_pos hne, Exn.except_bind_of_ok hjump, Exn.except_bind_of_ok hread]
      rfl

/-- A name that is there is read, with fuel enough. -/
theorem DnsName.Reads.returns {name : DnsName} {data : Nat} (h : name.Reads buffer dnsStart data) (consumed : UInt16) :
    Fuel.Returns (fun fuel => readDnsName buffer dnsStart fuel consumed data) (consumed + name.extent, name.text) :=
  ⟨name.depth, fun _ hfuel => h.readDnsName_eq hfuel consumed⟩

end Read

end Blockmon.Messages.Dns
