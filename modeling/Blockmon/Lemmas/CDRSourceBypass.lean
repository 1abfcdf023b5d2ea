import Blockmon.CDRSourceBypass
import Blockmon.Lib.Faults

/-!
# The fields of a line

The text of a line is what comes before its first zero, and its fields are the parts between the separators. The loop over the line puts a zero in
the place of each separator, so that the fields are strings one behind the other, and writes the offsets of the zeros but the last.
-/

namespace Blockmon.CDRSource

open CStrings Faults

/-! ## Faults -/

section Faults

variable {α : Type} {P : CDRFault → Prop}

/-- What is inside of an array is there. -/
theorem inside_eq_ok_iff {a : α} {o : Option α} : inside o = .ok a ↔ o = some a := by
  cases o with
  | none => simp [inside]
  | some b => simp [inside]

/-- An access has no fault but the one of memory. -/
theorem faults_inside (hP : P .outOfBounds) (a : Option α) : Only P (inside a) := by
  cases a with
  | none => exact only_error.mpr hP
  | some a => exact only_ok P a

/-- An offset has no fault but that of a use before it is written. -/
theorem faults_offsetAt (hP : P .unwritten) (offset : List Nat) (k : Nat) : Only P (offsetAt offset k) := by
  rw [offsetAt]
  split
  · exact only_ok P _
  · exact only_error.mpr hP

end Faults

/-! ## The loop over a line -/

section Separators

/-- The positions of the zeros of the strings but the last, from the position `i` on. -/
def ends (i : Nat) : List (List UInt8) → List Nat
  | [] => []
  | [_] => []
  | s :: t :: strings => (i + s.length) :: ends (i + s.length + 1) (t :: strings)

variable {strings : List (List UInt8)} {s t text rest : List UInt8} {n i k : Nat}

@[simp] theorem length_ends (i : Nat) (strings : List (List UInt8)) : (ends i strings).length = strings.length - 1 := by
  fun_induction ends i strings with
  | case1 => rfl
  | case2 => rfl
  | case3 i s t strings ih => simp [ih]

/-- An empty string ends where it begins. -/
theorem ends_nil_cons (hne : strings ≠ []) (i : Nat) : ends i ([] :: strings) = i :: ends (i + 1) strings := by
  cases strings with
  | nil => exact absurd rfl hne
  | cons t strings => simp [ends]

/-- A character moves the ends of its string. -/
theorem ends_cons_cons (c : UInt8) (s : List UInt8) (strings : List (List UInt8)) (i : Nat) :
    ends i ((c :: s) :: strings) = ends (i + 1) (s :: strings) := by
  cases strings with
  | nil => rfl
  | cons t strings =>
    have hpos : i + (c :: s).length = i + 1 + s.length := by
      rw [List.length_cons]
      omega
    rw [ends, ends, hpos]

/-- The end of a string. -/
theorem getElem?_ends (hk : strings[k]? = some s) (hlt : k + 1 < strings.length) (i : Nat) :
    (ends i strings)[k]? = some (i + (start strings k + s.length)) := by
  induction strings generalizing k i with
  | nil => cases hk
  | cons t strings ih =>
    cases strings with
    | nil => simp at hlt
    | cons u strings =>
      cases k with
      | zero =>
        obtain rfl := Option.some.inj hk
        simp [ends]
      | succ k =>
        rw [ends, List.getElem?_cons_succ, ih hk (by simpa using hlt), start_cons_succ]
        congr 1
        omega

/-- A separator ends an empty string. -/
theorem splitOn_cons_separator (text : List UInt8) : (separator :: text).splitOn separator = [] :: text.splitOn separator := by
  rw [List.splitOn_cons_eq_if_modifyHead, if_pos (by simp)]

/-- Any other character belongs to the first string. -/
theorem splitOn_cons_of_ne {c : UInt8} (hc : c ≠ separator) (text : List UInt8) :
    ∃ s strings, text.splitOn separator = s :: strings ∧ (c :: text).splitOn separator = (c :: s) :: strings := by
  obtain ⟨s, strings, heq⟩ := List.exists_cons_of_ne_nil (List.splitOn_ne_nil separator text)
  refine ⟨s, strings, heq, ?_⟩
  rw [List.splitOn_cons_eq_if_modifyHead, if_neg (by simpa using hc), heq, List.modifyHead_cons]

@[simp] theorem separators_cons (c : UInt8) (v : List.Vector UInt8 n) (i : Nat) (offset : List Nat) :
    separators i (c ::ᵥ v) offset =
      if c = 0 then .ok (c ::ᵥ v, offset)
      else if c = separator then
        if offset.length < 9 then do
          let (rest, offset) ← separators (i + 1) v (offset ++ [i])
          return (0 ::ᵥ rest, offset)
        else .error .outOfBounds
      else do
        let (rest, offset) ← separators (i + 1) v offset
        return (c ::ᵥ rest, offset) := by
  rw [separators, List.Vector.head_cons, List.Vector.tail_cons]
  rfl

/-- The first character of an array. -/
theorem exists_eq_cons {c : UInt8} (v : List.Vector UInt8 (n + 1)) (hv : v.toList = c :: text) : ∃ w, v = c ::ᵥ w ∧ w.toList = text := by
  obtain ⟨c', w, rfl⟩ := v.exists_eq_cons
  rw [List.Vector.toList_cons] at hv
  obtain ⟨rfl, hw⟩ := List.cons.inj hv
  exact ⟨w, rfl, hw⟩

/-- The loop when there is room for the offsets of the separators. -/
theorem separators_eq (htext : 0 ∉ text) (v : List.Vector UInt8 n) (hv : v.toList = text ++ 0 :: rest) (i : Nat) (offset : List Nat)
    (hroom : offset.length + (ends i (text.splitOn separator)).length ≤ 9) :
    ∃ w, separators i v offset = .ok (w, offset ++ ends i (text.splitOn separator)) ∧ w.toList = pack (text.splitOn separator) rest := by
  induction text generalizing n i offset with
  | nil =>
    cases n with
    | zero => simp [List.Vector.eq_nil v] at hv
    | succ n =>
      obtain ⟨w, rfl, hw⟩ := exists_eq_cons v hv
      exact ⟨0 ::ᵥ w, by simp [ends], by simp [hw]⟩
  | cons c text ih =>
    rw [List.mem_cons, not_or] at htext
    cases n with
    | zero => simp [List.Vector.eq_nil v] at hv
    | succ n =>
      obtain ⟨w, rfl, hw⟩ := exists_eq_cons v hv
      rw [separators_cons, if_neg (Ne.symm htext.1)]
      by_cases hc : c = separator
      · rw [hc, splitOn_cons_separator, ends_nil_cons (List.splitOn_ne_nil _ _)] at hroom ⊢
        rw [List.length_cons] at hroom
        obtain ⟨w', hw', hlist⟩ := ih htext.2 w hw (i + 1) (offset ++ [i]) (by simp only [List.length_append, List.length_singleton]; omega)
        refine ⟨0 ::ᵥ w', ?_, by simp [hlist]⟩
        rw [if_pos rfl, if_pos (by omega), hw', ok_bind, List.append_assoc]
        rfl
      · obtain ⟨s, strings, heq, hcons⟩ := splitOn_cons_of_ne hc text
        rw [hcons, ends_cons_cons, ← heq] at hroom
        obtain ⟨w', hw', hlist⟩ := ih htext.2 w hw (i + 1) offset hroom
        rw [heq] at hw' hlist
        refine ⟨c ::ᵥ w', ?_, by simp [hcons, hlist]⟩
        rw [if_neg hc, hw', hcons, ends_cons_cons, ok_bind]
        rfl

/-- The loop when there are more separators than offsets. -/
theorem separators_error (htext : 0 ∉ text) (v : List.Vector UInt8 n) (hv : v.toList = text ++ 0 :: rest) (i : Nat) (offset : List Nat)
    (hroom : 9 < offset.length + (ends i (text.splitOn separator)).length) (hoffset : offset.length ≤ 9) :
    separators i v offset = .error .outOfBounds := by
  induction text generalizing n i offset with
  | nil =>
    rw [List.splitOn_nil] at hroom
    exact absurd hroom (by simpa [ends] using hoffset)
  | cons c text ih =>
    rw [List.mem_cons, not_or] at htext
    cases n with
    | zero => simp [List.Vector.eq_nil v] at hv
    | succ n =>
      obtain ⟨w, rfl, hw⟩ := exists_eq_cons v hv
      rw [separators_cons, if_neg (Ne.symm htext.1)]
      by_cases hc : c = separator
      · rw [hc, splitOn_cons_separator, ends_nil_cons (List.splitOn_ne_nil _ _), List.length_cons] at hroom
        rw [if_pos hc]
        by_cases hlt : offset.length < 9
        · have hlen : (offset ++ [i]).length = offset.length + 1 := by simp
          rw [if_pos hlt, ih htext.2 w hw (i + 1) (offset ++ [i]) (by omega) (by omega), error_bind]
        · rw [if_neg hlt]
      · obtain ⟨s, strings, heq, hcons⟩ := splitOn_cons_of_ne hc text
        rw [hcons, ends_cons_cons, ← heq] at hroom
        rw [if_neg hc, ih htext.2 w hw (i + 1) offset hroom hoffset, error_bind]

/-- A field has no character that the text has not. -/
theorem mem_of_mem_splitOn {c : UInt8} (hs : s ∈ text.splitOn separator) (hc : c ∈ s) : c ∈ text := by
  induction text generalizing s with
  | nil =>
    rw [List.splitOn_nil, List.mem_singleton] at hs
    rwa [hs] at hc
  | cons d text ih =>
    by_cases hd : d = separator
    · rw [hd, splitOn_cons_separator, List.mem_cons] at hs
      rcases hs with rfl | hs
      · cases hc
      · exact List.mem_cons_of_mem _ (ih hs hc)
    · obtain ⟨t, strings, heq, hcons⟩ := splitOn_cons_of_ne hd text
      rw [hcons, List.mem_cons] at hs
      rcases hs with rfl | hs
      · rcases List.mem_cons.mp hc with rfl | hc
        · exact List.mem_cons_self
        · exact List.mem_cons_of_mem _ (ih (by rw [heq]; exact List.mem_cons_self) hc)
      · exact List.mem_cons_of_mem _ (ih (by rw [heq]; exact List.mem_cons_of_mem _ hs) hc)

end Separators

/-! ## The strings that the tags read -/

/-- The line after the loop, with the offsets. -/
structure Scanned (mesg : List UInt8) (offset : List Nat) (strings : List (List UInt8)) : Prop where
  mesg_eq : ∃ rest, mesg = pack strings rest
  offset_eq : offset = ends 0 strings
  nonzero : ∀ s ∈ strings, 0 ∉ s

section Scanned

variable {mesg : List UInt8} {offset : List Nat} {strings : List (List UInt8)} {s : List UInt8} {k : Nat}

/-- The offset of a string that a separator ends. -/
theorem Scanned.offsetAt_eq (h : Scanned mesg offset strings) (hk : strings[k]? = some s) (hlt : k + 1 < strings.length) :
    offsetAt offset k = .ok (start strings k + s.length : Nat) := by
  have hends := getElem?_ends hk hlt 0
  rw [Nat.zero_add] at hends
  rw [offsetAt, h.offset_eq, hends]

/-- The last string has no offset. -/
theorem Scanned.offsetAt_of_le (h : Scanned mesg offset strings) (hk : strings.length ≤ k + 1) : offsetAt offset k = .error .unwritten := by
  have hnone : offset[k]? = none := by
    rw [h.offset_eq, List.getElem?_eq_none_iff, length_ends]
    omega
  rw [offsetAt, hnone]

/-- A string that starts in a field. -/
theorem Scanned.string {p : Int} {j : Nat} (h : Scanned mesg offset strings) (hk : strings[k]? = some s) (hj : j ≤ s.length)
    (hp : p = (start strings k + j : Nat)) : ∃ mem, suffix mesg p = some mem ∧ str mem = some (s.drop j) := by
  obtain ⟨rest, hmesg⟩ := h.mesg_eq
  obtain ⟨hlt, -⟩ := List.getElem?_eq_some_iff.mp (getElem?_pack hk rest)
  rw [hp, suffix_natCast (by rw [hmesg]; omega), hmesg]
  exact ⟨_, rfl, str_drop_pack hk hj (h.nonzero s (List.mem_of_getElem? hk)) rest⟩

/-- A string that starts before the end of a field. -/
theorem Scanned.before {p : Int} (h : Scanned mesg offset strings) (hk : strings[k]? = some s) (hnn : 0 ≤ p)
    (hp : p ≤ (start strings k + s.length : Nat)) :
    ∃ mem t, suffix mesg p = some mem ∧ str mem = some t ∧ p + t.length ≤ (start strings k + s.length : Nat) := by
  obtain ⟨rest, hmesg⟩ := h.mesg_eq
  have hzero := getElem?_pack hk rest
  obtain ⟨hlt, -⟩ := List.getElem?_eq_some_iff.mp hzero
  rw [← hmesg] at hzero hlt
  obtain ⟨q, rfl⟩ := Int.eq_ofNat_of_zero_le hnn
  obtain ⟨t, ht, hlen⟩ := exists_str_drop hzero (show q ≤ _ by omega)
  exact ⟨_, t, suffix_natCast (by omega), ht, by omega⟩

end Scanned

end Blockmon.CDRSource
