import Blockmon.Lemmas.CDRTags
import Mathlib.Data.List.TakeWhile

/-!
# Lines that are safe

The offsets that the tags read are written just for lines with ten fields, and the calls before the separators must have ten characters. A short
message, marked by `SMS0` in the eighth field, leaves the callee of the line before. The time is the end of the eighth field.
-/

namespace Blockmon.CDRSource

open CStrings Faults

/-- What the block reads of a line. -/
def text (stored : List UInt8) : List UInt8 := (stored.take (SIZE_MSG - 1)).takeWhile (· ≠ 0)

/-! ## A line -/

section Lines

variable {b : CDRSource}

/-- What is read of a line has no zero. -/
theorem zero_not_mem_text (stored : List UInt8) : 0 ∉ text stored := by
  intro h
  have hne := List.mem_takeWhile_imp h
  simp at hne

/-- After `getline` the array holds the text of the line and its zero. -/
theorem getline_eq (stored : List UInt8) (mesg : List.Vector UInt8 SIZE_MSG) : ∃ rest, (getline stored mesg).toList = text stored ++ 0 :: rest := by
  have hsplit := List.takeWhile_append_dropWhile (p := (· ≠ (0 : UInt8))) (l := stored.take (SIZE_MSG - 1))
  have hlist : (getline stored mesg).toList = stored.take (SIZE_MSG - 1) ++ 0 :: mesg.toList.drop ((stored.take (SIZE_MSG - 1)).length + 1) := rfl
  rw [hlist, text]
  generalize mesg.toList.drop ((stored.take (SIZE_MSG - 1)).length + 1) = rest
  rcases hdrop : (stored.take (SIZE_MSG - 1)).dropWhile (· ≠ 0) with _ | ⟨c, after⟩
  · rw [hdrop, List.append_nil] at hsplit
    rw [hsplit]
    exact ⟨rest, rfl⟩
  · have hc : c = 0 := by
      have hhead := List.head?_dropWhile_not (· ≠ (0 : UInt8)) (stored.take (SIZE_MSG - 1))
      rw [hdrop] at hhead
      simpa using hhead
    rw [hdrop, hc] at hsplit
    refine ⟨after ++ 0 :: rest, ?_⟩
    conv_lhs => rw [← hsplit]
    rw [List.append_assoc, List.cons_append]

/-- A list of ten, written out. -/
theorem exists_of_length_eq_ten {α : Type} {l : List α} (h : l.length = 10) :
    ∃ f0 f1 f2 f3 f4 f5 f6 f7 f8 f9, l = [f0, f1, f2, f3, f4, f5, f6, f7, f8, f9] :=
  match l, h with
  | [f0, f1, f2, f3, f4, f5, f6, f7, f8, f9], _ => ⟨f0, f1, f2, f3, f4, f5, f6, f7, f8, f9, rfl⟩

/-- Only a line of ten fields fits. -/
theorem Fits.length_eq {strings : List (List UInt8)} (h : Fits b strings) : strings.length = 10 := by
  unfold Fits at h
  split at h
  · rfl
  · exact absurd h id

/-- The body of the loop is safe just for a line that fits. -/
theorem parseLine_safe_iff {chars rest : List UInt8} (hmesg : b.mesg.toList = chars ++ 0 :: rest) (hchars : 0 ∉ chars) :
    Safe b.parseLine ↔ Fits b (chars.splitOn separator) := by
  have hstr : str b.mesg.toList = some chars := by
    rw [hmesg]
    exact str_append hchars rest
  obtain ⟨line, hline, -⟩ := strncpy_eq hstr b.line (n := SIZE_CID) le_rfl
  rw [parseLine, hline, inside, ok_bind]
  by_cases hroom : (ends 0 (chars.splitOn separator)).length ≤ 9
  · obtain ⟨w, hw, hlist⟩ := separators_eq hchars b.mesg hmesg 0 [] (by simpa using hroom)
    have hscanned : Scanned w.toList (ends 0 (chars.splitOn separator)) (chars.splitOn separator) :=
      ⟨⟨rest, hlist⟩, rfl, fun s hs hzero => hchars (mem_of_mem_splitOn hs hzero)⟩
    rw [hw, ok_bind, List.nil_append]
    rw [length_ends] at hroom
    simp only [Safe, only_bind_iff, only_pure, implies_true, and_true]
    rcases Nat.lt_or_eq_of_le (show (chars.splitOn separator).length ≤ 10 by omega) with hshort | hten
    · refine iff_of_false (not_safe_of_short (b := { b with line := line, mesg := w }) hscanned hshort) fun h => ?_
      have hlen := h.length_eq
      omega
    · obtain ⟨f0, f1, f2, f3, f4, f5, f6, f7, f8, f9, heq⟩ := exists_of_length_eq_ten hten
      rw [heq] at hscanned ⊢
      exact composeTags_safe_iff (b := { b with line := line, mesg := w }) hscanned
  · rw [separators_error hchars b.mesg hmesg 0 [] (by rw [List.length_nil]; omega) (by simp), error_bind]
    refine iff_of_false (by simp [Safe]) fun h => hroom ?_
    rw [length_ends, h.length_eq]

/-- A line that fits leaves a callee that fits, and the end of the time as it was. -/
theorem parseLine_keeps {b' : CDRSource} {m : PairMsg} {chars rest : List UInt8} (hmesg : b.mesg.toList = chars ++ 0 :: rest)
    (hchars : 0 ∉ chars) (hfits : Fits b (chars.splitOn separator)) (hok : b.parseLine = .ok (b', m)) :
    CalleeFits b' ∧ b'.timestamp.toList.drop 8 = b.timestamp.toList.drop 8 := by
  have hlen := hfits.length_eq
  obtain ⟨w, hw, hlist⟩ := separators_eq hchars b.mesg hmesg 0 [] (by rw [length_ends, List.length_nil]; omega)
  have hscanned : Scanned w.toList (ends 0 (chars.splitOn separator)) (chars.splitOn separator) :=
    ⟨⟨rest, hlist⟩, rfl, fun s hs hzero => hchars (mem_of_mem_splitOn hs hzero)⟩
  rw [parseLine, bind_eq_ok_iff] at hok
  obtain ⟨line, -, hok⟩ := hok
  rw [hw, ok_bind, List.nil_append, bind_eq_ok_iff] at hok
  obtain ⟨⟨b₁, tags⟩, htags, hok⟩ := hok
  obtain ⟨rfl, -⟩ := Prod.mk.inj (Except.ok.inj hok)
  obtain ⟨f0, f1, f2, f3, f4, f5, f6, f7, f8, f9, heq⟩ := exists_of_length_eq_ten hlen
  rw [heq] at hscanned htags hfits
  have hkeeps := composeTags_keeps (b := { b with line := line, mesg := w }) hscanned hfits.1 hfits.2.1 htags
  exact hkeeps

/-- The line with the headers is not parsed. -/
theorem doLine_safe_iff (b : CDRSource) (stored : List UInt8) :
    Safe (b.doLine stored) ↔ b.msgRecv = 0 ∨ Safe (parseLine { b with mesg := getline stored b.mesg, msgRecv := b.msgRecv + 1 }) := by
  rw [doLine]
  by_cases hfirst : b.msgRecv = 0
  · simp [hfirst, Safe]
  · have hne : b.msgRecv + 1 ≠ 1 := by omega
    rw [if_pos hne, Safe, only_bind_iff, or_iff_right hfirst]
    exact and_iff_left fun r _ => only_pure _ _

/-- For what is stored by `getline`. -/
theorem stored_safe_iff (b : CDRSource) (stored : List UInt8) :
    Safe (parseLine { b with mesg := getline stored b.mesg, msgRecv := b.msgRecv + 1 }) ↔ Fits b ((text stored).splitOn separator) := by
  obtain ⟨rest, hmesg⟩ := getline_eq stored b.mesg
  exact parseLine_safe_iff (b := { b with mesg := getline stored b.mesg, msgRecv := b.msgRecv + 1 }) hmesg (zero_not_mem_text stored)

end Lines

/-! ## A run -/

/-- The strings that are kept from line to line have their zeros. -/
structure Ready (b : CDRSource) : Prop where
  callee : CalleeFits b
  time : 0 ∈ b.timestamp.toList.drop 8

/-- What the fields need when the strings that are kept have their zeros. -/
def Placed : List (List UInt8) → Prop
  | [f0, f1, _, _, _, _, _, f7, _, _] => 10 ≤ callerEnd f0 f1 f7
  | _ => False

section Runs

variable {b b' : CDRSource} {stored : List UInt8}

/-- With the zeros of an earlier line, fields with room for the caller fit. -/
theorem Ready.fits {strings : List (List UInt8)} (hready : Ready b) (hplaced : Placed strings) : Fits b strings := by
  unfold Placed at hplaced
  split at hplaced
  · exact ⟨hplaced, fun _ => hready.callee, Or.inr hready.time⟩
  · exact absurd hplaced id

/-- Such a line leaves the strings with their zeros. -/
theorem Ready.doLine {sent : List PairMsg} (hready : Ready b) (hplaced : Placed ((text stored).splitOn separator))
    (hok : b.doLine stored = .ok (b', sent)) : Ready b' := by
  obtain ⟨rest, hmesg⟩ := getline_eq stored b.mesg
  have hfits := hready.fits hplaced
  rw [CDRSource.doLine] at hok
  split at hok
  · obtain ⟨⟨b₁, m⟩, hparse, hok⟩ := bind_eq_ok_iff.mp hok
    obtain ⟨rfl, -⟩ := Prod.mk.inj (Except.ok.inj hok)
    obtain ⟨hcallee, htime⟩ := parseLine_keeps (b := { b with mesg := getline stored b.mesg, msgRecv := b.msgRecv + 1 }) hmesg
      (zero_not_mem_text stored) hfits hparse
    exact ⟨hcallee, by rw [htime]; exact hready.time⟩
  · obtain ⟨rfl, -⟩ := Prod.mk.inj (Except.ok.inj hok)
    exact ⟨hready.callee, hready.time⟩

/-- Such lines are safe one after the other. -/
theorem doLines_safe (hready : Ready b) (lines : List (List UInt8))
    (hlines : ∀ stored ∈ lines, Placed ((text stored).splitOn separator)) : Safe (doLines lines b) := by
  induction lines generalizing b with
  | nil => exact only_ok _ _
  | cons stored lines ih =>
    rw [List.forall_mem_cons] at hlines
    rw [doLines, Safe, only_bind_iff]
    refine ⟨(doLine_safe_iff b stored).mpr (Or.inr ((stored_safe_iff b stored).mpr (hready.fits hlines.1))), ?_⟩
    rintro ⟨b', sent⟩ hok
    exact Only.bind (ih (hready.doLine hlines.1 hok) hlines.2) fun r => only_pure _ _

/-- Lines that `getline` has room for are read as they are. -/
theorem readLines_of_fit {lines : List (List UInt8)} (hfit : ∀ line ∈ lines, line.length < SIZE_MSG) : readLines lines = lines := by
  induction lines with
  | nil => rfl
  | cons line lines ih =>
    rw [List.forall_mem_cons] at hfit
    rw [readLines, if_pos hfit.1, ih hfit.2]

/-- From a state with its zeros, lines that `getline` has room for, with ten fields and room for the callers, are safe one after the other. -/
theorem doAsync_safe (hready : Ready b) (lines : List (List UInt8)) (hfit : ∀ line ∈ lines, line.length < SIZE_MSG)
    (hlines : ∀ line ∈ lines, Placed ((text line).splitOn separator)) : Safe (doAsync lines b) := by
  rw [doAsync, readLines_of_fit hfit]
  exact doLines_safe hready lines hlines

/-- An empty line has no separators. -/
theorem not_safe_empty (hnext : b.msgRecv ≠ 0) : ¬Safe (b.doLine []) := by
  intro h
  rcases (doLine_safe_iff b []).mp h with hfirst | hparse
  · exact hnext hfirst
  · exact absurd ((stored_safe_iff b []).mp hparse).length_eq (by decide)

/-- Every line is counted. -/
theorem msgRecv_doLine {sent : List PairMsg} (hok : b.doLine stored = .ok (b', sent)) : b'.msgRecv = b.msgRecv + 1 := by
  rw [CDRSource.doLine] at hok
  split at hok
  · obtain ⟨⟨b₁, m⟩, hparse, hok⟩ := bind_eq_ok_iff.mp hok
    obtain ⟨rfl, -⟩ := Prod.mk.inj (Except.ok.inj hok)
    simp only [parseLine, bind_eq_ok_iff] at hparse
    obtain ⟨line, -, ⟨mesg, offset⟩, -, ⟨b₂, tags⟩, htags, hparse⟩ := hparse
    obtain ⟨rfl, -⟩ := Prod.mk.inj (Except.ok.inj hparse)
    exact msgRecv_composeTags htags
  · obtain ⟨rfl, -⟩ := Prod.mk.inj (Except.ok.inj hok)
    rfl

/-- After a line that `getline` has no room for the loop goes on with empty lines, so no line after it is read. -/
theorem not_safe_long {line : List UInt8} {sent : List PairMsg} (hlong : SIZE_MSG ≤ line.length) (lines : List (List UInt8))
    (hok : b.doLine line = .ok (b', sent)) : ¬Safe (doAsync (line :: lines) b) := by
  rw [doAsync, readLines, if_neg (Nat.not_lt.mpr hlong), doLines, hok, ok_bind]
  intro hsafe
  have hempty : Safe (doLines [[]] b') := (only_bind_iff.mp hsafe).1
  rw [doLines, Safe, only_bind_iff] at hempty
  exact not_safe_empty (by rw [msgRecv_doLine hok]; omega) hempty.1

end Runs

/-! ## Lines with other numbers of separators -/

/-- The block before the second line of a file, with zeros in its arrays. -/
def zeroed : CDRSource where
  mesg := .replicate _ 0
  line := .replicate _ 0
  callS := .replicate _ 0
  callD := .replicate _ 0
  callId := .replicate _ 0
  timestamp := .replicate _ 0
  msgRecv := 1
  msgSent := 0

end Blockmon.CDRSource

namespace Blockmon

open CDRSource

/-- A line is safe just when it is the first one or its fields fit, in every state of the block. -/
theorem cdrLine_safe_iff (b : CDRSource) (stored : List UInt8) :
    Safe (b.doLine stored) ↔ b.msgRecv = 0 ∨ Fits b ((text stored).splitOn separator) := by
  rw [doLine_safe_iff, stored_safe_iff]

/-- Ten separators: the tenth offset is written behind the end of the array. -/
theorem cdrLine_unsafe_ten_separators : ¬Safe (zeroed.doLine (List.replicate 10 separator)) := by
  intro h
  rcases (doLine_safe_iff zeroed _).mp h with hfirst | hparse
  · exact absurd hfirst (by decide)
  · exact absurd ((stored_safe_iff zeroed _).mp hparse).length_eq (by decide)

end Blockmon
