import Blockmon.Lemmas.CDRSourceBypass

/-!
# The tags of a line

When a line has ten fields, each tag has its position in them, and the tags but the time do not fault when there is room for the caller and the callee
fits behind it. The offset 8 is read for every line, so with fewer fields no loop over the tags is safe.
-/

namespace Blockmon.CDRSource

open CStrings Faults

/-- No access outside of an array and no offset that has not been written. -/
def Safe {α : Type} (r : Except CDRFault α) : Prop := Only (· = .overflow) r

/-- The end of the caller. -/
def callerEnd (f0 f1 f7 : List UInt8) : Nat := if SMS0 <:+: f7 then f0.length else f0.length + 1 + f1.length

/-- The callee that the block has from an earlier line can be appended to a caller of ten characters. -/
def CalleeFits (b : CDRSource) : Prop := ∃ d, str b.callD.toList = some d ∧ d.length ≤ 116

/-- There are ten fields and room for ten characters of the caller, the callee of an earlier line fits when it is used, and the time has a zero behind
it. -/
def Fits (b : CDRSource) : List (List UInt8) → Prop
  | [f0, f1, _, _, _, _, _, f7, _, _] =>
    10 ≤ callerEnd f0 f1 f7 ∧ (SMS0 <:+: f7 → CalleeFits b) ∧
      (f7.length < 8 ∨ 0 ∈ b.timestamp.toList.drop 8)
  | _ => False

/-! ## The faults of a tag -/

section Faults

variable {P : CDRFault → Prop}

/-- An `int` has no fault but the overflow. -/
theorem faults_int (hP : P .overflow) (v : Int) : Only P (int v) := by
  rw [int]
  split
  · exact only_ok P v
  · exact only_error.mpr hP

/-- `atoi` has no fault but the overflow. -/
theorem faults_atoi (hP : P .overflow) (s : List UInt8) : Only P (atoi s) := by
  rw [atoi]
  split <;> exact faults_int hP _

/-- The seconds have no fault but the overflow. -/
theorem faults_seconds (hP : P .overflow) (u : Nat) (sec : Int) (keylist : List (List UInt8)) : Only P (seconds u sec keylist) := by
  induction keylist generalizing u sec with
  | nil => exact only_ok P sec
  | cons str1 keylist ih =>
    rw [seconds]
    refine (faults_atoi hP str1).bind fun h => ?_
    split
    · exact (faults_int hP _).bind fun _ => (faults_int hP _).bind fun _ => ih _ _
    · exact (faults_int hP _).bind fun _ => (faults_int hP _).bind fun _ => ih _ _
    · exact (faults_int hP _).bind fun _ => ih _ _
    · exact only_pure P sec

variable (hin : P .outOfBounds) (hwritten : P .unwritten) (b : CDRSource) (offset : List Nat)
include hin hwritten

/-- The test for a short message has no fault but those of memory. -/
theorem faults_isSms : Only P (b.isSms offset) :=
  (faults_offsetAt hwritten offset 6).bind fun _ => (faults_inside hin _).bind fun _ => faults_inside hin _

/-- Only the time overflows. -/
theorem faults_composeTag {tag : Tag} (htag : tag ≠ .timestamp) : Only P (b.composeTag offset tag) := by
  cases tag with
  | timestamp => exact absurd rfl htag
  | fail => exact (faults_offsetAt hwritten offset 8).bind fun _ => (faults_offsetAt hwritten offset 7).bind fun _ => only_pure P _
  | call => exact (faults_isSms hin hwritten b offset).bind fun _ => only_pure P _
  | out =>
    exact (faults_offsetAt hwritten offset 4).bind fun _ => (faults_inside hin _).bind fun _ => (faults_inside hin _).bind fun _ =>
      only_pure P _
  | srcDst =>
    exact (faults_inside hin _).bind fun _ => (faults_inside hin _).bind fun _ => (faults_inside hin _).bind fun _ => only_pure P _
  | srcId =>
    refine (faults_isSms hin hwritten b offset).bind fun sms => ?_
    split
    · exact (faults_offsetAt hwritten offset 0).bind fun _ => (faults_inside hin _).bind fun _ => (faults_inside hin _).bind fun _ =>
        only_pure P _
    · exact (faults_offsetAt hwritten offset 1).bind fun _ => (faults_inside hin _).bind fun _ => (faults_inside hin _).bind fun _ =>
        only_pure P _
  | dstId =>
    refine (faults_isSms hin hwritten b offset).bind fun sms => ?_
    split
    · exact only_pure P _
    · exact (faults_offsetAt hwritten offset 3).bind fun _ => (faults_inside hin _).bind fun _ => (faults_inside hin _).bind fun _ =>
        only_pure P _

end Faults

/-! ## The tags of ten fields -/

section Tags

variable {b : CDRSource} {offset : List Nat} {f0 f1 f2 f3 f4 f5 f6 f7 f8 f9 : List UInt8}
  (h : Scanned b.mesg.toList offset [f0, f1, f2, f3, f4, f5, f6, f7, f8, f9])
include h

/-- A short message is marked in the eighth field. -/
theorem isSms_eq : b.isSms offset = .ok (decide (SMS0 <:+: f7)) := by
  have hstart : start [f0, f1, f2, f3, f4, f5, f6, f7, f8, f9] 7 = start [f0, f1, f2, f3, f4, f5, f6, f7, f8, f9] 6 + f6.length + 1 :=
    start_succ rfl
  obtain ⟨mem, hmem, hstr⟩ := h.string (k := 7) (j := 0) rfl (Nat.zero_le _) rfl
  have hpos : ((start [f0, f1, f2, f3, f4, f5, f6, f7, f8, f9] 6 + f6.length : Nat) : Int) + 1 =
      (start [f0, f1, f2, f3, f4, f5, f6, f7, f8, f9] 7 + 0 : Nat) := by
    rw [hstart]
    push_cast
    omega
  rw [isSms, h.offsetAt_eq (k := 6) rfl (by simp), ok_bind, hpos, hmem, inside, ok_bind, strstr, hstr]
  rfl

/-- The caller is the string that starts ten characters before its end. -/
theorem caller_position : (do if ← b.isSms offset then offsetAt offset 0 else offsetAt offset 1) = .ok (callerEnd f0 f1 f7 : Int) := by
  rw [isSms_eq h, ok_bind, callerEnd]
  by_cases hsms : SMS0 <:+: f7
  · rw [if_pos hsms, decide_eq_true hsms, if_pos rfl, h.offsetAt_eq (k := 0) rfl (by simp), start_zero, Nat.zero_add]
  · rw [if_neg hsms, decide_eq_false hsms, if_neg Bool.false_ne_true, h.offsetAt_eq (k := 1) rfl (by simp), start_cons_succ, start_zero,
      Nat.add_zero]

/-- The caller, by its end. -/
theorem srcId_eq : b.composeTag offset .srcId = do
    let callS ← inside (strncpy b.callS (← inside (suffix b.mesg.toList ((callerEnd f0 f1 f7 : Int) - 10))) SIZE_CID)
    return ({ b with callS := callS }, [(.srcId, .array callS)]) := by
  have hpos := caller_position h
  rw [isSms_eq h, ok_bind] at hpos
  rw [composeTag, isSms_eq h, ok_bind]
  by_cases hsms : SMS0 <:+: f7
  · rw [decide_eq_true hsms, if_pos rfl] at hpos ⊢
    rw [hpos, ok_bind]
  · rw [decide_eq_false hsms, if_neg Bool.false_ne_true] at hpos ⊢
    rw [hpos, ok_bind]

/-- A caller of less than ten characters begins before the array. -/
theorem srcId_error (hpos : callerEnd f0 f1 f7 < 10) : b.composeTag offset .srcId = .error .outOfBounds := by
  rw [srcId_eq h, suffix_of_neg (by omega), inside, error_bind]

/-- The caller is at most ten characters, and those of a short message are ten. -/
theorem srcId_ok (hpos : 10 ≤ callerEnd f0 f1 f7) :
    ∃ callS t, b.composeTag offset .srcId = .ok ({ b with callS := callS }, [(.srcId, .array callS)]) ∧
      str callS.toList = some t ∧ t.length ≤ 10 ∧ (SMS0 <:+: f7 → t.length = 10) := by
  obtain ⟨mem, t, hmem, ht, hlen⟩ : ∃ mem t, suffix b.mesg.toList ((callerEnd f0 f1 f7 : Int) - 10) = some mem ∧ str mem = some t ∧
      t.length ≤ 10 ∧ (SMS0 <:+: f7 → t.length = 10) := by
    rw [callerEnd] at hpos ⊢
    by_cases hsms : SMS0 <:+: f7
    · rw [if_pos hsms] at hpos ⊢
      obtain ⟨mem, hmem, ht⟩ := h.string (k := 0) (j := f0.length - 10) (p := (f0.length : Int) - 10) rfl (Nat.sub_le _ _)
        (by rw [start_zero]; omega)
      have hlen : (f0.drop (f0.length - 10)).length = 10 := by
        rw [List.length_drop]
        omega
      exact ⟨mem, _, hmem, ht, hlen.le, fun _ => hlen⟩
    · rw [if_neg hsms] at hpos ⊢
      have hend : start [f0, f1, f2, f3, f4, f5, f6, f7, f8, f9] 1 + f1.length = f0.length + 1 + f1.length := by simp
      obtain ⟨mem, t, hmem, ht, hlen⟩ := h.before (k := 1) (p := (f0.length + 1 + f1.length : Nat) - 10) rfl (by omega)
        (by rw [hend]; omega)
      rw [hend] at hlen
      exact ⟨mem, t, hmem, ht, by omega, fun hsms' => absurd hsms' hsms⟩
  obtain ⟨callS, hcpy, hcallS⟩ := strncpy_str ht b.callS (n := SIZE_CID) le_rfl (lt_of_le_of_lt hlen.1 (by decide))
  refine ⟨callS, t, ?_, hcallS, hlen⟩
  rw [srcId_eq h, hmem, inside, ok_bind, hcpy, inside, ok_bind]
  rfl

/-- A short message leaves the callee. -/
theorem dstId_sms (hsms : SMS0 <:+: f7) : b.composeTag offset .dstId = .ok (b, []) := by
  rw [composeTag, isSms_eq h, ok_bind, decide_eq_true hsms, if_pos rfl]
  rfl

/-- The callee of another record. -/
theorem dstId_ok (hsms : ¬SMS0 <:+: f7) (hpos : 10 ≤ callerEnd f0 f1 f7) :
    ∃ callD d, b.composeTag offset .dstId = .ok ({ b with callD := callD }, [(.dstId, .array callD)]) ∧
      str callD.toList = some d ∧ d.length ≤ 10 := by
  have hend : start [f0, f1, f2, f3, f4, f5, f6, f7, f8, f9] 3 = f0.length + 1 + (f1.length + 1 + (f2.length + 1)) := by simp
  rw [callerEnd, if_neg hsms] at hpos
  obtain ⟨mem, d, hmem, hd, hlen⟩ := h.before (k := 3) (p := (start [f0, f1, f2, f3, f4, f5, f6, f7, f8, f9] 3 + f3.length : Nat) - 10) rfl
    (by rw [hend]; omega) (by omega)
  have hlen' : d.length ≤ 10 := by omega
  obtain ⟨callD, hcpy, hcallD⟩ := strncpy_str hd b.callD (n := SIZE_CID) le_rfl (lt_of_le_of_lt hlen' (by decide))
  refine ⟨callD, d, ?_, hcallD, hlen'⟩
  rw [composeTag, isSms_eq h, ok_bind, decide_eq_false hsms, if_neg Bool.false_ne_true, h.offsetAt_eq (k := 3) rfl (by simp), ok_bind, hmem,
    inside, ok_bind, hcpy, inside, ok_bind]
  rfl

/-- The tag for the failure. -/
theorem fail_ok : ∃ new, b.composeTag offset .fail = .ok (b, new) := by
  rw [composeTag, h.offsetAt_eq (k := 8) rfl (by simp), ok_bind, h.offsetAt_eq (k := 7) rfl (by simp), ok_bind]
  exact ⟨_, rfl⟩

/-- The tag for the direction. -/
theorem out_ok : ∃ new, b.composeTag offset .out = .ok (b, new) := by
  have hend : start [f0, f1, f2, f3, f4, f5, f6, f7, f8, f9] 4 = f0.length + 1 + (f1.length + 1 + (f2.length + 1 + (f3.length + 1))) := by simp
  obtain ⟨mem, t, hmem, ht, -⟩ := h.before (k := 4) (p := (start [f0, f1, f2, f3, f4, f5, f6, f7, f8, f9] 4 + f4.length : Nat) - 1) rfl
    (by rw [hend]; omega) (by omega)
  rw [composeTag, h.offsetAt_eq (k := 4) rfl (by simp), ok_bind, hmem, inside, ok_bind, strstr, ht, Option.map_some, inside, ok_bind]
  exact ⟨_, rfl⟩

/-- The tag for the kind of the record. -/
theorem call_ok : ∃ new, b.composeTag offset .call = .ok (b, new) := by
  rw [composeTag, isSms_eq h, ok_bind]
  exact ⟨_, rfl⟩

omit h

variable (offset) in
/-- The concatenation, when it fits. -/
theorem srcDst_ok {t d : List UInt8} (ht : str b.callS.toList = some t) (hd : str b.callD.toList = some d)
    (hlen : t.length + d.length + 2 ≤ SIZE_CID) :
    ∃ callId, b.composeTag offset .srcDst = .ok ({ b with callId := callId }, [(.srcDst, .array callId)]) := by
  obtain ⟨callId, hcpy, hcallId⟩ := strncpy_str ht b.callId (n := SIZE_CID) le_rfl (by omega)
  have hsep : str [separator, 0] = some [separator] := rfl
  obtain ⟨callId', hcat, hcallId'⟩ := strcat_str hcallId hsep (by rw [List.length_singleton]; omega)
  obtain ⟨callId'', hcat', -⟩ := strcat_str hcallId' hd (by rw [List.length_append, List.length_singleton]; omega)
  refine ⟨callId'', ?_⟩
  rw [composeTag, hcpy, inside, ok_bind, hcat, inside, ok_bind, hcat', inside, ok_bind]
  rfl

/-- Where the pair is safe, the caller and the callee have room. -/
theorem of_srcDst {t : List UInt8} (ht : str b.callS.toList = some t) (hlen : t.length ≤ 10) (hsafe : Safe (b.composeTag offset .srcDst)) :
    ∃ d, str b.callD.toList = some d ∧ t.length + d.length + 2 ≤ SIZE_CID := by
  have hsize : t.length < SIZE_CID := lt_of_le_of_lt hlen (by decide)
  obtain ⟨callId, hcpy, hcallId⟩ := strncpy_str ht b.callId (n := SIZE_CID) le_rfl hsize
  have hsep : str [separator, 0] = some [separator] := rfl
  have hroom : t.length + 1 + 1 ≤ SIZE_CID := by
    rw [SIZE_CID]
    omega
  obtain ⟨callId', hcat, hcallId'⟩ := strcat_str hcallId hsep hroom
  rw [composeTag, hcpy, inside, ok_bind, hcat, inside, ok_bind, Safe, only_bind_iff] at hsafe
  rcases hcat' : strcat callId' b.callD.toList with _ | callId''
  · rw [hcat', inside, only_error] at hsafe
    cases hsafe.1
  · obtain ⟨d, hd, hfits⟩ := of_strcat hcallId' hcat'
    refine ⟨d, hd, ?_⟩
    rw [List.length_append, List.length_singleton] at hfits
    omega

include h

/-- The time: the string of at most eight characters that ends with the eighth field, which is the whole eight of a longer field. -/
theorem exists_time (hpos : 10 ≤ callerEnd f0 f1 f7) :
    ∃ mem t, suffix b.mesg.toList ((start [f0, f1, f2, f3, f4, f5, f6, f7, f8, f9] 7 + f7.length : Nat) - 8) = some mem ∧ str mem = some t ∧
      if f7.length < 8 then t.length < 8 else t.length = 8 ∧ 0 ∉ t := by
  by_cases hlen : f7.length < 8
  · -- The zero behind the field before is among the eight characters.
    have hbefore : callerEnd f0 f1 f7 ≤ start [f0, f1, f2, f3, f4, f5, f6, f7, f8, f9] 6 := by
      rw [callerEnd]
      split <;> simp only [start_cons_succ] <;> omega
    have hstart : start [f0, f1, f2, f3, f4, f5, f6, f7, f8, f9] 7 = start [f0, f1, f2, f3, f4, f5, f6, f7, f8, f9] 6 + f6.length + 1 :=
      start_succ rfl
    obtain ⟨mem, t, hmem, ht, hle⟩ := h.before (k := 6) (p := (start [f0, f1, f2, f3, f4, f5, f6, f7, f8, f9] 7 + f7.length : Nat) - 8) rfl
      (by omega) (by omega)
    refine ⟨mem, t, hmem, ht, ?_⟩
    rw [if_pos hlen]
    omega
  · obtain ⟨mem, hmem, ht⟩ := h.string (k := 7) (j := f7.length - 8)
      (p := (start [f0, f1, f2, f3, f4, f5, f6, f7, f8, f9] 7 + f7.length : Nat) - 8) rfl (Nat.sub_le _ _) (by omega)
    refine ⟨mem, _, hmem, ht, ?_⟩
    rw [if_neg hlen, List.length_drop]
    exact ⟨by omega, fun hmem => h.nonzero f7 (by simp) (List.mem_of_mem_drop hmem)⟩

/-- The characters that are copied have a zero behind them in the array. -/
theorem timestamp_safe_iff (hpos : 10 ≤ callerEnd f0 f1 f7) :
    Safe (b.composeTag offset .timestamp) ↔ f7.length < 8 ∨ 0 ∈ b.timestamp.toList.drop 8 := by
  obtain ⟨mem, t, hmem, ht, hlen⟩ := exists_time h hpos
  obtain ⟨timestamp, hcpy, hlist⟩ := strncpy_eq ht b.timestamp (n := 8) (by decide)
  have hzero : (∃ s, str timestamp.toList = some s) ↔ f7.length < 8 ∨ 0 ∈ b.timestamp.toList.drop 8 := by
    rw [exists_str_iff, hlist, List.mem_append, List.mem_append, List.mem_replicate]
    split at hlen
    · rename_i hf7
      exact iff_of_true (Or.inl (Or.inr ⟨by omega, rfl⟩)) (Or.inl hf7)
    · rename_i hf7
      have hnot : 0 ∉ t.take 8 := fun hmem => hlen.2 (List.mem_of_mem_take hmem)
      simp [hlen.1, hnot, hf7]
  rw [← hzero, composeTag, h.offsetAt_eq (k := 7) rfl (by simp), ok_bind, hmem, inside, ok_bind, hcpy, inside, ok_bind]
  rcases hstr : str timestamp.toList with _ | s
  · simp [inside, Safe]
  · have hseconds : Safe (seconds 0 0 (s.splitOn colon)) := faults_seconds (P := (· = .overflow)) rfl 0 0 _
    simp only [inside, ok_bind, Option.some.injEq, exists_eq', iff_true]
    exact Only.bind hseconds fun sec => only_pure _ _

omit h

/-- Only the first eight characters of the array are written. -/
theorem timestamp_keeps {b' : CDRSource} {new : List (Tag × TagValue)} (hok : b.composeTag offset .timestamp = .ok (b', new)) :
    b'.callD = b.callD ∧ b'.timestamp.toList.drop 8 = b.timestamp.toList.drop 8 := by
  simp only [composeTag, bind_eq_ok_iff, inside_eq_ok_iff] at hok
  obtain ⟨_, -, _, -, timestamp, hcpy, _, -, _, -, hresult⟩ := hok
  obtain ⟨rfl, -⟩ := Prod.mk.inj (Except.ok.inj hresult)
  exact ⟨rfl, drop_strncpy hcpy⟩

end Tags

/-! ## The loop over the tags -/

section Loop

variable {b b' : CDRSource} {offset : List Nat} {tag : Tag} {tags : List Tag} {done new : List (Tag × TagValue)}

/-- The first tag comes first. -/
theorem composeTags_cons (h : b.composeTag offset tag = .ok (b', new)) :
    composeTags offset (tag :: tags) (b, done) = composeTags offset tags (b', done ++ new) := by
  rw [composeTags, h]
  rfl

/-- A tag does not touch the number of lines. -/
theorem msgRecv_composeTag (hok : b.composeTag offset tag = .ok (b', new)) : b'.msgRecv = b.msgRecv := by
  have hpure : ∀ {b₁ new₁}, (pure (b₁, new₁) : Except CDRFault _) = .ok (b', new) → b₁.msgRecv = b.msgRecv →
      b'.msgRecv = b.msgRecv := by
    rintro b₁ new₁ h hrecv
    rw [← (Prod.mk.inj (Except.ok.inj h)).1, hrecv]
  cases tag with
  | srcId =>
    obtain ⟨sms, -, hok⟩ := bind_eq_ok_iff.mp hok
    cases sms <;> simp only [Bool.false_eq_true, if_false, if_true, bind_eq_ok_iff] at hok <;>
      obtain ⟨_, -, _, -, _, -, hok⟩ := hok <;> exact hpure hok rfl
  | dstId =>
    obtain ⟨sms, -, hok⟩ := bind_eq_ok_iff.mp hok
    cases sms with
    | true => exact hpure hok rfl
    | false =>
      simp only [Bool.false_eq_true, if_false, bind_eq_ok_iff] at hok
      obtain ⟨_, -, _, -, _, -, hok⟩ := hok
      exact hpure hok rfl
  | srcDst =>
    simp only [composeTag, bind_eq_ok_iff] at hok
    obtain ⟨_, -, _, -, _, -, hok⟩ := hok
    exact hpure hok rfl
  | fail =>
    simp only [composeTag, bind_eq_ok_iff] at hok
    obtain ⟨_, -, _, -, hok⟩ := hok
    exact hpure hok rfl
  | out =>
    simp only [composeTag, bind_eq_ok_iff] at hok
    obtain ⟨_, -, _, -, _, -, hok⟩ := hok
    exact hpure hok rfl
  | call =>
    obtain ⟨sms, -, hok⟩ := bind_eq_ok_iff.mp hok
    exact hpure hok rfl
  | timestamp =>
    simp only [composeTag, bind_eq_ok_iff] at hok
    obtain ⟨_, -, _, -, _, -, _, -, _, -, hok⟩ := hok
    exact hpure hok rfl

/-- No tag touches the number of lines. -/
theorem msgRecv_composeTags {done' : List (Tag × TagValue)} (hok : composeTags offset tags (b, done) = .ok (b', done')) :
    b'.msgRecv = b.msgRecv := by
  induction tags generalizing b done with
  | nil =>
    obtain ⟨rfl, -⟩ := Prod.mk.inj (Except.ok.inj hok)
    rfl
  | cons tag tags ih =>
    obtain ⟨⟨b₁, new₁⟩, htag, hok⟩ := bind_eq_ok_iff.mp hok
    rw [ih hok, msgRecv_composeTag htag]

/-- The tags in two parts. -/
theorem composeTags_append (offset : List Nat) (before after : List Tag) (r : CDRSource × List (Tag × TagValue)) :
    composeTags offset (before ++ after) r = composeTags offset before r >>= composeTags offset after := by
  induction before generalizing r with
  | nil => rfl
  | cons tag before ih =>
    obtain ⟨b, done⟩ := r
    rcases htag : b.composeTag offset tag with e | ⟨b', new⟩
    · rw [List.cons_append, composeTags, composeTags, htag]
      rfl
    · rw [List.cons_append, composeTags_cons htag, composeTags_cons htag, ih]

/-- When the loop is safe, so is the tag, and the loop after it. -/
theorem Safe.cons (hsafe : Safe (composeTags offset (tag :: tags) (b, done))) (htag : tag ≠ .timestamp) :
    ∃ b' new, b.composeTag offset tag = .ok (b', new) ∧ Safe (composeTags offset tags (b', done ++ new)) := by
  rcases hresult : b.composeTag offset tag with e | ⟨b', new⟩
  · rw [composeTags, hresult, error_bind] at hsafe
    have hover : e = .overflow := hsafe e rfl
    exact absurd hover (faults_composeTag (P := (· ≠ .overflow)) (by decide) (by decide) b offset htag e hresult)
  · rw [composeTags_cons hresult] at hsafe
    exact ⟨b', new, rfl, hsafe⟩

/-- The offset 8 is read for every line. -/
theorem not_safe_of_short {strings : List (List UInt8)} (h : Scanned b.mesg.toList offset strings) (hlen : strings.length < 10) :
    ¬Safe (composeTags offset fields (b, [])) := by
  intro hsafe
  obtain ⟨b₁, new₁, -, hsafe⟩ := hsafe.cons (by decide)
  obtain ⟨b₂, new₂, -, hsafe⟩ := hsafe.cons (by decide)
  obtain ⟨b₃, new₃, -, hsafe⟩ := hsafe.cons (by decide)
  obtain ⟨b₄, new₄, hfail, -⟩ := hsafe.cons (by decide)
  rw [composeTag, h.offsetAt_of_le (by omega), error_bind] at hfail
  cases hfail

/-- The tags before the time. -/
def untimed : List Tag := [.srcId, .dstId, .srcDst, .fail, .out, .call]

/-- The time is the last tag. -/
theorem fields_eq : fields = untimed ++ [.timestamp] := rfl

variable {f0 f1 f2 f3 f4 f5 f6 f7 f8 f9 : List UInt8} (h : Scanned b.mesg.toList offset [f0, f1, f2, f3, f4, f5, f6, f7, f8, f9])
include h

/-- The tags before the time, where they are safe. -/
theorem untimed_ok (hpos : 10 ≤ callerEnd f0 f1 f7) (hcallee : SMS0 <:+: f7 → CalleeFits b) :
    ∃ b' done, composeTags offset untimed (b, []) = .ok (b', done) ∧ b'.mesg = b.mesg ∧ b'.timestamp = b.timestamp ∧ CalleeFits b' := by
  obtain ⟨callS, t, hsrc, ht, hlen, -⟩ := srcId_ok h hpos
  obtain ⟨b₂, new₂, hdst, hmesg, htimestamp, hcallS, d, hd, hfits⟩ :
      ∃ b₂ new₂, composeTag { b with callS := callS } offset .dstId = .ok (b₂, new₂) ∧ b₂.mesg = b.mesg ∧ b₂.timestamp = b.timestamp ∧
        b₂.callS = callS ∧ CalleeFits b₂ := by
    by_cases hsms : SMS0 <:+: f7
    · exact ⟨_, _, dstId_sms h hsms, rfl, rfl, rfl, hcallee hsms⟩
    · obtain ⟨callD, d, hdst, hd, hle⟩ := dstId_ok (b := { b with callS := callS }) h hsms hpos
      exact ⟨_, _, hdst, rfl, rfl, rfl, d, hd, hle.trans (by decide)⟩
  have hsize : t.length + d.length + 2 ≤ SIZE_CID := by
    rw [SIZE_CID]
    omega
  rw [← hcallS] at ht
  obtain ⟨callId, hsrcDst⟩ := srcDst_ok offset ht hd hsize
  have h₃ : Scanned ({ b₂ with callId := callId } : CDRSource).mesg.toList offset [f0, f1, f2, f3, f4, f5, f6, f7, f8, f9] := by
    rw [← hmesg] at h
    exact h
  obtain ⟨new₄, hfail⟩ := fail_ok h₃
  obtain ⟨new₅, hout⟩ := out_ok h₃
  obtain ⟨new₆, hcall⟩ := call_ok h₃
  rw [untimed, composeTags_cons hsrc, composeTags_cons hdst, composeTags_cons hsrcDst, composeTags_cons hfail, composeTags_cons hout,
    composeTags_cons hcall, composeTags]
  exact ⟨_, _, rfl, hmesg, htimestamp, d, hd, hfits⟩

/-- What the tags before the time need. -/
theorem of_untimed (hsafe : Safe (composeTags offset untimed (b, []))) : 10 ≤ callerEnd f0 f1 f7 ∧ (SMS0 <:+: f7 → CalleeFits b) := by
  obtain ⟨b₁, new₁, hsrc, hsafe⟩ := hsafe.cons (by decide)
  have hpos : 10 ≤ callerEnd f0 f1 f7 := by
    by_contra hlt
    rw [srcId_error h (by omega)] at hsrc
    cases hsrc
  refine ⟨hpos, fun hsms => ?_⟩
  obtain ⟨callS, t, hsrc', ht, -, hten⟩ := srcId_ok h hpos
  obtain ⟨rfl, -⟩ := Prod.mk.inj (Except.ok.inj (hsrc.symm.trans hsrc'))
  rw [composeTags_cons (dstId_sms (b := { b with callS := callS }) h hsms)] at hsafe
  obtain ⟨b₃, new₃, hsrcDst, -⟩ := hsafe.cons (by decide)
  obtain ⟨d, hd, hfits⟩ := of_srcDst (b := { b with callS := callS }) ht (hten hsms).le (by rw [hsrcDst]; exact only_ok _ _)
  rw [hten hsms, SIZE_CID] at hfits
  exact ⟨d, hd, by omega⟩

/-- The tags are safe just when the fields fit. -/
theorem composeTags_safe_iff :
    Safe (composeTags offset fields (b, [])) ↔ Fits b [f0, f1, f2, f3, f4, f5, f6, f7, f8, f9] := by
  rw [fields_eq, composeTags_append, Safe, only_bind_iff]
  constructor
  · rintro ⟨huntimed, htime⟩
    obtain ⟨hpos, hcallee⟩ := of_untimed h huntimed
    obtain ⟨b', done, hrun, hmesg, htimestamp, -⟩ := untimed_ok h hpos hcallee
    rw [← hmesg] at h
    have hsafe := htime (b', done) hrun
    rw [composeTags, only_bind_iff] at hsafe
    have htimed := (timestamp_safe_iff h hpos).mp hsafe.1
    rw [htimestamp] at htimed
    exact ⟨hpos, hcallee, htimed⟩
  · rintro ⟨hpos, hcallee, htimed⟩
    obtain ⟨b', done, hrun, hmesg, htimestamp, -⟩ := untimed_ok h hpos hcallee
    rw [← hmesg] at h
    rw [← htimestamp] at htimed
    rw [hrun]
    refine ⟨only_ok _ _, ?_⟩
    rintro _ ⟨⟩
    rw [composeTags]
    exact Only.bind ((timestamp_safe_iff h hpos).mpr htimed) fun r => only_ok _ _

/-- After the tags, the callee fits for the next line, and the time has the zero that it had. -/
theorem composeTags_keeps (hpos : 10 ≤ callerEnd f0 f1 f7) (hcallee : SMS0 <:+: f7 → CalleeFits b)
    (hok : composeTags offset fields (b, []) = .ok (b', done)) :
    CalleeFits b' ∧ b'.timestamp.toList.drop 8 = b.timestamp.toList.drop 8 := by
  obtain ⟨b₁, done₁, hrun, -, htimestamp, hkept⟩ := untimed_ok h hpos hcallee
  rw [fields_eq, composeTags_append, hrun, ok_bind, composeTags, bind_eq_ok_iff] at hok
  obtain ⟨⟨b₂, new⟩, htime, hok⟩ := hok
  obtain ⟨rfl, -⟩ := Prod.mk.inj (Except.ok.inj hok)
  obtain ⟨hcallD, hdrop⟩ := timestamp_keeps htime
  rw [CalleeFits, hcallD, hdrop, htimestamp]
  exact ⟨hkept, rfl⟩

end Loop

end Blockmon.CDRSource
