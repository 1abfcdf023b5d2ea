import Blockmon.Lemmas.BufferSerializer

/-!
# The pointers of the buffer and what is accessed

Every operation checks something before it moves a pointer, but not always what it should: `consume` checks the distance from `head`
and not from `data`, no check keeps out negative lengths, and `consume_all_data_into_string` checks nothing at all. The pointers stay
in order and the accesses stay inside exactly when the arguments, or the length that a peer has sent, are as each operation needs
them.
-/

namespace Blockmon

open BufferSerializer

/-- Every byte of the access lies between two pointers. -/
def Access.Within (x : Access) (lo hi : Int) : Prop := ∀ i : Nat, i < x.len → lo ≤ x.addr + i ∧ x.addr + i < hi

/-- The bounds of an access, from those of its ends. -/
theorem Access.within_of {x : Access} {lo hi : Int} (hlo : lo ≤ x.addr) (hhi : x.addr + x.len ≤ hi) : x.Within lo hi := by
  intro i hi
  omega

/-- An access that ends behind the upper bound is not inside. -/
theorem Access.not_within {x : Access} {lo hi : Int} (hlen : 0 < x.len) (hhi : hi < x.addr + x.len) : ¬x.Within lo hi := by
  intro h
  have := h (x.len - 1) (by omega)
  omega

namespace BufferSerializer

/-- The pointers are in order. -/
structure Valid (s : BufferSerializer) : Prop where
  head : s.head ≤ s.data
  data : s.data ≤ s.tail
  tail : s.tail ≤ s.bufEnd

/-- What an operation leaves is valid, it has read only data and written only into the buffer. -/
structure Safe (s s' : BufferSerializer) : Prop where
  valid : s'.Valid
  accesses : ∀ x ∈ s'.log.drop s.log.length, if x.write then x.Within s.head s.bufEnd else x.Within s.data s.tail

end BufferSerializer

namespace BufferOp

/-- The arguments are of type `int`. -/
def Typed : BufferOp → Prop
  | .put n => -2 ^ 31 ≤ n ∧ n < 2 ^ 31
  | .consume n => -2 ^ 31 ≤ n ∧ n < 2 ^ 31
  | .putRawData _ n => -2 ^ 31 ≤ n ∧ n < 2 ^ 31
  | .putData _ n => -2 ^ 31 ≤ n ∧ n < 2 ^ 31
  | .consumeRawData n => -2 ^ 31 ≤ n ∧ n < 2 ^ 31
  | .setInt16 _ offset => -2 ^ 31 ≤ offset ∧ offset < 2 ^ 31
  | .getInt16 offset => -2 ^ 31 ≤ offset ∧ offset < 2 ^ 31
  | _ => True

/-- The arguments of the operation, and the length it finds in the data, are as it needs them. -/
def Fits (s : BufferSerializer) : BufferOp → Prop
  | .put offset => s.data ≤ s.tail + offset
  | .consume offset => s.head ≤ s.data + offset ∧ s.data + offset ≤ s.tail
  | .putRawData _ dataLen => 0 ≤ dataLen
  | .putData _ dataLen => 0 ≤ dataLen
  | .consumeRawData dataLen => 0 ≤ dataLen
  | .consumeAllData _ => 0 ≤ s.wireLength
  | .consumeAllDataIntoString => s.data + 2 + s.wireLength ≤ s.tail
  | .setInt16 _ offset => offset + 2 < 2 ^ 31
  | .getInt16 offset => offset + 2 < 2 ^ 31
  | _ => True

end BufferOp

namespace BufferSerializer

/-- The invariant of the runs: `head` and `end` are where `reset` puts them. -/
structure Placed (s : BufferSerializer) : Prop extends s.Valid where
  atStart : s.head = 0
  atEnd : s.bufEnd = 65536

variable {s s' : BufferSerializer}

/-- A call is safe when the new pointers are valid and its accesses are inside the old ones. -/
theorem safe_of_append {l : List Access} (hlog : s'.log = s.log ++ l) :
    Safe s s' ↔ s'.Valid ∧ ∀ x ∈ l, if x.write then x.Within s.head s.bufEnd else x.Within s.data s.tail := by
  have hdrop : s'.log.drop s.log.length = l := by rw [hlog, List.drop_left]
  constructor
  · intro h
    exact ⟨h.valid, hdrop ▸ h.accesses⟩
  · intro h
    exact ⟨h.1, by rw [hdrop]; exact h.2⟩

/-- A call without accesses is safe when it leaves valid pointers. -/
theorem safe_of_silent (hlog : s'.log = s.log) : Safe s s' ↔ s'.Valid := by
  rw [safe_of_append (hlog.trans (List.append_nil _).symm)]
  simp

/-- The operation passes its assertion and leaves what its equation says. -/
theorem step_of_guarded {op : BufferOp} {c : Prop} [Decidable c] {m m' : BufferSerializer} (hs : s.step op = some s')
    (hrun : op.exec.run s = if c then .ok () m else .error .assertion m') : c ∧ s' = m := by
  unfold step at hs
  rw [hrun] at hs
  by_cases hc : c
  · rw [if_pos hc] at hs
    exact ⟨hc, (Option.some.inj hs).symm⟩
  · rw [if_neg hc] at hs
    cases hs

/-- A step that succeeds is the run of its call. -/
theorem step_of_ok {op : BufferOp} {m : BufferSerializer} (hs : s.step op = some s') (hrun : op.exec.run s = .ok () m) : s' = m := by
  unfold step at hs
  rw [hrun] at hs
  exact (Option.some.inj hs).symm

/-- An operation whose value is not used. -/
theorem run_discard {α : Type} {x : EStateM Stop BufferSerializer α} {c : Prop} [Decidable c] {a : α} {m m' : BufferSerializer}
    (hrun : x.run s = if c then .ok a m else .error .assertion m') :
    (do let _ ← x).run s = if c then .ok () m else .error .assertion m' := by
  rw [EStateM.run_bind, hrun]
  by_cases hc : c
  · rw [if_pos hc, if_pos hc]
    rfl
  · rw [if_neg hc, if_neg hc]

/-- Several bytes written at the tail. -/
theorem putInt_safe {n : Nat} {mem : Int → UInt8} (h : s.Valid) (hend : s.tail + n ≤ s.bufEnd) :
    Safe s { s with mem := mem, tail := s.tail + n, log := s.log ++ [⟨true, s.tail, n⟩] } := by
  rw [safe_of_append rfl]
  refine ⟨⟨h.head, ?_, hend⟩, ?_⟩
  · have := h.data
    simp only
    omega
  · intro x hx
    obtain rfl := List.mem_singleton.mp hx
    exact Access.within_of (Int.le_trans h.head h.data) hend

/-- Several bytes read at the front. -/
theorem consumeInt_safe {n : Nat} (h : s.Valid) (htail : s.data + n ≤ s.tail) :
    Safe s { s with data := s.data + n, log := s.log ++ [⟨false, s.data, n⟩] } := by
  rw [safe_of_append rfl]
  refine ⟨⟨?_, htail, h.tail⟩, ?_⟩
  · have := h.head
    simp only
    omega
  · intro x hx
    obtain rfl := List.mem_singleton.mp hx
    exact Access.within_of (Int.le_refl _) htail

/-- A copy of a negative length is none of the buffer's. -/
theorem not_within_of_neg {write : Bool} {addr lo hi n : Int} (hneg : n < 0) (hlo : -2 ^ 31 ≤ n) (haddr : 0 ≤ addr) (hhi : hi ≤ 65536) :
    ¬(Access.mk write addr (toSize n)).Within lo hi := by
  have hsize := cast_toSize_of_neg hneg (by omega)
  refine Access.not_within ?_ ?_
  · simp only
    omega
  · simp only
    omega

/-! ## The operations one by one -/

/-- `reset` is always safe. -/
theorem reset_safe (hs : s.step .reset = some s') : Safe s s' := by
  obtain rfl := step_of_ok hs rfl
  refine (safe_of_silent ?_).mpr ⟨Int.le_refl _, Int.le_refl _, show (0 : Int) ≤ 65536 by decide⟩
  rfl

/-- `compact` is safe for a buffer that has a place. -/
theorem compact_safe (h : s.Placed) (hs : s.step .compact = some s') : Safe s s' := by
  obtain ⟨hhead, hdata, htail⟩ := h.toValid
  have hstart := h.atStart
  have hend := h.atEnd
  obtain rfl := step_of_ok hs (run_compact s)
  have hlen : toInt (s.tail - s.data) = s.tail - s.data := toInt_of_lt (by omega) (by omega)
  have hsize : (toSize (s.tail - s.data) : Int) = s.tail - s.data := cast_toSize_of_nonneg (by omega) (by omega)
  rw [safe_of_append rfl, hlen]
  refine ⟨⟨Int.le_refl _, ?_, ?_⟩, ?_⟩
  · simp only
    omega
  · simp only
    omega
  · intro x hx
    rcases List.mem_cons.mp hx with rfl | hx
    · refine Access.within_of (Int.le_refl _) ?_
      simp only
      omega
    · obtain rfl := List.mem_singleton.mp hx
      refine Access.within_of (Int.le_refl _) ?_
      simp only
      omega

/-- `put` is safe when the offset fits. -/
theorem put_safe_iff {offset : Int} (h : s.Valid) (hs : s.step (.put offset) = some s') :
    Safe s s' ↔ (BufferOp.put offset).Fits s := by
  obtain ⟨hc, rfl⟩ := step_of_guarded hs (run_put s offset)
  refine (safe_of_silent ?_).trans ⟨fun h' => h'.data, fun hfits => ⟨h.head, hfits, hc⟩⟩
  rfl

/-- `consume` is safe when the offset fits. -/
theorem consume_safe_iff {offset : Int} (h : s.Valid) (hs : s.step (.consume offset) = some s') :
    Safe s s' ↔ (BufferOp.consume offset).Fits s := by
  obtain ⟨hc, rfl⟩ := step_of_guarded hs (run_consume s offset)
  refine (safe_of_silent ?_).trans ⟨fun h' => ⟨h'.head, h'.data⟩, fun hfits => ⟨hfits.1, hfits.2, h.tail⟩⟩
  rfl

/-- `put_raw_data` is safe for a length that is not negative. -/
theorem putRawData_safe_iff {dataBytes : Nat → UInt8} {dataLen : Int} (h : s.Placed) (htyped : -2 ^ 31 ≤ dataLen ∧ dataLen < 2 ^ 31)
    (hs : s.step (.putRawData dataBytes dataLen) = some s') : Safe s s' ↔ 0 ≤ dataLen := by
  obtain ⟨hhead, hdata, htail⟩ := h.toValid
  have hstart := h.atStart
  have hend := h.atEnd
  obtain ⟨hc, rfl⟩ := step_of_guarded hs (run_putRawData s dataBytes dataLen)
  rw [safe_of_append rfl]
  constructor
  · intro h'
    by_contra hneg
    have hwithin := h'.2 _ List.mem_cons_self
    exact not_within_of_neg (by omega) htyped.1 (by omega) (by omega) hwithin
  · intro hnn
    have hsize := cast_toSize_of_nonneg hnn (by omega)
    refine ⟨⟨hhead, ?_, hc⟩, ?_⟩
    · simp only
      omega
    · intro x hx
      obtain rfl := List.mem_singleton.mp hx
      refine Access.within_of (Int.le_trans hhead hdata) ?_
      simp only
      omega

/-- `consume_raw_data` is safe for a length that is not negative. -/
theorem consumeRawData_safe_iff {dataLen : Int} (h : s.Placed) (htyped : -2 ^ 31 ≤ dataLen ∧ dataLen < 2 ^ 31)
    (hs : s.step (.consumeRawData dataLen) = some s') : Safe s s' ↔ 0 ≤ dataLen := by
  obtain ⟨hhead, hdata, htail⟩ := h.toValid
  have hstart := h.atStart
  have hend := h.atEnd
  obtain ⟨hc, rfl⟩ := step_of_guarded hs (run_discard (run_consumeRawData s dataLen))
  rw [safe_of_append rfl]
  constructor
  · intro h'
    by_contra hneg
    have hwithin := h'.2 _ List.mem_cons_self
    exact not_within_of_neg (by omega) htyped.1 (by omega) (by omega) hwithin
  · intro hnn
    have hsize := cast_toSize_of_nonneg hnn (by omega)
    refine ⟨⟨?_, hc, htail⟩, ?_⟩
    · simp only
      omega
    · intro x hx
      obtain rfl := List.mem_singleton.mp hx
      refine Access.within_of (Int.le_refl _) ?_
      simp only
      omega

/-- `put_data` is safe for a length that is not negative. -/
theorem putData_safe_iff {dataBytes : Nat → UInt8} {dataLen : Int} (h : s.Placed) (htyped : -2 ^ 31 ≤ dataLen ∧ dataLen < 2 ^ 31)
    (hs : s.step (.putData dataBytes dataLen) = some s') : Safe s s' ↔ 0 ≤ dataLen := by
  obtain ⟨hhead, hdata, htail⟩ := h.toValid
  have hstart := h.atStart
  have hend := h.atEnd
  have hrun : (BufferOp.putData dataBytes dataLen).exec.run s = _ := run_putData s dataBytes dataLen
  have hfirst : (putInt16 dataLen).run s = _ := run_putInt s 2 htons dataLen
  by_cases hc : s.tail + 2 ≤ s.bufEnd
  · rw [if_pos (show s.tail + ((2 : Nat) : Int) ≤ s.bufEnd from hc)] at hfirst
    rw [hfirst] at hrun
    dsimp only at hrun
    rw [run_putRawData] at hrun
    obtain ⟨hc', rfl⟩ := step_of_guarded hs hrun
    simp only at hc'
    refine (safe_of_append (List.append_assoc _ _ _)).trans ⟨fun h' => ?_, fun hnn => ?_⟩
    · by_contra hneg
      have hwithin := h'.2 _ (List.mem_cons_of_mem _ List.mem_cons_self)
      exact not_within_of_neg (by omega) htyped.1 (show 0 ≤ s.tail + 2 by omega) (by omega) hwithin
    · have hsize := cast_toSize_of_nonneg hnn (by omega)
      refine ⟨⟨hhead, ?_, hc'⟩, fun x hx => ?_⟩
      · simp only
        omega
      · rcases List.mem_cons.mp hx with rfl | hx
        · exact Access.within_of (Int.le_trans hhead hdata) hc
        · obtain rfl := List.mem_singleton.mp hx
          refine Access.within_of ?_ ?_
          · simp only
            omega
          · simp only
            omega
  · rw [if_neg (show ¬s.tail + ((2 : Nat) : Int) ≤ s.bufEnd from hc)] at hfirst
    rw [hfirst] at hrun
    unfold step at hs
    rw [hrun] at hs
    cases hs

/-- Two bytes accessed behind the front, the pointers left where they are. -/
theorem offset_safe_iff {write : Bool} {mem : Int → UInt8} {offset : Int} (h : s.Placed) (htyped : -2 ^ 31 ≤ offset ∧ offset < 2 ^ 31)
    (hc : 0 ≤ offset ∧ toInt (offset + 2) ≤ toInt (s.tail - s.data)) :
    Safe s { s with mem := mem, log := s.log ++ [⟨write, s.data + offset, 2⟩] } ↔ offset + 2 < 2 ^ 31 := by
  obtain ⟨hhead, hdata, htail⟩ := h.toValid
  have hstart := h.atStart
  have hend := h.atEnd
  rw [toInt_of_lt (v := s.tail - s.data) (by omega) (by omega)] at hc
  rw [safe_of_append rfl]
  constructor
  · intro h'
    by_contra hlarge
    have hwithin := h'.2 _ List.mem_cons_self
    cases write with
    | true =>
      refine Access.not_within (x := ⟨true, s.data + offset, 2⟩) Nat.two_pos ?_ hwithin
      simp only
      omega
    | false =>
      refine Access.not_within (x := ⟨false, s.data + offset, 2⟩) Nat.two_pos ?_ hwithin
      simp only
      omega
  · intro hsmall
    rw [toInt_of_lt (v := offset + 2) (by omega) hsmall] at hc
    refine ⟨⟨hhead, hdata, htail⟩, ?_⟩
    intro x hx
    obtain rfl := List.mem_singleton.mp hx
    cases write with
    | true => exact Access.within_of (show s.head ≤ s.data + offset by omega) (show s.data + offset + 2 ≤ s.bufEnd by omega)
    | false => exact Access.within_of (show s.data ≤ s.data + offset by omega) (show s.data + offset + 2 ≤ s.tail by omega)

/-- `set_int16` is safe when the check of the offset does not overflow. -/
theorem setInt16_safe_iff {val offset : Int} (h : s.Placed) (htyped : -2 ^ 31 ≤ offset ∧ offset < 2 ^ 31)
    (hs : s.step (.setInt16 val offset) = some s') : Safe s s' ↔ offset + 2 < 2 ^ 31 := by
  obtain ⟨hc, rfl⟩ := step_of_guarded hs (run_setInt16 s val offset)
  exact offset_safe_iff h htyped hc

/-- `get_int16` is safe when the check of the offset does not overflow. -/
theorem getInt16_safe_iff {offset : Int} (h : s.Placed) (htyped : -2 ^ 31 ≤ offset ∧ offset < 2 ^ 31)
    (hs : s.step (.getInt16 offset) = some s') : Safe s s' ↔ offset + 2 < 2 ^ 31 := by
  obtain ⟨hc, rfl⟩ := step_of_guarded hs (run_discard (run_getInt16 s offset))
  exact offset_safe_iff h htyped hc

/-- The length of the data is read, and then the data. -/
theorem consumeData_safe_iff (h : s.Placed) (htail : s.data + 2 ≤ s.tail) :
    Safe s
      { s with
        data := s.data + 2 + s.wireLength
        log := s.log ++ [⟨false, s.data, 2⟩] ++ [⟨false, s.data + 2, toSize s.wireLength⟩] } ↔
      0 ≤ s.wireLength ∧ s.data + 2 + s.wireLength ≤ s.tail := by
  obtain ⟨hhead, hdata, hend⟩ := h.toValid
  have hstart := h.atStart
  have hlast := h.atEnd
  have hbounds := wireLength_bounds s
  refine (safe_of_append (List.append_assoc _ _ _)).trans ⟨fun h' => ⟨?_, h'.1.data⟩, fun hfits => ?_⟩
  · by_contra hneg
    have hwithin := h'.2 _ (List.mem_cons_of_mem _ List.mem_cons_self)
    exact not_within_of_neg (by omega) (by omega) (by omega) (by omega) hwithin
  · have hsize := cast_toSize_of_nonneg hfits.1 (by omega)
    refine ⟨⟨?_, hfits.2, hend⟩, fun x hx => ?_⟩
    · simp only
      omega
    · rcases List.mem_cons.mp hx with rfl | hx
      · exact Access.within_of (Int.le_refl _) htail
      · obtain rfl := List.mem_singleton.mp hx
        refine Access.within_of ?_ ?_
        · simp only
          omega
        · simp only
          omega

/-- `consume_all_data` is safe when the length on the wire is not negative. -/
theorem consumeAllData_safe_iff {maxDataLen : Int} (h : s.Placed) (hs : s.step (.consumeAllData maxDataLen) = some s') :
    Safe s s' ↔ 0 ≤ s.wireLength := by
  have hrun := run_consumeAllData s maxDataLen
  by_cases hlen : s.data + 2 ≤ s.tail
  · rw [if_pos hlen] at hrun
    by_cases hmax : s.wireLength ≤ maxDataLen
    · rw [if_pos hmax] at hrun
      obtain ⟨hc, rfl⟩ := step_of_guarded hs (run_discard hrun)
      rw [consumeData_safe_iff h hlen]
      exact and_iff_left hc
    · rw [if_neg hmax] at hrun
      obtain ⟨hfalse, -⟩ := step_of_guarded (c := False) (m := s) hs (run_discard (c := False) (m := s) (a := (0, [])) hrun)
      exact hfalse.elim
  · rw [if_neg hlen] at hrun
    obtain ⟨hfalse, -⟩ := step_of_guarded (c := False) (m := s) hs (run_discard (c := False) (m := s) (a := (0, [])) hrun)
    exact hfalse.elim

/-- `consume_all_data_into_string` is safe when the data of that length are there. -/
theorem consumeAllDataIntoString_safe_iff (h : s.Placed) (hs : s.step .consumeAllDataIntoString = some s') :
    Safe s s' ↔ s.data + 2 + s.wireLength ≤ s.tail := by
  have hbounds := wireLength_bounds s
  have hrun := run_consumeAllDataIntoString s
  have hexec : BufferOp.consumeAllDataIntoString.exec.run s =
      match consumeAllDataIntoString.run s with
      | .ok _ m => .ok () m
      | .error e m => .error e m := by
    rw [BufferOp.exec, EStateM.run_bind]
    cases consumeAllDataIntoString.run s <;> rfl
  rw [hrun] at hexec
  unfold step at hs
  rw [hexec] at hs
  by_cases hlen : s.data + 2 ≤ s.tail
  · rw [if_pos hlen] at hs
    by_cases hthrow : maxSize < toSize s.wireLength
    · -- a negative length throws before anything is read
      rw [if_pos hthrow] at hs
      obtain rfl := Option.some.inj hs
      have hneg : s.wireLength < 0 := by
        by_contra hnn
        have hsize := cast_toSize_of_nonneg (n := s.wireLength) (by omega) (by omega)
        unfold maxSize at hthrow
        omega
      exact iff_of_true (consumeInt_safe h.toValid hlen) (by omega)
    · rw [if_neg hthrow] at hs
      obtain rfl := Option.some.inj hs
      have hnn : 0 ≤ s.wireLength := by
        by_contra hneg
        have hsize := cast_toSize_of_neg (n := s.wireLength) (by omega) (by omega)
        unfold maxSize at hthrow
        omega
      rw [consumeData_safe_iff h hlen]
      exact and_iff_right hnn
  · rw [if_neg hlen] at hs
    cases hs

/-- An operation whose assertions pass is safe exactly if its arguments fit. -/
theorem step_safe_iff {op : BufferOp} (h : s.Placed) (htyped : op.Typed) (hs : s.step op = some s') : Safe s s' ↔ op.Fits s := by
  cases op with
  | reset => exact iff_of_true (reset_safe hs) trivial
  | compact => exact iff_of_true (compact_safe h hs) trivial
  | put offset => exact put_safe_iff h.toValid hs
  | consume offset => exact consume_safe_iff h.toValid hs
  | putInt32 val =>
    obtain ⟨hc, rfl⟩ := step_of_guarded hs (run_putInt s 4 htonl val)
    exact iff_of_true (putInt_safe h.toValid hc) trivial
  | putInt64 val =>
    obtain ⟨hc, rfl⟩ := step_of_guarded hs (run_putInt s 8 htonll val)
    exact iff_of_true (putInt_safe h.toValid hc) trivial
  | putInt16 val =>
    obtain ⟨hc, rfl⟩ := step_of_guarded hs (run_putInt s 2 htons val)
    exact iff_of_true (putInt_safe h.toValid hc) trivial
  | putRawData dataBytes dataLen => exact putRawData_safe_iff h htyped hs
  | putData dataBytes dataLen => exact putData_safe_iff h htyped hs
  | consumeInt32 =>
    obtain ⟨hc, rfl⟩ := step_of_guarded hs (run_discard (run_consumeInt s 4 htonl))
    exact iff_of_true (consumeInt_safe h.toValid hc) trivial
  | consumeInt64 =>
    obtain ⟨hc, rfl⟩ := step_of_guarded hs (run_discard (run_consumeInt s 8 ntohll))
    exact iff_of_true (consumeInt_safe h.toValid hc) trivial
  | consumeInt16 =>
    obtain ⟨hc, rfl⟩ := step_of_guarded hs (run_discard (run_consumeInt s 2 htons))
    exact iff_of_true (consumeInt_safe h.toValid hc) trivial
  | consumeRawData dataLen => exact consumeRawData_safe_iff h htyped hs
  | consumeAllData maxDataLen => exact consumeAllData_safe_iff h hs
  | consumeAllDataIntoString => exact consumeAllDataIntoString_safe_iff h hs
  | setInt16 val offset => exact setInt16_safe_iff h htyped hs
  | getInt16 offset => exact getInt16_safe_iff h htyped hs
  | len =>
    obtain rfl := step_of_ok hs rfl
    exact iff_of_true ((safe_of_silent rfl).mpr h.toValid) trivial
  | dataPointer =>
    obtain rfl := step_of_ok hs rfl
    exact iff_of_true ((safe_of_silent rfl).mpr h.toValid) trivial

/-! ## The limits of the buffer -/

/-- The first and the last pointer are where `reset` puts them, if they were. -/
def LimitsKept (s s' : BufferSerializer) : Prop := s.head = 0 ∧ s.bufEnd = 65536 → s'.head = 0 ∧ s'.bufEnd = 65536

instance : Std.Refl LimitsKept := ⟨fun _ h => h⟩

instance : IsTrans BufferSerializer LimitsKept := ⟨fun _ _ _ h h' hs => h' (h hs)⟩

/-- A check changes no limit. -/
theorem check_limits (c : Prop) [Decidable c] : Exn.Keeps LimitsKept (check c) := Exn.keeps_ite (Exn.keeps_pure _) (Exn.keeps_throw _)

/-- A read changes no limit. -/
theorem load_limits (addr : Int) (n : Nat) : Exn.Keeps LimitsKept (load addr n) := fun _ h => h

/-- An unsigned read changes no limit. -/
theorem loadUnsigned_limits (addr : Int) (n : Nat) : Exn.Keeps LimitsKept (loadUnsigned addr n) :=
  Exn.keeps_bind (load_limits addr n) fun _ => Exn.keeps_pure _

/-- The calls that put an integer keep the limits. -/
theorem putInt_limits (n : Nat) (hton : Nat → Nat) (val : Int) : Exn.Keeps LimitsKept (putInt n hton val) :=
  Exn.keeps_bind Exn.keeps_get fun _ => Exn.keeps_bind (check_limits _) fun _ =>
    Exn.keeps_bind (Exn.keeps_modify fun _ h => h) fun _ => Exn.keeps_modify fun _ h => h

/-- `put_raw_data` keeps the limits. -/
theorem putRawData_limits (dataBytes : Nat → UInt8) (dataLen : Int) : Exn.Keeps LimitsKept (putRawData dataBytes dataLen) :=
  Exn.keeps_bind Exn.keeps_get fun _ => Exn.keeps_bind (check_limits _) fun _ =>
    Exn.keeps_bind (Exn.keeps_modify fun _ h => h) fun _ => Exn.keeps_modify fun _ h => h

/-- The calls that consume an integer keep the limits. -/
theorem consumeInt_limits (n : Nat) (ntoh : Nat → Nat) : Exn.Keeps LimitsKept (consumeInt n ntoh) :=
  Exn.keeps_bind Exn.keeps_get fun _ => Exn.keeps_bind (check_limits _) fun _ =>
    Exn.keeps_bind (Exn.keeps_modify fun _ h => h) fun _ => Exn.keeps_bind (loadUnsigned_limits _ _) fun _ => Exn.keeps_pure _

/-- `consume_raw_data` keeps the limits. -/
theorem consumeRawData_limits (dataLen : Int) : Exn.Keeps LimitsKept (consumeRawData dataLen) :=
  Exn.keeps_bind Exn.keeps_get fun _ => Exn.keeps_bind (check_limits _) fun _ =>
    Exn.keeps_bind (load_limits _ _) fun _ => Exn.keeps_bind (Exn.keeps_modify fun _ h => h) fun _ => Exn.keeps_pure _

/-- `consume_all_data` keeps the limits. -/
theorem consumeAllData_limits (maxDataLen : Int) : Exn.Keeps LimitsKept (consumeAllData maxDataLen) :=
  Exn.keeps_bind (consumeInt_limits _ _) fun _ => Exn.keeps_bind (check_limits _) fun _ =>
    Exn.keeps_bind (consumeRawData_limits _) fun _ => Exn.keeps_pure _

/-- `consume_all_data_into_string` keeps the limits. -/
theorem consumeAllDataIntoString_limits : Exn.Keeps LimitsKept consumeAllDataIntoString :=
  Exn.keeps_bind (consumeInt_limits _ _) fun _ => Exn.keeps_bind Exn.keeps_get fun _ =>
    Exn.keeps_bind (Exn.keeps_check (load_limits _ _)) fun _ => Exn.keeps_bind (Exn.keeps_modify fun _ h => h) fun _ => Exn.keeps_pure _

/-- The check of an offset keeps the limits. -/
theorem checkOffset_limits (offset : Int) : Exn.Keeps LimitsKept (checkOffset offset) :=
  Exn.keeps_bind Exn.keeps_get fun _ => check_limits _

/-- Every call keeps the limits. -/
theorem exec_limits (op : BufferOp) : Exn.Keeps LimitsKept op.exec := by
  cases op with
  | reset => exact Exn.keeps_modify fun _ _ => ⟨rfl, rfl⟩
  | compact =>
    exact Exn.keeps_bind Exn.keeps_get fun _ => Exn.keeps_bind (load_limits _ _) fun _ =>
      Exn.keeps_bind (Exn.keeps_modify fun _ h => h) fun _ => Exn.keeps_modify fun _ h => h
  | put offset =>
    exact Exn.keeps_bind Exn.keeps_get fun _ => Exn.keeps_bind (check_limits _) fun _ => Exn.keeps_modify fun _ h => h
  | consume offset =>
    exact Exn.keeps_bind Exn.keeps_get fun _ => Exn.keeps_bind (check_limits _) fun _ => Exn.keeps_modify fun _ h => h
  | putInt32 val => exact putInt_limits 4 htonl val
  | putInt64 val => exact putInt_limits 8 htonll val
  | putInt16 val => exact putInt_limits 2 htons val
  | putRawData dataBytes dataLen => exact putRawData_limits dataBytes dataLen
  | putData dataBytes dataLen => exact Exn.keeps_bind (putInt_limits 2 htons dataLen) fun _ => putRawData_limits dataBytes dataLen
  | consumeInt32 => exact Exn.keeps_bind (consumeInt_limits 4 htonl) fun _ => Exn.keeps_pure _
  | consumeInt64 => exact Exn.keeps_bind (consumeInt_limits 8 ntohll) fun _ => Exn.keeps_pure _
  | consumeInt16 => exact Exn.keeps_bind (consumeInt_limits 2 htons) fun _ => Exn.keeps_pure _
  | consumeRawData dataLen => exact Exn.keeps_bind (consumeRawData_limits dataLen) fun _ => Exn.keeps_pure _
  | consumeAllData maxDataLen => exact Exn.keeps_bind (consumeAllData_limits maxDataLen) fun _ => Exn.keeps_pure _
  | consumeAllDataIntoString => exact Exn.keeps_bind consumeAllDataIntoString_limits fun _ => Exn.keeps_pure _
  | setInt16 val offset =>
    exact Exn.keeps_bind (checkOffset_limits offset) fun _ => Exn.keeps_bind Exn.keeps_get fun _ => Exn.keeps_modify fun _ h => h
  | getInt16 offset =>
    exact Exn.keeps_bind (Exn.keeps_bind (checkOffset_limits offset) fun _ => Exn.keeps_bind Exn.keeps_get fun _ =>
      Exn.keeps_bind (loadUnsigned_limits _ _) fun _ => Exn.keeps_pure _) fun _ => Exn.keeps_pure _
  | len => exact fun _ h => h
  | dataPointer => exact fun _ h => h

/-- A step keeps the limits. -/
theorem step_limits {op : BufferOp} (hs : s.step op = some s') : LimitsKept s s' := by
  unfold step at hs
  cases hrun : op.exec.run s with
  | ok u m =>
    rw [hrun] at hs
    cases hs
    exact (exec_limits op).of_ok hrun
  | error e m =>
    rw [hrun] at hs
    cases e with
    | assertion => cases hs
    | lengthError =>
      cases hs
      exact (exec_limits op).of_error hrun

/-- A call that fits keeps the buffer in its place. -/
theorem Placed.step {op : BufferOp} (h : s.Placed) (htyped : op.Typed) (hfits : op.Fits s) (hs : s.step op = some s') : s'.Placed := by
  obtain ⟨hstart, hend⟩ := step_limits hs ⟨h.atStart, h.atEnd⟩
  exact ⟨((step_safe_iff h htyped hs).mpr hfits).valid, hstart, hend⟩

end BufferSerializer

/-- In every run of operations whose arguments fit, the pointers are in order after each operation and every access was inside; and
the next operation whose assertions pass keeps this exactly if its arguments fit. -/
theorem buffer_safe_iff (mem : Int → UInt8) (ops : List BufferOp) (s : BufferSerializer) (htyped : ∀ op ∈ ops, op.Typed)
    (hfits : Lts.Along BufferSerializer.step (fun s op => op.Fits s) (BufferSerializer.fresh mem) ops)
    (hrun : Lts.run BufferSerializer.step (BufferSerializer.fresh mem) ops = some s) :
    s.Valid ∧ ∀ op s', op.Typed → s.step op = some s' → (s.Safe s' ↔ op.Fits s) := by
  have hplaced : s.Placed := by
    refine Lts.run_inv_of_labels (I := fun _ s => s.Placed) (G := fun ops => ∀ op ∈ ops, BufferOp.Typed op) ?_ ?_ ?_ htyped hfits hrun
    · intro ops op h op' hop'
      exact h op' (List.mem_append_left _ hop')
    · intro ops m op m' h hm hop hs
      exact hm.step (h op (List.mem_append_right _ (List.mem_singleton.mpr rfl))) hop hs
    · exact ⟨⟨Int.le_refl _, Int.le_refl _, show (0 : Int) ≤ 65536 by decide⟩, rfl, rfl⟩
  exact ⟨hplaced.toValid, fun op s' ht hs => BufferSerializer.step_safe_iff hplaced ht hs⟩

/-- A number written and read back. -/
theorem buffer_safe_iff_int16 : ∃ s, Lts.run BufferSerializer.step (BufferSerializer.fresh fun _ => 0)
    [.putInt16 7, .consumeInt16] = some s ∧ s.Valid := by
  refine ⟨_, rfl, (buffer_safe_iff (fun _ => 0) [.putInt16 7, .consumeInt16] _ ?_ ?_ rfl).1⟩
  · intro op hop
    rcases List.mem_cons.mp hop with rfl | hop
    · trivial
    · rw [List.mem_singleton.mp hop]
      trivial
  · exact ⟨trivial, fun _ _ => ⟨trivial, fun _ _ => trivial⟩⟩

/-- `consume` measures from `head`: consuming the same two bytes twice leaves the data behind the tail. -/
theorem consume_passes_tail : ¬∀ (mem : Int → UInt8) (ops : List BufferOp) (s : BufferSerializer), (∀ op ∈ ops, op.Typed) →
    Lts.run BufferSerializer.step (BufferSerializer.fresh mem) ops = some s → s.Valid := by
  intro hall
  have hvalid := hall (fun _ => 0) [.put 2, .consume 2, .consume 2] _ ?_ rfl
  · have hdata : (4 : Int) ≤ 2 := hvalid.data
    exact absurd hdata (by decide)
  · intro op hop
    simp only [List.mem_cons, List.not_mem_nil, or_false] at hop
    rcases hop with rfl | rfl | rfl <;> exact ⟨by decide, by decide⟩

end Blockmon
