import Blockmon.BufferSerializer

/-!
# What the operations of the buffer do

One equation for each operation: the condition under which its assertions pass, the value it returns and the buffer it leaves.
-/

namespace Blockmon

namespace BufferSerializer

variable (s : BufferSerializer)

/-- An assertion and the rest of the operation. -/
theorem run_check_bind {α : Type} (c : Prop) [Decidable c] (f : Unit → EStateM Stop BufferSerializer α) :
    (check c >>= f).run s = if c then (f ()).run s else .error .assertion s := by
  unfold check
  split <;> rfl

/-- A read of the state before a call. -/
theorem run_get_bind {α : Type} (f : BufferSerializer → EStateM Stop BufferSerializer α) : (get >>= f).run s = (f s).run s := rfl

/-- `put`, as a run. -/
theorem run_put (offset : Int) :
    (put offset).run s = if s.tail + offset ≤ s.bufEnd then .ok () { s with tail := s.tail + offset } else .error .assertion s :=
  run_check_bind s _ _

/-- `consume`, as a run. -/
theorem run_consume (offset : Int) :
    (consume offset).run s = if s.head + offset ≤ s.tail then .ok () { s with data := s.data + offset } else .error .assertion s :=
  run_check_bind s _ _

/-- `put_int16`, `put_int32` and `put_int64`, as a run. -/
theorem run_putInt (n : Nat) (hton : Nat → Nat) (val : Int) :
    (putInt n hton val).run s =
      if s.tail + n ≤ s.bufEnd then
        .ok ()
          { s with
            mem := Bytes.write s.mem s.tail n (Bytes.source (Bytes.encode n (hton (Bytes.unsigned (256 ^ n) val))))
            tail := s.tail + n
            log := s.log ++ [⟨true, s.tail, n⟩] }
      else .error .assertion s :=
  run_check_bind s _ _

/-- `put_raw_data`, as a run. -/
theorem run_putRawData (dataBytes : Nat → UInt8) (dataLen : Int) :
    (putRawData dataBytes dataLen).run s =
      if s.tail + dataLen ≤ s.bufEnd then
        .ok ()
          { s with
            mem := Bytes.write s.mem s.tail (toSize dataLen) dataBytes
            tail := s.tail + dataLen
            log := s.log ++ [⟨true, s.tail, toSize dataLen⟩] }
      else .error .assertion s :=
  run_check_bind s _ _

/-- `consume_int16`, `consume_int32` and `consume_int64`, as a run. -/
theorem run_consumeInt (n : Nat) (ntoh : Nat → Nat) :
    (consumeInt n ntoh).run s =
      if s.data + n ≤ s.tail then
        .ok (Bytes.signed (256 ^ n) (ntoh (Bytes.decode (Bytes.read s.mem s.data n))))
          { s with data := s.data + n, log := s.log ++ [⟨false, s.data, n⟩] }
      else .error .assertion s :=
  run_check_bind s _ _

/-- `consume_raw_data`, as a run. -/
theorem run_consumeRawData (dataLen : Int) :
    (consumeRawData dataLen).run s =
      if s.data + dataLen ≤ s.tail then
        .ok (Bytes.read s.mem s.data (toSize dataLen))
          { s with data := s.data + dataLen, log := s.log ++ [⟨false, s.data, toSize dataLen⟩] }
      else .error .assertion s :=
  run_check_bind s _ _

/-- The construction of a string, as a run. -/
theorem run_stringAt (addr n : Int) :
    (stringAt addr n).run s =
      if maxSize < toSize n then .error .lengthError s
      else .ok (Bytes.read s.mem addr (toSize n)) { s with log := s.log ++ [⟨false, addr, toSize n⟩] } := by
  unfold stringAt
  by_cases h : maxSize < toSize n
  · rw [if_pos h, if_pos h]
    rfl
  · rw [if_neg h, if_neg h]
    rfl

/-- `compact`, as a run. -/
theorem run_compact :
    compact.run s =
      .ok ()
        { s with
          mem := Bytes.write s.mem s.head (toSize (toInt (s.tail - s.data))) fun i => s.mem (s.data + (i : Int))
          data := s.head
          tail := s.head + toInt (s.tail - s.data)
          log := s.log ++ [⟨false, s.data, toSize (toInt (s.tail - s.data))⟩, ⟨true, s.head, toSize (toInt (s.tail - s.data))⟩] } := by
  have hlog : s.log ++ [⟨false, s.data, toSize (toInt (s.tail - s.data))⟩, ⟨true, s.head, toSize (toInt (s.tail - s.data))⟩] =
      s.log ++ [⟨false, s.data, toSize (toInt (s.tail - s.data))⟩] ++ [⟨true, s.head, toSize (toInt (s.tail - s.data))⟩] := by simp
  rw [hlog]
  rfl

/-- `set_int16`, as a run. -/
theorem run_setInt16 (val offset : Int) :
    (setInt16 val offset).run s =
      if 0 ≤ offset ∧ toInt (offset + 2) ≤ toInt (s.tail - s.data) then
        .ok ()
          { s with
            mem := Bytes.write s.mem (s.data + offset) 2 (Bytes.source (Bytes.encode 2 (htons (Bytes.unsigned (256 ^ 2) val))))
            log := s.log ++ [⟨true, s.data + offset, 2⟩] }
      else .error .assertion s := by
  unfold setInt16 checkOffset
  rw [bind_assoc]
  exact run_check_bind s _ _

/-- `get_int16`, as a run. -/
theorem run_getInt16 (offset : Int) :
    (getInt16 offset).run s =
      if 0 ≤ offset ∧ toInt (offset + 2) ≤ toInt (s.tail - s.data) then
        .ok (Bytes.signed (256 ^ 2) (htons (Bytes.decode (Bytes.read s.mem (s.data + offset) 2))))
          { s with log := s.log ++ [⟨false, s.data + offset, 2⟩] }
      else .error .assertion s := by
  unfold getInt16 checkOffset
  rw [bind_assoc]
  exact run_check_bind s _ _

/-- `put_data` begins with the length. -/
theorem run_putData (dataBytes : Nat → UInt8) (dataLen : Int) :
    (putData dataBytes dataLen).run s =
      match (putInt16 dataLen).run s with
      | .ok _ m => (putRawData dataBytes dataLen).run m
      | .error e m => .error e m := by
  unfold putData
  rw [EStateM.run_bind]
  cases (putInt16 dataLen).run s <;> rfl

/-- The 16-bit number that the next two bytes of data are. -/
def wireLength (s : BufferSerializer) : Int := Bytes.signed (256 ^ 2) (htons (Bytes.decode (Bytes.read s.mem s.data 2)))

/-- The buffer after the length. -/
def afterLength (s : BufferSerializer) : BufferSerializer := { s with data := s.data + 2, log := s.log ++ [⟨false, s.data, 2⟩] }

/-- `consume_int16` reads the length. -/
theorem run_consumeInt16 : consumeInt16.run s = if s.data + 2 ≤ s.tail then .ok s.wireLength s.afterLength else .error .assertion s :=
  run_consumeInt s 2 htons

/-- `consume_all_data`, as a run. -/
theorem run_consumeAllData (maxDataLen : Int) :
    (consumeAllData maxDataLen).run s =
      if s.data + 2 ≤ s.tail then
        if s.wireLength ≤ maxDataLen then
          if s.data + 2 + s.wireLength ≤ s.tail then
            .ok (s.wireLength, Bytes.read s.mem (s.data + 2) (toSize s.wireLength))
              { s with
                data := s.data + 2 + s.wireLength
                log := s.log ++ [⟨false, s.data, 2⟩] ++ [⟨false, s.data + 2, toSize s.wireLength⟩] }
          else .error .assertion s.afterLength
        else .error .assertion s.afterLength
      else .error .assertion s := by
  unfold consumeAllData
  rw [EStateM.run_bind, run_consumeInt16]
  by_cases hlen : s.data + 2 ≤ s.tail
  · rw [if_pos hlen, if_pos hlen]
    dsimp only
    rw [run_check_bind]
    by_cases hmax : s.wireLength ≤ maxDataLen
    · rw [if_pos hmax, if_pos hmax, EStateM.run_bind, run_consumeRawData]
      by_cases htail : s.data + 2 + s.wireLength ≤ s.tail
      · rw [if_pos htail, if_pos (show s.afterLength.data + s.wireLength ≤ s.afterLength.tail from htail)]
        rfl
      · rw [if_neg htail, if_neg (show ¬s.afterLength.data + s.wireLength ≤ s.afterLength.tail from htail)]
    · rw [if_neg hmax, if_neg hmax]
  · rw [if_neg hlen, if_neg hlen]

/-- `consume_all_data_into_string`, as a run. -/
theorem run_consumeAllDataIntoString :
    consumeAllDataIntoString.run s =
      if s.data + 2 ≤ s.tail then
        if maxSize < toSize s.wireLength then .error .lengthError s.afterLength
        else
          .ok (Bytes.read s.mem (s.data + 2) (toSize s.wireLength))
            { s with
              data := s.data + 2 + s.wireLength
              log := s.log ++ [⟨false, s.data, 2⟩] ++ [⟨false, s.data + 2, toSize s.wireLength⟩] }
      else .error .assertion s := by
  unfold consumeAllDataIntoString
  have hlength := run_consumeInt16 s
  by_cases hlen : s.data + 2 ≤ s.tail
  · rw [if_pos hlen] at hlength
    rw [if_pos hlen, Exn.run_bind_of_ok hlength, run_get_bind]
    have hstring := run_stringAt s.afterLength s.afterLength.data s.wireLength
    by_cases hthrow : maxSize < toSize s.wireLength
    · rw [if_pos hthrow] at hstring
      rw [if_pos hthrow, Exn.run_bind_of_error hstring]
    · rw [if_neg hthrow] at hstring
      rw [if_neg hthrow, Exn.run_bind_of_ok hstring]
      rfl
  · rw [if_neg hlen] at hlength
    rw [if_neg hlen, Exn.run_bind_of_error hlength]

/-! ## Conversions -/

end BufferSerializer

/-- A length that is not negative is its size. -/
theorem cast_toSize_of_nonneg {n : Int} (hnn : 0 ≤ n) (hlt : n < 2 ^ 63) : (toSize n : Int) = n :=
  Bytes.unsigned_of_lt hnn (by omega)

/-- A negative length is a large size. -/
theorem cast_toSize_of_neg {n : Int} (hneg : n < 0) (hlo : -2 ^ 63 ≤ n) : (toSize n : Int) = n + 2 ^ 64 := by
  unfold toSize
  rw [Bytes.cast_unsigned (by decide)]
  omega

/-- A number in range is its `int`. -/
theorem toInt_of_lt {v : Int} (hlo : -2 ^ 31 ≤ v) (hhi : v < 2 ^ 31) : toInt v = v :=
  Bytes.signed_of_lt (by omega) (by omega)

/-- The length on the wire has 16 bits. -/
theorem wireLength_bounds (s : BufferSerializer) : -2 ^ 15 ≤ s.wireLength ∧ s.wireLength < 2 ^ 15 := by
  have hlo : (-65536 : Int) ≤ s.wireLength * 2 := Bytes.le_signed (m := 256 ^ 2) (by decide) _
  have hhi : s.wireLength * 2 < 65536 := Bytes.signed_lt (m := 256 ^ 2) (by decide) _
  omega

end Blockmon
