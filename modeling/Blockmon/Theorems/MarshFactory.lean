import Blockmon.MarshFactory

/-!
# Marshalling and back

What the factory writes for a message it reads as this message, if the buffer has room for an `int` of bytes. What it reads from a buffer is the
business of the module only if the buffer holds the header and the number of bytes that the header names; nothing checks that it does.
-/

namespace Blockmon.Marsh

/-! ## Words -/

/-- The two conversions are inverse. -/
theorem ntohl_htonl (v : UInt32) : ntohl (htonl v) = v := by
  have hv := v.toNat_lt
  have hswap : Bytes.swap 4 v.toNat % 2 ^ 32 = Bytes.swap 4 v.toNat := Nat.mod_eq_of_lt (Bytes.swap_lt 4 v.toNat)
  refine UInt32.toNat_inj.mp ?_
  rw [ntohl, htonl, htonl, UInt32.toNat_ofNat', UInt32.toNat_ofNat', hswap, Bytes.swap_swap]
  omega

section Words

variable {off : Nat} {a b c : List UInt8}

/-- A word that stands in a buffer. -/
theorem load_append (hoff : off = a.length) (v : UInt32) : load (a ++ Bytes.encode 4 v.toNat ++ b) off = v := by
  have hlen := Bytes.length_encode 4 v.toNat
  have hv := v.toNat_lt
  rw [load, hoff, List.append_assoc, List.drop_left, List.take_append_of_le_length (by omega), List.take_of_length_le (by omega),
    Bytes.decode_encode]
  refine UInt32.toNat_inj.mp ?_
  rw [UInt32.toNat_ofNat']
  omega

/-- A number is written in place of four bytes. -/
theorem store_append (hoff : off = a.length) (hb : b.length = 4) (v : UInt32) :
    store (a ++ b ++ c) off v = a ++ Bytes.encode 4 v.toNat ++ c :=
  Bytes.overwrite_append hoff ((Bytes.length_encode 4 v.toNat).trans hb.symm)

end Words

/-! ## The two directions -/

/-- What the law of a module is for a message: it writes `written` bytes if it has room for `need`, and reads the message from them. -/
structure Lawful {M : Type} (module : BaseMarshall M) (m : M) (need written : Nat) : Prop where
  written_le : written ≤ need
  fits_iff : ∀ body, (∃ r, module.marshall m body = .ok r) ↔ need ≤ body.length
  returns : ∀ body r, module.marshall m body = .ok r → r.1 = written ∧ module.unmarshall (r.2.take written) = .ok m

namespace MarshallFactory

section Factory

variable {M : Type} (f : MarshallFactory M) (type : M → UInt32)

/-- The bytes written for the message are read as the message. -/
def RoundTrips (m : M) (buf : List UInt8) : Prop :=
  ∃ (n : Nat) (out : List UInt8), f.marshall type m buf = .ok ((n : Int), out) ∧ f.unmarshall (out.take n) = .ok m

/-- An exception, or bytes of the buffer for the module. -/
def Safe (inb : List UInt8) : Prop :=
  (∃ what, f.unmarshallRange inb = .error (.runtimeError what)) ∨
    ∃ module pos len, f.unmarshallRange inb = .ok (module, pos, len) ∧ pos + len ≤ inb.length

variable {f type} {m : M} {module : BaseMarshall M} {need written : Nat} {buf : List UInt8}

/-- A buffer with a header. -/
def image (t n : UInt32) (body rest : List UInt8) : List UInt8 :=
  Bytes.encode 4 (htonl t).toNat ++ Bytes.encode 4 (htonl n).toNat ++ body ++ rest

/-- The two numbers are the head. -/
theorem length_header (t n : UInt32) : (Bytes.encode 4 (htonl t).toNat ++ Bytes.encode 4 (htonl n).toNat).length = HEAD_SIZE := by
  rw [List.length_append, Bytes.length_encode, Bytes.length_encode, HEAD_SIZE]

/-- The first bytes of an image. -/
theorem take_image (t n : UInt32) {body rest : List UInt8} {k : Nat} (h : k ≤ body.length) :
    (image t n body rest).take (k + HEAD_SIZE) = image t n (body.take k) [] := by
  rw [image, image, List.append_assoc, Nat.add_comm, ← length_header t n, List.take_length_add_append, List.take_append_of_le_length h,
    List.append_nil]

/-- What is left for the body is inside of the buffer. -/
theorem newlen_le (h : 0 < newlen buf) : HEAD_SIZE + (newlen buf).toNat ≤ buf.length := by
  simp only [newlen, Bytes.signed, Int.bmod, HEAD_SIZE] at *
  omega

/-- What a module has room for, and the bytes behind it. -/
def room (buf : List UInt8) : List UInt8 := (buf.drop HEAD_SIZE).take (newlen buf).toNat

/-- What is behind the room of the body. -/
def rest (buf : List UInt8) : List UInt8 := buf.drop (HEAD_SIZE + (newlen buf).toNat)

/-- The room has the length that is passed on. -/
theorem length_room (h : 0 < newlen buf) : (room buf).length = (newlen buf).toNat := by
  have hle := newlen_le h
  rw [room, List.length_take, List.length_drop]
  omega

/-- A buffer is a head, its room and the rest. -/
theorem eq_append_room (h : 0 < newlen buf) : ∃ h0 h1, h0.length = 4 ∧ h1.length = 4 ∧ buf = h0 ++ h1 ++ room buf ++ rest buf := by
  have hle := newlen_le h
  have hhead : HEAD_SIZE ≤ buf.length := Nat.le_trans (Nat.le_add_right _ _) hle
  rw [HEAD_SIZE] at hhead
  refine ⟨buf.take 4, (buf.drop 4).take 4, by simp; omega, by simp; omega, ?_⟩
  rw [← List.take_add, List.append_assoc, room, rest, ← List.drop_drop, List.take_append_drop]
  exact (List.take_append_drop HEAD_SIZE buf).symm

/-- What `marshall` leaves in the buffer. -/
theorem marshall_eq (hfind : f.map.find? (toInt (type m)) = some module) (hpos : 0 < newlen buf) :
    f.marshall type m buf = (ofModule (module.marshall m (room buf))).bind fun r =>
      if r.1 + HEAD_SIZE < 2 ^ 31 then
        .ok (r.1 + HEAD_SIZE, image (type m) (UInt32.ofNat (Bytes.unsigned (2 ^ 32) r.1)) r.2 (rest buf))
      else .error .overflow := by
  obtain ⟨h0, h1, hlen0, hlen1, hbuf⟩ := eq_append_room hpos
  have hword := Bytes.length_encode 4 (htonl (type m)).toNat
  have htype : store buf 0 (htonl (type m)) = Bytes.encode 4 (htonl (type m)).toNat ++ h1 ++ (room buf ++ rest buf) := by
    have hstore : store ([] ++ _ ++ (h1 ++ (room buf ++ rest buf))) 0 _ = _ := store_append rfl hlen0 (htonl (type m))
    rw [List.append_assoc, List.append_assoc] at hbuf
    rw [List.nil_append, List.nil_append, ← hbuf] at hstore
    rw [List.append_assoc]
    exact hstore
  have hhead : (Bytes.encode 4 (htonl (type m)).toNat ++ h1).length = HEAD_SIZE := by
    rw [List.length_append, hword, hlen1, HEAD_SIZE]
  have hroom : ((store buf 0 (htonl (type m))).drop HEAD_SIZE).take (newlen buf).toNat = room buf := by
    rw [htype, ← hhead, List.drop_left, ← length_room hpos, List.take_left]
  rw [marshall, if_neg (by omega), hfind]
  simp only [hroom]
  rcases hr : module.marshall m (room buf) with what | ⟨mLen, body⟩
  · rfl
  · have hbody := module.length_marshall _ _ _ hr
    have himage : store (Bytes.overwrite (store buf 0 (htonl (type m))) HEAD_SIZE body) 4
        (htonl (UInt32.ofNat (Bytes.unsigned (2 ^ 32) mLen))) =
        image (type m) (UInt32.ofNat (Bytes.unsigned (2 ^ 32) mLen)) body (rest buf) := by
      rw [htype, ← List.append_assoc, Bytes.overwrite_append hhead.symm hbody, List.append_assoc (_ ++ h1), store_append hword.symm hlen1,
        image, ← List.append_assoc]
    simp only [ofModule, bind, Except.bind, himage]

/-- `unmarshall_range` on an image. -/
theorem unmarshallRange_image (t n : UInt32) (body rest : List UInt8) :
    f.unmarshallRange (image t n body rest) = match f.map.find? (toInt t) with
      | none => .error (.runtimeError "marshalling:: message type not supported")
      | some module => .ok (module, HEAD_SIZE, n.toNat) := by
  have htype : load (image t n body rest) 0 = htonl t := by
    rw [image, List.append_assoc, List.append_assoc, ← List.nil_append (Bytes.encode 4 (htonl t).toNat ++ _), ← List.append_assoc []]
    exact load_append rfl (htonl t)
  have hlen : load (image t n body rest) 4 = htonl n := by
    rw [image, List.append_assoc (_ ++ _)]
    exact load_append (Bytes.length_encode 4 _).symm (htonl n)
  have hlong : ¬(image t n body rest).length < HEAD_SIZE := by
    simp only [image, List.length_append, Bytes.length_encode, HEAD_SIZE]
    omega
  rcases hfind : f.map.find? (toInt t) with _ | module
  · simp only [unmarshallRange, if_neg hlong, htype, ntohl_htonl, hfind]
  · simp only [unmarshallRange, if_neg hlong, htype, hlen, ntohl_htonl, hfind]

/-- `unmarshall` on an image is the one of the module. -/
theorem unmarshall_image (hfind : f.map.find? (toInt (type m)) = some module) (n : UInt32) (body rest : List UInt8)
    (hbody : body.length = n.toNat) : f.unmarshall (image (type m) n body rest) = ofModule (module.unmarshall body) := by
  have hhead := length_header (type m) n
  have hinside : HEAD_SIZE + n.toNat ≤ (image (type m) n body rest).length := by
    rw [image, List.length_append, List.length_append, hhead, hbody]
    exact Nat.le_add_right _ _
  have hbytes : ((image (type m) n body rest).drop HEAD_SIZE).take n.toNat = body := by
    rw [image, List.append_assoc, ← hhead, List.drop_left, ← hbody, List.take_left]
  rw [unmarshall, unmarshallRange_image, hfind]
  simp only [bind, Except.bind, if_pos hinside, hbytes]

/-- The round trip succeeds just when the module has its room and the length is an `int`. -/
theorem roundTrips_iff (hfind : f.map.find? (toInt (type m)) = some module) (hlawful : Lawful module m need written) :
    RoundTrips f type m buf ↔ 0 < newlen buf ∧ need ≤ (newlen buf).toNat ∧ written + HEAD_SIZE < 2 ^ 31 := by
  constructor
  · rintro ⟨n, out, hmarshall, -⟩
    by_cases hpos : 0 < newlen buf
    · rw [marshall_eq hfind hpos] at hmarshall
      rcases hr : module.marshall m (room buf) with what | r
      · rw [hr] at hmarshall
        cases hmarshall
      · rw [hr] at hmarshall
        have hneed := (hlawful.fits_iff _).mp ⟨r, hr⟩
        rw [length_room hpos] at hneed
        refine ⟨hpos, hneed, ?_⟩
        simp only [ofModule, Except.bind, (hlawful.returns _ _ hr).1] at hmarshall
        split at hmarshall
        · omega
        · cases hmarshall
    · rw [marshall, if_pos (by omega)] at hmarshall
      cases hmarshall
  · rintro ⟨hpos, hneed, hint⟩
    obtain ⟨r, hr⟩ := (hlawful.fits_iff (room buf)).mpr (by rwa [length_room hpos])
    obtain ⟨hwritten, hread⟩ := hlawful.returns _ _ hr
    have hlen := module.length_marshall _ _ _ hr
    rw [length_room hpos] at hlen
    have hle := hlawful.written_le
    have hn : (UInt32.ofNat (Bytes.unsigned (2 ^ 32) r.1)).toNat = written := by
      have hcast := Bytes.unsigned_of_lt (m := 2 ^ 32) (v := r.1) (by omega) (by omega)
      rw [UInt32.toNat_ofNat']
      omega
    refine ⟨written + HEAD_SIZE, image (type m) (UInt32.ofNat (Bytes.unsigned (2 ^ 32) r.1)) r.2 (rest buf), ?_, ?_⟩
    · rw [marshall_eq hfind hpos, hr]
      simp only [ofModule, Except.bind, hwritten]
      rw [if_pos (by omega)]
      rfl
    · rw [take_image _ _ (by omega), unmarshall_image hfind _ _ _ (by rw [List.length_take, hn]; omega), hread]
      rfl

/-- The first module that is registered for a type stays. -/
theorem find?_fRegister (msgCode k : Int) (module' : BaseMarshall M) (h : f.map.find? k = some module) :
    (f.fRegister msgCode module').map.find? k = some module := by
  rw [fRegister, OrdMap.find?_insert, h, Option.some_or]

/-- `unmarshall_range` is safe for a head, with the body it announces if there is a module for it. -/
theorem safe_iff (inb : List UInt8) :
    Safe f inb ↔ HEAD_SIZE ≤ inb.length ∧
      ((f.map.find? (toInt (ntohl (load inb 0)))).isSome → HEAD_SIZE + (ntohl (load inb 4)).toNat ≤ inb.length) := by
  rw [Safe, unmarshallRange]
  by_cases hlen : inb.length < HEAD_SIZE
  · rw [if_pos hlen]
    constructor
    · rintro (⟨what, h⟩ | ⟨module, pos, len, h, -⟩) <;> cases h
    · rintro ⟨hle, -⟩
      omega
  · rw [if_neg hlen]
    rcases hfind : f.map.find? (toInt (ntohl (load inb 0))) with _ | module
    · simp [hfind, not_lt.mp hlen]
    · simp [hfind, not_lt.mp hlen]

end Factory

end MarshallFactory

open MarshallFactory

/-- For a lawful module and any buffers: the round trip and the safety hold just when the room and the announced length are inside of the buffers.
-/
theorem marshalling_iff {M : Type} (f : MarshallFactory M) (type : M → UInt32) (m : M) (module : BaseMarshall M) (need written : Nat)
    (buf inb : List UInt8) (hfind : f.map.find? (toInt (type m)) = some module) (hlawful : Lawful module m need written) :
    ((HEAD_SIZE + need ≤ buf.length → RoundTrips f type m buf) ∧ Safe f inb) ↔
      (HEAD_SIZE + need ≤ buf.length → 0 < newlen buf ∧ need ≤ (newlen buf).toNat ∧ written + HEAD_SIZE < 2 ^ 31) ∧
        HEAD_SIZE ≤ inb.length ∧
        ((f.map.find? (toInt (ntohl (load inb 0)))).isSome → HEAD_SIZE + (ntohl (load inb 4)).toNat ≤ inb.length) := by
  rw [roundTrips_iff hfind hlawful, safe_iff]

/-- A module for messages of one byte. -/
def byteModule : BaseMarshall UInt8 where
  marshall
    | _, [] => .error "no room"
    | m, _ :: body => .ok (1, m :: body)
  unmarshall
    | [] => .error "no byte"
    | m :: _ => .ok m
  length_marshall m body r h := by
    cases body with
    | nil => cases h
    | cons b body =>
      obtain rfl := Except.ok.inj h
      rfl

/-- A module that writes one byte is lawful. -/
theorem lawful_byteModule (m : UInt8) : Lawful byteModule m 1 1 where
  written_le := Nat.le_refl 1
  fits_iff body := by cases body <;> simp [byteModule]
  returns body r h := by
    cases body with
    | nil => cases h
    | cons b body =>
      obtain rfl := Except.ok.inj h
      exact ⟨rfl, rfl⟩

/-- The factory where it is registered for the type 7. -/
def byteFactory : MarshallFactory UInt8 := fRegister ⟨OrdMap.empty⟩ 7 byteModule

/-- The module of one byte, in buffers with room. -/
theorem marshalling_byte :
    (HEAD_SIZE + 1 ≤ (List.replicate 16 (0 : UInt8)).length → RoundTrips byteFactory (fun _ => 7) 5 (List.replicate 16 0)) ∧
      Safe byteFactory [0, 0, 0, 7, 0, 0, 0, 1, 5] :=
  (marshalling_iff byteFactory (fun _ => 7) 5 byteModule 1 1 (List.replicate 16 0) [0, 0, 0, 7, 0, 0, 0, 1, 5] rfl (lawful_byteModule 5)).mpr
    ⟨by decide, by decide, by decide⟩

/-- A header that names a byte which is not there. -/
theorem not_safe_header : ¬Safe byteFactory [0, 0, 0, 7, 0, 0, 0, 1] := by
  rw [safe_iff]
  decide

end Blockmon.Marsh
