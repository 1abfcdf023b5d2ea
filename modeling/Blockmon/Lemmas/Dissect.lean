import Blockmon.Lemmas.PacketHeaders
import Blockmon.Lib.Exn
import Blockmon.NewPacket

/-!
# The dissectors against the bytes

`place` says where a header is from the bytes of the memory alone: nothing is kept between two headers, and no header is looked for in a
list of parents. A search by the dissectors has the outcome that `place` says in every state that searches leave (`Places`).
-/

namespace Blockmon.Messages

open Exn

namespace NewPacket

/-! ## Where the headers are -/

section Place

variable (bytes : List UInt8)

/-- A read, on the bytes alone. -/
def loadOf (off n : Nat) : Except Fault (List UInt8) :=
  if bytes.length < off + n then .error .outOfBounds else .ok ((bytes.drop off).take n)

/-- A read of one byte, on the bytes alone. -/
def byteOf (off : Nat) : Except Fault UInt8 := (loadOf bytes off 1).map fun b => u8 b 0

/-- The type in an Ethernet header, on the bytes alone. -/
def typeOf (p : Nat) : Except Fault UInt16 := (loadOf bytes (p + 12) 2).map fun b => ntohs (u16 b 0)

/-- The length of a header, on the bytes alone. -/
def lengthOf : Header → Nat → Except Fault Nat
  | .ethernet, p => (typeOf bytes p).map fun type => if type = Packet.kPktType1q then 18 else 14
  | .ipv4, p => (byteOf bytes p).map fun b => b.toNat % 2 ^ 4 * 4
  | .tcp, p => (byteOf bytes (p + 12)).map fun b => b.toNat / 2 ^ 4 * 4
  | .udp, _ => return 8
  | .icmp, _ => return 8
  | .payload, _ => return bytes.length

/-- The end of a header that is at `p`. -/
def endOf (h : Header) (p : Nat) : Except Fault (Option Nat) := (lengthOf bytes h p).map fun n => some (p + n)

/-- Right after the Ethernet header, if its type is IPv4. -/
def placeIpv4 : Except Fault (Option Nat) := do
  if Packet.kPktTypeIP4 = (← typeOf bytes 0) then endOf bytes .ethernet 0 else return none

/-- Right after the IP header, if there is one and its protocol is `proto`. -/
def placeL4 (proto : UInt8) : Except Fault (Option Nat) := do
  match ← placeIpv4 bytes with
  | none => return none
  | some ip => if proto = (← byteOf bytes (ip + 9)) then endOf bytes .ipv4 ip else return none

/-- The end of the first of these headers that is there. -/
def firstEnd : List (Header × Except Fault (Option Nat)) → Except Fault (Option Nat)
  | [] => return none
  | (h, ptr) :: rest => do
    match ← ptr with
    | none => firstEnd rest
    | some p => endOf bytes h p

/-- The place of a header, on the bytes alone. -/
def place : Header → Except Fault (Option Nat)
  | .ethernet => return some 0
  | .ipv4 => placeIpv4 bytes
  | .tcp => placeL4 bytes 6
  | .udp => placeL4 bytes 17
  | .icmp => placeL4 bytes 1
  | .payload => firstEnd bytes [(.udp, placeL4 bytes 17), (.tcp, placeL4 bytes 6), (.icmp, placeL4 bytes 1), (.ipv4, placeIpv4 bytes),
      (.ethernet, return some 0)]

end Place

/-! ## The dissectors -/

/-- The pointers that are kept are where the headers are; the key is one of `K`. -/
structure Places (bytes : List UInt8) (K : FlowKey → Prop) (q : NewPacket) : Prop where
  memory : q.memory = bytes
  slice : ∀ h ptr, q.slice h = some ptr → place bytes h = .ok ptr
  ethernet : q.slice .ethernet = some (some 0)
  flowKey : K q.flowKey

variable {bytes : List UInt8} {K : FlowKey → Prop}

/-- A new packet has found nothing. -/
theorem places_simplePacket (memory rawPacket : List UInt8) :
    Places (simplePacket memory rawPacket).memory (fun _ => True) (simplePacket memory rawPacket) := by
  refine ⟨rfl, ?_, rfl, trivial⟩
  intro h ptr hptr
  unfold simplePacket at hptr
  dsimp only at hptr
  split at hptr
  · rename_i heth
    rw [heth]
    exact congrArg Except.ok (Option.some.inj hptr)
  · cases hptr

/-- A read is that of the bytes. -/
theorem places_load (off n : Nat) : Yields (Places bytes K) (load off n) (loadOf bytes off n) := by
  intro q hq
  refine ⟨q, hq, ?_⟩
  unfold load loadOf
  rw [EStateM.run_bind]
  dsimp only [EStateM.run_get]
  rw [hq.memory]
  split <;> rfl

/-- A read of one byte is that of the bytes. -/
theorem places_byteAt (off : Nat) : Yields (Places bytes K) (byteAt off) (byteOf bytes off) := (places_load off 1).map fun b => u8 b 0

/-- The type in an Ethernet header is that of the bytes. -/
theorem places_etherType (p : Nat) : Yields (Places bytes K) (etherType p) (typeOf bytes p) :=
  (places_load (p + 12) 2).map_map (fun b => u16 b 0) ntohs

/-- The protocol in an IP header is that of the bytes. -/
theorem places_protocol (p : Nat) : Yields (Places bytes K) (protocol p) (byteOf bytes (p + 9)) := places_byteAt (p + 9)

/-- The size of a header is that of the bytes. -/
theorem places_sizeOf (h : Header) (p : Nat) : Yields (Places bytes K) (h.sizeOf p) (lengthOf bytes h p) := by
  cases h with
  | ethernet =>
    refine (places_etherType p).bind_map fun type => ?_
    split
    · exact yields_pure 18
    · exact yields_pure 14
  | ipv4 => exact (places_byteAt p).map_map (fun b => b.toNat % 2 ^ 4) (· * 4)
  | tcp => exact (places_byteAt (p + 12)).map_map (fun b => b.toNat / 2 ^ 4) (· * 4)
  | udp => exact yields_pure 8
  | icmp => exact yields_pure 8
  | payload => exact yields_get_bind fun q hq => ⟨q, hq, congrArg (fun m : List UInt8 => EStateM.Result.ok m.length q) hq.memory⟩

/-- The end of a header is that of the bytes. -/
theorem places_end (h : Header) (p : Nat) : Yields (Places bytes K) (do return some (p + (← h.sizeOf p))) (endOf bytes h p) :=
  (places_sizeOf h p).map fun n => some (p + n)

/-- A pointer that is not in the slice yet is looked for and kept, unless the search faults. -/
theorem places_getHeader {h : Header} {proto : UInt16} {parents : List (Header × Dissect (Option Nat))}
    (hparents : Yields (Places bytes K) (getParent proto parents) (place bytes h)) :
    Yields (Places bytes K) (getHeader h proto parents) (place bytes h) := by
  refine yields_get_bind fun q hq => ?_
  cases hptr : q.slice h with
  | some ptr => exact ⟨q, hq, by rw [hq.slice h ptr hptr]; rfl⟩
  | none =>
    cases hplace : place bytes h with
    | error e =>
      rw [hplace] at hparents
      exact hparents.bind_error q hq
    | ok ptr =>
      rw [hplace] at hparents
      have hset : Yields (Places bytes K) (modify (setHeader h ptr) : Dissect PUnit) (.ok ⟨⟩) := by
        refine yields_modify fun q hq => ⟨hq.memory, ?_, ?_, hq.flowKey⟩
        · intro h' ptr' hptr'
          unfold setHeader at hptr'
          dsimp only at hptr'
          split at hptr'
          · rename_i hh
            rw [hh, hplace, Option.some.inj hptr']
          · exact hq.slice h' ptr' hptr'
        · unfold setHeader
          dsimp only
          split
          · rename_i hh
            rw [← hh] at hplace
            exact congrArg some (Except.ok.inj hplace).symm
          · exact hq.ethernet
      exact (hparents.bind (hset.bind_pure fun _ => ptr)) q hq

/-- The search for the Ethernet header finds its place. -/
theorem places_ethernet : Yields (Places bytes K) ethernet (place bytes .ethernet) := by
  intro q hq
  refine ⟨q, hq, ?_⟩
  unfold ethernet getHeader
  rw [EStateM.run_bind]
  dsimp only [EStateM.run_get]
  rw [hq.ethernet]
  rfl

/-- A parent that is looked for with a protocol, the last of the list. -/
theorem places_lastParent {proto : UInt16} (hne : proto ≠ 0) {h : Header} {search : Dissect (Option Nat)} {ptr : Option Nat}
    {type : Nat → Except Fault UInt16} (hsearch : Yields (Places bytes K) search (.ok ptr))
    (htype : ∀ p, Yields (Places bytes K) (h.proto p) (type p)) :
    Yields (Places bytes K) (getParent proto [(h, search)])
      (match ptr with
        | none => .ok none
        | some p => do if proto = (← type p) then endOf bytes h p else return none) := by
  refine hsearch.bind ?_
  cases ptr with
  | none => exact yields_pure none
  | some p =>
    have hcarries : Yields (Places bytes K) (carries proto h p) ((type p).map fun type => decide (proto = type)) := by
      unfold carries
      rw [if_neg hne]
      exact (htype p).map fun type => decide (proto = type)
    dsimp only
    cases hp : type p with
    | error e =>
      rw [hp] at hcarries
      exact hcarries.bind_error
    | ok type =>
      rw [hp] at hcarries
      refine hcarries.bind ?_
      change Yields _ _ (if proto = type then endOf bytes h p else .ok none)
      by_cases heq : proto = type
      · rw [if_pos heq, if_pos (decide_eq_true heq)]
        exact places_end h p
      · rw [if_neg heq, if_neg (by simp [heq])]
        exact yields_pure none

/-- The search for the IP header finds its place. -/
theorem places_ipv4 : Yields (Places bytes K) ipv4 (place bytes .ipv4) :=
  places_getHeader (places_lastParent (h := .ethernet) (by decide) places_ethernet places_etherType)

/-- A search behind the IP header. -/
theorem places_l4 {h : Header} (proto : UInt8) (hne : proto.toUInt16 ≠ 0) (hplace : place bytes h = placeL4 bytes proto) :
    Yields (Places bytes K) (getHeader h proto.toUInt16 [(.ipv4, ipv4)]) (place bytes h) := by
  refine places_getHeader ?_
  have hip : Yields (Places bytes K) ipv4 (place bytes .ipv4) := places_ipv4
  have hproto : ∀ p, Yields (Places bytes K) (Header.ipv4.proto p) ((byteOf bytes (p + 9)).map UInt8.toUInt16) :=
    fun p => (places_protocol p).map UInt8.toUInt16
  rw [hplace]
  unfold place at hip
  unfold placeL4
  cases hptr : placeIpv4 bytes with
  | error e =>
    rw [hptr] at hip
    exact hip.bind_error
  | ok ptr =>
    rw [hptr] at hip
    have hparent := places_lastParent (h := .ipv4) hne hip hproto
    cases ptr with
    | none => exact hparent
    | some p =>
      change Yields _ _ (byteOf bytes (p + 9) >>= fun b => if proto = b then endOf bytes .ipv4 p else return none)
      cases hbyte : byteOf bytes (p + 9) with
      | error e =>
        simp only [hbyte] at hparent
        exact hparent
      | ok b =>
        simp only [hbyte] at hparent
        have heq : proto.toUInt16 = b.toUInt16 ↔ proto = b := UInt8.toUInt16_inj
        change Yields _ _ (if proto.toUInt16 = b.toUInt16 then endOf bytes .ipv4 p else .ok none) at hparent
        simp only [heq] at hparent
        exact hparent

/-- The search for the TCP header finds its place. -/
theorem places_tcp : Yields (Places bytes K) tcp (place bytes .tcp) := places_l4 6 (by decide) rfl

/-- The search for the UDP header finds its place. -/
theorem places_udp : Yields (Places bytes K) udp (place bytes .udp) := places_l4 17 (by decide) rfl

/-- The search for the header of ICMP finds its place. -/
theorem places_icmp : Yields (Places bytes K) icmp (place bytes .icmp) := places_l4 1 (by decide) rfl

/-- Without a protocol, the first parent that is there. -/
theorem places_parents {parents : List (Header × Dissect (Option Nat))} {ptrs : List (Header × Except Fault (Option Nat))}
    (hparents : List.Forall₂ (fun parent ptr => parent.1 = ptr.1 ∧ Yields (Places bytes K) parent.2 ptr.2) parents ptrs) :
    Yields (Places bytes K) (getParent 0 parents) (firstEnd bytes ptrs) := by
  induction hparents with
  | nil => exact yields_pure none
  | cons hparent hrest ih =>
    obtain ⟨hheader, hsearch⟩ := hparent
    refine hsearch.seq fun ptr _ => ?_
    cases ptr with
    | none => exact ih
    | some p =>
      rw [← hheader]
      exact (yields_pure true).bind (places_end _ p)

/-- The search for the payload finds its place. -/
theorem places_payload : Yields (Places bytes K) payload (place bytes .payload) := by
  refine places_getHeader (places_parents ?_)
  exact .cons ⟨rfl, places_udp⟩ (.cons ⟨rfl, places_tcp⟩ (.cons ⟨rfl, places_icmp⟩ (.cons ⟨rfl, places_ipv4⟩
    (.cons ⟨rfl, places_ethernet⟩ .nil))))

/-- Every search finds the header where the bytes say it is. -/
theorem places_find (h : Header) : Yields (Places bytes K) (find h) (place bytes h) := by
  cases h with
  | ethernet => exact places_ethernet
  | ipv4 => exact places_ipv4
  | tcp => exact places_tcp
  | udp => exact places_udp
  | icmp => exact places_icmp
  | payload => exact places_payload

/-! ## Memories that hold the headers -/

/-- A read inside of the bytes. -/
theorem loadOf_eq {off n : Nat} (h : off + n ≤ bytes.length) : loadOf bytes off n = .ok ((bytes.drop off).take n) := if_neg (by omega)

/-- A read of one byte inside of the bytes. -/
theorem byteOf_eq {off : Nat} (h : off + 1 ≤ bytes.length) : byteOf bytes off = .ok (u8 bytes off) := by
  unfold byteOf
  rw [loadOf_eq h]
  change Except.ok (u8 ((bytes.drop off).take 1) 0) = _
  rw [u8_slice bytes off (by decide), Nat.add_zero]

/-- The type in an Ethernet header inside of the bytes. -/
theorem typeOf_eq {p : Nat} (h : p + 14 ≤ bytes.length) : typeOf bytes p = .ok (ntohs (u16 bytes (p + 12))) := by
  unfold typeOf
  rw [loadOf_eq (by omega)]
  change Except.ok (ntohs (u16 ((bytes.drop (p + 12)).take 2) 0)) = _
  rw [u16_slice bytes _ (by decide), Nat.add_zero]

/-! Lengths. -/

/-- The length of an Ethernet header, with a tag or without. -/
def ethernetLen (bytes : List UInt8) (p : Nat) : Nat := if ntohs (u16 bytes (p + 12)) = Packet.kPktType1q then 18 else 14

/-- The length of an IP header. -/
def ipLen (bytes : List UInt8) (p : Nat) : Nat := (u8 bytes p).toNat % 2 ^ 4 * 4

/-- The length of a TCP header. -/
def tcpLen (bytes : List UInt8) (p : Nat) : Nat := (u8 bytes (p + 12)).toNat / 2 ^ 4 * 4

/-- An IP header has sixty bytes at most. -/
theorem ipLen_le (bytes : List UInt8) (p : Nat) : ipLen bytes p ≤ 60 := by
  unfold ipLen
  omega

/-- The Ethernet header, when its bytes are there. -/
theorem lengthOf_ethernet {p : Nat} (h : p + 14 ≤ bytes.length) : lengthOf bytes .ethernet p = .ok (ethernetLen bytes p) :=
  congrArg (Except.map fun type => if type = Packet.kPktType1q then 18 else 14) (typeOf_eq h)

/-- The IP header, when its first byte is there. -/
theorem lengthOf_ipv4 {p : Nat} (h : p + 1 ≤ bytes.length) : lengthOf bytes .ipv4 p = .ok (ipLen bytes p) :=
  congrArg (Except.map fun b : UInt8 => b.toNat % 2 ^ 4 * 4) (byteOf_eq h)

/-- The TCP header, when the byte with its length is there. -/
theorem lengthOf_tcp {p : Nat} (h : p + 13 ≤ bytes.length) : lengthOf bytes .tcp p = .ok (tcpLen bytes p) :=
  congrArg (Except.map fun b : UInt8 => b.toNat / 2 ^ 4 * 4) (byteOf_eq h)

/-- The end of a header is its length behind its place. -/
theorem endOf_eq {h : Header} {p n : Nat} (hlen : lengthOf bytes h p = .ok n) : endOf bytes h p = .ok (some (p + n)) :=
  congrArg (Except.map fun n => some (p + n)) hlen

/-- A header of type IPv4 is behind an Ethernet header without an 802.1q header. -/
theorem placeIpv4_eq (bytes : List UInt8) (h : 14 ≤ bytes.length) :
    placeIpv4 bytes = .ok (if Packet.kPktTypeIP4 = ntohs (u16 bytes 12) then some 14 else none) := by
  unfold placeIpv4
  rw [typeOf_eq (by omega), endOf_eq (lengthOf_ethernet (by omega))]
  unfold ethernetLen
  change (if Packet.kPktTypeIP4 = ntohs (u16 bytes 12) then _ else _) = _
  by_cases htype : Packet.kPktTypeIP4 = ntohs (u16 bytes 12)
  · rw [if_pos htype, if_pos htype, Nat.zero_add, ← htype]
    rfl
  · rw [if_neg htype, if_neg htype]
    rfl

/-- Without an IP header there is none above it. -/
theorem placeL4_of_none (h : placeIpv4 bytes = .ok none) (proto : UInt8) : placeL4 bytes proto = .ok none := by
  unfold placeL4
  rw [h]
  rfl

/-- None of the three is there without an IP header. -/
theorem place_l4_of_none (hip : place bytes .ipv4 = .ok none) {h : Header} (hh : h ∈ [Header.tcp, .udp, .icmp]) : place bytes h = .ok none := by
  simp only [List.mem_cons, List.not_mem_nil, or_false] at hh
  rcases hh with rfl | rfl | rfl
  · exact placeL4_of_none hip 6
  · exact placeL4_of_none hip 17
  · exact placeL4_of_none hip 1

/-- A read of one byte outside of the bytes. -/
theorem byteOf_error {off : Nat} (h : bytes.length < off + 1) : byteOf bytes off = .error .outOfBounds :=
  congrArg (Except.map fun b => u8 b 0) (if_pos h)

/-- With less than 24 bytes the protocol is outside. -/
theorem placeL4_error (hlen : bytes.length < 24) (h : placeIpv4 bytes = .ok (some 14)) (proto : UInt8) :
    placeL4 bytes proto = .error .outOfBounds := by
  unfold placeL4
  rw [h]
  change (byteOf bytes (14 + 9) >>= fun b => if proto = b then endOf bytes .ipv4 14 else return none) = _
  rw [byteOf_error (by omega)]
  rfl

/-- What the bytes say about a header behind the IP header. -/
theorem placeL4_eq (bytes : List UInt8) (h : 24 ≤ bytes.length) (proto : UInt8) :
    placeL4 bytes proto =
      .ok (if Packet.kPktTypeIP4 = ntohs (u16 bytes 12) ∧ proto = u8 bytes 23 then some (14 + ipLen bytes 14) else none) := by
  unfold placeL4
  rw [placeIpv4_eq bytes (by omega)]
  by_cases htype : Packet.kPktTypeIP4 = ntohs (u16 bytes 12)
  · rw [if_pos htype]
    change (byteOf bytes (14 + 9) >>= fun b => if proto = b then endOf bytes .ipv4 14 else return none) = _
    rw [byteOf_eq (by omega), endOf_eq (lengthOf_ipv4 (by omega))]
    change (if proto = u8 bytes (14 + 9) then _ else _) = _
    by_cases hproto : proto = u8 bytes (14 + 9)
    · rw [if_pos hproto, if_pos ⟨htype, hproto⟩]
    · rw [if_neg hproto, if_neg fun h => hproto h.2]
      rfl
  · rw [if_neg htype, if_neg fun h => htype h.1]
    rfl

/-- A list of searches that return and of headers whose lengths are in the memory has a first end. -/
theorem firstEnd_ok {ptrs : List (Header × Except Fault (Option Nat))}
    (h : ∀ ptr ∈ ptrs, ∃ p, ptr.2 = .ok p ∧ ∀ off, p = some off → ∃ r, endOf bytes ptr.1 off = .ok r) :
    ∃ r, firstEnd bytes ptrs = .ok r := by
  induction ptrs with
  | nil => exact ⟨none, rfl⟩
  | cons ptr ptrs ih =>
    obtain ⟨h', search⟩ := ptr
    obtain ⟨p, hsearch, hend⟩ := h _ (List.mem_cons_self ..)
    dsimp only at hsearch hend
    subst hsearch
    cases p with
    | none => exact ih fun ptr hptr => h ptr (List.mem_cons_of_mem _ hptr)
    | some off => exact hend off rfl

/-- The longest IP header and the fixed part of a TCP header end before the first 87 bytes do. -/
theorem place_ok (h : 87 ≤ bytes.length) (header : Header) : ∃ ptr, place bytes header = .ok ptr := by
  have hip := placeIpv4_eq bytes (by omega)
  have hl4 := placeL4_eq bytes (by omega)
  have hlen := ipLen_le bytes 14
  cases header with
  | ethernet => exact ⟨_, rfl⟩
  | ipv4 => exact ⟨_, hip⟩
  | tcp => exact ⟨_, hl4 6⟩
  | udp => exact ⟨_, hl4 17⟩
  | icmp => exact ⟨_, hl4 1⟩
  | payload =>
    refine firstEnd_ok fun ptr hptr => ?_
    simp only [List.mem_cons, List.not_mem_nil, or_false] at hptr
    rcases hptr with rfl | rfl | rfl | rfl | rfl
    · exact ⟨_, hl4 17, fun off _ => ⟨_, rfl⟩⟩
    · refine ⟨_, hl4 6, fun off hoff => ?_⟩
      split at hoff
      · rw [← Option.some.inj hoff]
        exact ⟨_, endOf_eq (lengthOf_tcp (by omega))⟩
      · cases hoff
    · exact ⟨_, hl4 1, fun off _ => ⟨_, rfl⟩⟩
    · refine ⟨_, hip, fun off hoff => ?_⟩
      split at hoff
      · rw [← Option.some.inj hoff]
        exact ⟨_, endOf_eq (lengthOf_ipv4 (by omega))⟩
      · cases hoff
    · refine ⟨_, rfl, fun off hoff => ?_⟩
      rw [← Option.some.inj hoff]
      exact ⟨_, endOf_eq (lengthOf_ethernet (by omega))⟩

/-! ## More bytes -/

/-- What returns on some of the bytes returns the same on more of them. -/
def Refines {α : Type} (r r' : Except Fault α) : Prop := ∀ a, r = .ok a → r' = .ok a

/-- A result refines itself. -/
theorem Refines.refl {α : Type} (r : Except Fault α) : Refines r r := fun _ h => h

/-- A function of a result. -/
theorem Refines.map {α β : Type} {r r' : Except Fault α} (h : Refines r r') (f : α → β) : Refines (r.map f) (r'.map f) := by
  intro b hb
  cases r with
  | error e => cases hb
  | ok a =>
    rw [h a rfl]
    exact hb

/-- A calculation after another. -/
theorem Refines.bind {α β : Type} {r r' : Except Fault α} {f f' : α → Except Fault β} (h : Refines r r') (hf : ∀ a, Refines (f a) (f' a)) :
    Refines (r >>= f) (r' >>= f') := by
  intro b hb
  cases r with
  | error e => cases hb
  | ok a =>
    rw [h a rfl]
    exact hf a b hb

variable (rest : List UInt8)

/-- With more bytes a read is the same, where it was none outside. -/
theorem refines_loadOf (off n : Nat) : Refines (loadOf bytes off n) (loadOf (bytes ++ rest) off n) := by
  intro b hb
  by_cases h : bytes.length < off + n
  · rw [show loadOf bytes off n = _ from if_pos h] at hb
    cases hb
  · rw [loadOf_eq (by omega)] at hb
    rw [loadOf_eq (by rw [List.length_append]; omega), List.drop_append_of_le_length (by omega),
      List.take_append_of_le_length (by rw [List.length_drop]; omega)]
    exact hb

/-- With more bytes a header ends at the same place. -/
theorem refines_endOf {h : Header} (hne : h ≠ .payload) (p : Nat) : Refines (endOf bytes h p) (endOf (bytes ++ rest) h p) := by
  refine Refines.map ?_ _
  cases h with
  | ethernet => exact ((refines_loadOf rest _ _).map _).map _
  | ipv4 => exact ((refines_loadOf rest _ _).map _).map _
  | tcp => exact ((refines_loadOf rest _ _).map _).map _
  | udp => exact Refines.refl _
  | icmp => exact Refines.refl _
  | payload => exact absurd rfl hne

/-- With more bytes the IP header is at the same place. -/
theorem refines_placeIpv4 : Refines (placeIpv4 bytes) (placeIpv4 (bytes ++ rest)) := by
  refine ((refines_loadOf rest _ _).map _).bind fun type => ?_
  split
  · exact refines_endOf rest (by decide) 0
  · exact Refines.refl _

/-- With more bytes the header above IP is at the same place. -/
theorem refines_placeL4 (proto : UInt8) : Refines (placeL4 bytes proto) (placeL4 (bytes ++ rest) proto) := by
  refine (refines_placeIpv4 rest).bind fun ptr => ?_
  cases ptr with
  | none => exact Refines.refl _
  | some ip =>
    refine ((refines_loadOf rest _ _).map _).bind fun b => ?_
    split
    · exact refines_endOf rest (by decide) ip
    · exact Refines.refl _

/-- With more bytes the first end is the same. -/
theorem refines_firstEnd {ptrs ptrs' : List (Header × Except Fault (Option Nat))}
    (h : List.Forall₂ (fun ptr ptr' => ptr.1 = ptr'.1 ∧ ptr.1 ≠ .payload ∧ Refines ptr.2 ptr'.2) ptrs ptrs') :
    Refines (firstEnd bytes ptrs) (firstEnd (bytes ++ rest) ptrs') := by
  induction h with
  | nil => exact Refines.refl _
  | cons hptr hrest ih =>
    obtain ⟨hheader, hne, hsearch⟩ := hptr
    refine hsearch.bind fun ptr => ?_
    cases ptr with
    | none => exact ih
    | some p =>
      rw [← hheader]
      exact refines_endOf rest hne p

/-- With more bytes every header is at the same place. -/
theorem refines_place (h : Header) : Refines (place bytes h) (place (bytes ++ rest) h) := by
  cases h with
  | ethernet => exact Refines.refl _
  | ipv4 => exact refines_placeIpv4 rest
  | tcp => exact refines_placeL4 rest 6
  | udp => exact refines_placeL4 rest 17
  | icmp => exact refines_placeL4 rest 1
  | payload =>
    refine refines_firstEnd rest (.cons ⟨rfl, ?_, refines_placeL4 rest 17⟩ (.cons ⟨rfl, ?_, refines_placeL4 rest 6⟩
      (.cons ⟨rfl, ?_, refines_placeL4 rest 1⟩ (.cons ⟨rfl, ?_, refines_placeIpv4 rest⟩ (.cons ⟨rfl, ?_, Refines.refl _⟩ .nil)))))
    all_goals exact Header.noConfusion

/-- There is always a payload. -/
theorem firstEnd_ne_none {ptrs : List (Header × Except Fault (Option Nat))} (h : (Header.ethernet, .ok (some 0)) ∈ ptrs) :
    firstEnd bytes ptrs ≠ .ok none := by
  induction ptrs with
  | nil => cases h
  | cons ptr ptrs ih =>
    have hend : ∀ h p, endOf bytes h p ≠ .ok none := by
      intro h p
      unfold endOf
      cases lengthOf bytes h p <;> exact fun h => by cases h
    rcases List.mem_cons.mp h with rfl | hrest
    · exact hend _ _
    · obtain ⟨header, search⟩ := ptr
      cases search with
      | error e => exact fun h => by cases h
      | ok p =>
        cases p with
        | none => exact ih hrest
        | some p => exact hend header p

/-- A packet always has a payload. -/
theorem place_payload_ne_none : place bytes .payload ≠ .ok none := firstEnd_ne_none (by simp [pure, Except.pure])

end NewPacket

end Blockmon.Messages
