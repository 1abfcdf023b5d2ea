import Blockmon.Lemmas.SlicedPacket

/-!
# The lazy dissectors, and packets cut into slices

A search finds a header where the bytes of the memory say it is, whatever has been looked for before. `SlicedPacket` keeps to its slots
only for packets without options and without an 802.1q header, and presents a packet as `SimplePacket` does only when it carries neither
TCP nor UDP and has a payload.
-/

namespace Blockmon.Messages

open Exn NewPacket

/-- After any searches, returning or not, each search finds what the bytes say; nothing is read outside of a memory of 87 bytes. -/
theorem find_eq_place (memory rawPacket : List UInt8) (calls : List Header) (h : Header) :
    (∃ q, (find h).run (runCalls find (simplePacket memory rawPacket) calls) =
      outcome (place (simplePacket memory rawPacket).memory h) q) ∧
    (87 ≤ memory.length → ∃ ptr, place (simplePacket memory rawPacket).memory h = .ok ptr) := by
  constructor
  · have hcalls : Places _ _ (runCalls find (simplePacket memory rawPacket) calls) :=
      runCalls_inv (fun s h hs => (places_find h).leaves hs) (places_simplePacket memory rawPacket) calls
    obtain ⟨q, -, hrun⟩ := places_find h _ hcalls
    exact ⟨q, hrun⟩
  · intro hlen
    refine place_ok ?_ h
    change 87 ≤ (rawPacket.take memory.length ++ memory.drop rawPacket.length).length
    rw [List.length_append, List.length_take, List.length_drop]
    omega

/-- An IP packet without options, with one byte behind the eight bytes of a header. -/
def ipFrame (proto : UInt8) : List UInt8 :=
  [0, 0, 0, 0, 0, 0, 0, 0, 0, 0, 0, 0, 0x08, 0, 0x45, 0, 0, 29, 0, 0, 0, 0, 64, proto, 0, 0, 10, 0, 0, 1, 10, 0, 0, 2,
    8, 0, 0, 0, 0, 0, 0, 0, 7]

/-- The search for the ICMP header, after others of which one throws, returns the place at which the bytes have it. -/
theorem find_icmp_frame : ∃ ptr q, place (simplePacket (List.replicate 87 0) (ipFrame 1)).memory .icmp = .ok ptr ∧
    (find .icmp).run (runCalls find (simplePacket (List.replicate 87 0) (ipFrame 1)) [.payload, .tcp, .icmp]) = outcome (.ok ptr) q := by
  obtain ⟨hfind, hplace⟩ := find_eq_place (List.replicate 87 0) (ipFrame 1) [.payload, .tcp, .icmp] .icmp
  obtain ⟨ptr, hptr⟩ := hplace (by decide)
  obtain ⟨q, hrun⟩ := hfind
  exact ⟨ptr, q, hptr, hptr ▸ hrun⟩

namespace Slicing

variable {raw : List UInt8} {t : Slots} {payloadSize slots index : Nat}

/-! ## Copies and slots -/

/-- No copy so far was longer than its slot. -/
def Within (payloadSize : Nat) (t : Slots) : Prop := ∀ c ∈ t.copied, c.2 ≤ c.1.slotSize payloadSize

/-- A noted copy is inside its slot when it is not longer. -/
theorem within_log {h : Header} {n : Nat} : Within payloadSize (t.log h n) ↔ n ≤ h.slotSize payloadSize ∧ Within payloadSize t := by
  unfold Within Slots.log
  simp only [List.mem_append, List.mem_singleton]
  constructor
  · intro hall
    exact ⟨hall _ (Or.inr rfl), fun c hc => hall c (Or.inl hc)⟩
  · rintro ⟨hn, hall⟩ c (hc | rfl)
    · exact hall c hc
    · exact hn

/-- Copies noted later do not help the earlier ones. -/
theorem Within.of_longer {t' : Slots} (h : Within payloadSize t') (hle : Longer t t') : Within payloadSize t :=
  fun c hc => h c (hle.subset hc)

/-- A step that copies a header, and the rest of the program. -/
theorem within_found {h : Header} {o : EStateM NewPacket.Fault Slots Unit} {f : Unit → EStateM NewPacket.Fault Slots Unit} {p n : Nat}
    (hindex : index < slots) (hroom : Room payloadSize slots index t h) (hlen : t.len ≠ 0) (hplace : place raw h = .ok (some p))
    (hsrc : p + t.len ≤ raw.length) (hlength : lengthOf raw h p = .ok n) (hf : ∀ u, Keeps Longer (f u)) (hle : n ≤ t.len) :
    Within payloadSize (leaves ((cutHeader raw h o >>= f).run t)) ↔
      n ≤ h.slotSize payloadSize ∧ Within payloadSize (leaves ((f ()).run
        (((t.cut (t.len - n)).log h n).put h (h.slotSize payloadSize * index) ((raw.drop p).take n)))) := by
  by_cases hn : n ≤ h.slotSize payloadSize
  · rw [run_bind_of_ok (run_cutHeader_copied hlen hplace hlength hle (by omega) hroom.slice (hroom.fits hindex hn))]
    exact ⟨fun hf => ⟨hn, hf⟩, fun hf => hf.2⟩
  · have hcopied := copied_copy raw h p n (t.cut (t.len - n))
    have hfound := run_cutHeader_found (o := o) hlen hplace
    rw [run_cutFound hlength, if_pos hle] at hfound
    rw [← hfound] at hcopied
    constructor
    · intro hwithin
      have hmid := hwithin.of_longer (keeps_after (x := cutHeader raw h o) hf t)
      exact absurd (hmid (h, n) (by rw [hcopied]; exact List.mem_append_right _ (List.mem_singleton.mpr rfl))) hn
    · exact fun h => absurd h.1 hn

/-- The payload is inside when the length is. -/
theorem within_payload (hsize : t.len ≤ payloadSize) :
    Within payloadSize (leaves ((cutPayload raw).run t)) ↔ Within payloadSize t := by
  by_cases hlen : t.len = 0
  · rw [run_cutPayload_zero hlen]
    rfl
  · rw [run_cutPayload_of_ne hlen]
    cases place raw .payload with
    | error e => rfl
    | ok ptr =>
      cases ptr with
      | none => rfl
      | some p =>
        have hlog : Within payloadSize (leaves ((copy raw .payload p t.len).run t)) ↔ Within payloadSize (t.log .payload t.len) := by
          unfold Within
          rw [copied_copy]
          rfl
        exact (hlog.trans within_log).trans ⟨fun h => h.2, fun h => ⟨hsize, h⟩⟩

/-- Nothing is copied of an empty rest. -/
theorem within_rest_zero (hlen : t.len = 0) : Within payloadSize (leaves ((cutRest raw).run t)) ↔ Within payloadSize t := by
  rw [run_cutRest_zero hlen]
  rfl

/-- Behind the captured bytes there are zeros. -/
theorem u8_of_le {i : Nat} (h : raw.length ≤ i) : u8 raw i = 0 := by
  unfold u8
  rw [List.getD_eq_getElem?_getD, List.getElem?_eq_none h]
  rfl

/-- A header that ends in its slot, or is not complete: only the payload is left. -/
theorem within_fits {h : Header} {o : EStateM NewPacket.Fault Slots Unit} {p n : Nat} (hindex : index < slots)
    (hroom : Room payloadSize slots index t h) (hlen : t.len ≠ 0) (hplace : place raw h = .ok (some p))
    (hsrc : p + t.len ≤ raw.length) (hlength : lengthOf raw h p = .ok n) (hsize : t.len ≤ payloadSize) :
    Within payloadSize (leaves ((cutHeader raw h o >>= fun _ => cutPayload raw).run t)) ↔
      (n ≤ t.len → n ≤ h.slotSize payloadSize) ∧ Within payloadSize t := by
  by_cases hle : n ≤ t.len
  · rw [within_found hindex hroom hlen hplace hsrc hlength (fun _ => keeps_cutPayload) hle,
      within_payload (show t.len - n ≤ payloadSize by omega)]
    change _ ∧ Within payloadSize ((t.cut (t.len - n)).log h n) ↔ _
    rw [within_log]
    exact ⟨fun h => ⟨fun _ => h.1, h.2.2⟩, fun h => ⟨h.1 hle, h.1 hle, h.2⟩⟩
  · rw [run_bind_of_ok (run_cutHeader_truncated hlen hplace hlength (by omega)), within_payload (show 0 ≤ payloadSize by omega)]
    exact ⟨fun h => ⟨fun h => absurd h hle, h⟩, fun h => h.2⟩

/-- The UDP and the ICMP header are as long as their slots. -/
theorem within_eight {h : Header} {o : EStateM NewPacket.Fault Slots Unit} {ptr : Option Nat} (hindex : index < slots)
    (hroom : Room payloadSize slots index t h) (hlen : t.len ≠ 0) (hplace : place raw h = .ok ptr)
    (hsrc : ∀ p, ptr = some p → p + t.len ≤ raw.length) (hlength : ∀ p, lengthOf raw h p = .ok 8) (hslot : h.slotSize payloadSize = 8)
    (hsize : t.len ≤ payloadSize)
    (hrest : Within payloadSize (leaves ((o >>= fun _ => cutPayload raw).run (t.null h))) ↔ Within payloadSize t) :
    Within payloadSize (leaves ((cutHeader raw h o >>= fun _ => cutPayload raw).run t)) ↔ Within payloadSize t := by
  cases ptr with
  | none => rwa [run_absent_bind hplace]
  | some p =>
    rw [within_fits hindex hroom hlen hplace (hsrc p rfl) (hlength p) hsize]
    exact and_iff_right fun _ => hslot.ge

/-- The header behind the IP header is in one of three slots; only the TCP header can be too long. -/
theorem within_rest (hindex : index < slots) (hroom : ∀ h ∈ [Header.tcp, .udp, .icmp], Room payloadSize slots index t h) (hlen : t.len ≠ 0)
    (htype : Packet.kPktTypeIP4 = ntohs (u16 raw 12)) (hsrc : 14 + ipLen raw 14 + t.len ≤ raw.length) (hsize : t.len ≤ payloadSize) :
    Within payloadSize (leaves ((cutRest raw).run t)) ↔
      (u8 raw 23 = 6 → tcpLen raw (14 + ipLen raw 14) ≤ t.len → tcpLen raw (14 + ipLen raw 14) ≤ 20) ∧ Within payloadSize t := by
  have hip := placeIpv4_eq raw (by omega)
  rw [if_pos htype] at hip
  unfold cutRest cutL4
  by_cases hshort : raw.length < 24
  · rw [run_bind_of_error (run_cutHeader_lost (h := .tcp) hlen (placeL4_error hshort hip 6)), u8_of_le (by omega)]
    exact ⟨fun h => ⟨fun h => absurd h (by decide), h⟩, fun h => h.2⟩
  · have hl4 : ∀ proto, placeL4 raw proto = .ok (if proto = u8 raw 23 then some (14 + ipLen raw 14) else none) := by
      intro proto
      rw [placeL4_eq raw (by omega)]
      simp only [htype, true_and]
    by_cases htcp : (6 : UInt8) = u8 raw 23
    · have hplace : place raw .tcp = .ok (some (14 + ipLen raw 14)) := (hl4 6).trans (by rw [if_pos htcp])
      by_cases hdoff : 14 + ipLen raw 14 + 13 ≤ raw.length
      · rw [within_fits hindex (hroom .tcp (by simp)) hlen hplace hsrc (lengthOf_tcp hdoff) hsize]
        exact and_congr_left' ⟨fun h _ => h, fun h => h htcp.symm⟩
      · have hlength : lengthOf raw .tcp (14 + ipLen raw 14) = .error .outOfBounds :=
          congrArg (Except.map fun b : UInt8 => b.toNat / 2 ^ 4 * 4) (byteOf_error (by omega))
        have hzero : tcpLen raw (14 + ipLen raw 14) = 0 := by
          unfold tcpLen
          rw [u8_of_le (by omega)]
          rfl
        rw [run_bind_of_error (run_cutHeader_cutOff hlen hplace hlength), hzero]
        exact ⟨fun h => ⟨fun _ _ => Nat.zero_le _, h⟩, fun h => h.2⟩
    · have hplace : place raw .tcp = .ok none := (hl4 6).trans (by rw [if_neg htcp])
      have htcpFits : (u8 raw 23 = 6 → tcpLen raw (14 + ipLen raw 14) ≤ t.len → tcpLen raw (14 + ipLen raw 14) ≤ 20) :=
        fun h => absurd h.symm htcp
      have hsrcL4 : ∀ proto : UInt8, ∀ p, (if proto = u8 raw 23 then some (14 + ipLen raw 14) else none) = some p →
          p + t.len ≤ raw.length := by
        intro proto p hp
        split at hp
        · rw [← Option.some.inj hp]
          exact hsrc
        · cases hp
      have hudp : Room payloadSize slots index (t.null .tcp) .udp := (hroom .udp (by simp)).null (by decide)
      have hicmp : Room payloadSize slots index ((t.null .tcp).null .udp) .icmp :=
        ((hroom .icmp (by simp)).null (by decide)).null (by decide)
      rw [run_absent_bind hplace, and_iff_right htcpFits]
      refine within_eight hindex hudp hlen (hl4 17) (hsrcL4 17)
        (fun _ => rfl) rfl hsize ?_
      refine within_eight hindex hicmp hlen (hl4 1) (hsrcL4 1)
        (fun _ => rfl) rfl hsize ?_
      exact within_payload hsize

/-- The steps behind the Ethernet header. -/
theorem within_ipv4 (hindex : index < slots) (hroom : ∀ h ∈ [Header.ipv4, .tcp, .udp, .icmp], Room payloadSize slots index t h)
    (hsrc : 14 + t.len ≤ raw.length) (hsize : t.len ≤ payloadSize) :
    Within payloadSize (leaves ((cutHeader raw .ipv4 (return ()) >>= fun _ => cutRest raw).run t)) ↔
      ((ntohs (u16 raw 12) = Packet.kPktTypeIP4 → 0 < t.len → ipLen raw 14 ≤ t.len → ipLen raw 14 ≤ 20) ∧
        (ntohs (u16 raw 12) = Packet.kPktTypeIP4 → u8 raw 23 = 6 → ipLen raw 14 < t.len →
          ipLen raw 14 + tcpLen raw (14 + ipLen raw 14) ≤ t.len → tcpLen raw (14 + ipLen raw 14) ≤ 20)) ∧ Within payloadSize t := by
  have hip := placeIpv4_eq raw (by omega)
  have hkeeps : Keeps Longer (cutRest raw) := keeps_bind keeps_cutL4 fun _ => keeps_cutPayload
  by_cases hlen : t.len = 0
  · rw [EStateM.run_bind, run_cutHeader_absent (Or.inl hlen)]
    change Within payloadSize (leaves ((cutRest raw).run (t.null .ipv4))) ↔ _
    rw [within_rest_zero (t := t.null .ipv4) hlen]
    exact ⟨fun h => ⟨⟨fun _ hpos => absurd hpos (by omega), fun _ _ hpos => absurd hpos (by omega)⟩, h⟩, fun h => h.2⟩
  · by_cases htype : Packet.kPktTypeIP4 = ntohs (u16 raw 12)
    · rw [if_pos htype] at hip
      have hlength : lengthOf raw .ipv4 14 = .ok (ipLen raw 14) := lengthOf_ipv4 (by omega)
      by_cases hle : ipLen raw 14 ≤ t.len
      · rw [within_found (h := .ipv4) hindex (hroom .ipv4 (by simp)) hlen hip hsrc hlength (fun _ => hkeeps) hle]
        by_cases hzero : t.len - ipLen raw 14 = 0
        · rw [within_rest_zero (t := Slots.put _ _ _ (Slots.log _ _ (t.cut (t.len - ipLen raw 14)))) hzero]
          refine (and_congr_right' within_log).trans ?_
          exact ⟨fun h => ⟨⟨fun _ _ _ => h.1, fun _ _ hlt => absurd hlt (by omega)⟩, h.2.2⟩,
            fun h => ⟨h.1.1 htype.symm (by omega) hle, h.1.1 htype.symm (by omega) hle, h.2⟩⟩
        · have hroomL4 : ∀ h ∈ [Header.tcp, .udp, .icmp], Room payloadSize slots index
              (((t.cut (t.len - ipLen raw 14)).log .ipv4 (ipLen raw 14)).put .ipv4 (Header.ipv4.slotSize payloadSize * index)
                ((raw.drop 14).take (ipLen raw 14))) h := by
            intro h hh
            refine (hroom h (List.mem_cons_of_mem _ hh)).put ?_ _ _ _ _
            rintro rfl
            simp at hh
          rw [within_rest hindex hroomL4 hzero htype (by change 14 + _ + (t.len - ipLen raw 14) ≤ _; omega)
            (by change t.len - ipLen raw 14 ≤ _; omega)]
          refine (and_congr_right' (and_congr_right' within_log)).trans ?_
          change _ ∧ ((_ → _ ≤ t.len - ipLen raw 14 → _) ∧ _) ↔ _
          constructor
          · rintro ⟨hm, htcp, -, ht⟩
            exact ⟨⟨fun _ _ _ => hm, fun _ hproto _ hk => htcp hproto (by omega)⟩, ht⟩
          · rintro ⟨⟨hm, htcp⟩, ht⟩
            have hm' := hm htype.symm (by omega) hle
            exact ⟨hm', fun hproto hk => htcp htype.symm hproto (by omega) (by omega), hm', ht⟩
      · rw [run_bind_of_ok (run_cutHeader_truncated (h := .ipv4) hlen hip hlength (by omega)), within_rest_zero rfl]
        exact ⟨fun h => ⟨⟨fun _ _ hle' => absurd hle' hle, fun _ _ hlt => absurd hlt (by omega)⟩, h⟩, fun h => h.2⟩
    · rw [if_neg htype] at hip
      have hnone := fun {h} => place_l4_of_none (h := h) hip
      rw [run_absent_bind (h := .ipv4) hip]
      change Within payloadSize (leaves ((cutRest raw).run (t.null .ipv4))) ↔ _
      unfold cutRest cutL4
      rw [run_absent_bind (hnone (by simp)), run_absent_bind (hnone (by simp)), run_absent_bind (hnone (by simp))]
      refine (within_payload (t := (((t.null .ipv4).null .tcp).null .udp).null .icmp) hsize).trans ?_
      exact ⟨fun h => ⟨⟨fun htype' => absurd htype'.symm htype, fun htype' => absurd htype'.symm htype⟩, h⟩, fun h => h.2⟩

/-- The headers that are copied have no options, and there is no 802.1q header. -/
structure Plain (raw : List UInt8) (len : Nat) : Prop where
  ethernet : ethernetLen raw 0 ≤ len → ntohs (u16 raw 12) ≠ Packet.kPktType1q
  ipv4 : ntohs (u16 raw 12) = Packet.kPktTypeIP4 → 14 < len → 14 + ipLen raw 14 ≤ len → ipLen raw 14 ≤ 20
  tcp : ntohs (u16 raw 12) = Packet.kPktTypeIP4 → u8 raw 23 = 6 → 14 + ipLen raw 14 < len →
    14 + ipLen raw 14 + tcpLen raw (14 + ipLen raw 14) ≤ len → tcpLen raw (14 + ipLen raw 14) ≤ 20

/-- The cutting stays inside of the slots just for plain packets. -/
theorem within_cutPacket (hindex : index < slots) (hroom : ∀ h, Room payloadSize slots index t h) (hsrc : t.len ≤ raw.length)
    (hsize : t.len ≤ payloadSize) :
    Within payloadSize (leaves ((cutPacket raw).run t)) ↔ Plain raw t.len ∧ Within payloadSize t := by
  have hkeeps : ∀ u : Unit, Keeps Longer (cutHeader raw .ipv4 (return ()) >>= fun _ => cutRest raw) := fun _ =>
    keeps_bind (keeps_cutHeader _ (keeps_pure ())) fun _ => keeps_bind keeps_cutL4 fun _ => keeps_cutPayload
  have hzero : ∀ t : Slots, t.len = 0 →
      (Within payloadSize (leaves ((cutHeader raw .ipv4 (return ()) >>= fun _ => cutRest raw).run t)) ↔ Within payloadSize t) := by
    intro t ht
    rw [EStateM.run_bind, run_cutHeader_absent (Or.inl ht)]
    exact within_rest_zero (t := t.null .ipv4) ht
  have hip : ntohs (u16 raw 12) = Packet.kPktTypeIP4 → ethernetLen raw 0 = 14 := fun htype => if_neg (by rw [htype]; decide)
  have hshort : t.len < ethernetLen raw 0 → Plain raw t.len := by
    intro hlt
    refine ⟨fun hle => absurd hle (by omega), fun htype hpos => ?_, fun htype _ hpos => ?_⟩
    · rw [hip htype] at hlt
      omega
    · rw [hip htype] at hlt
      omega
  change Within payloadSize (leaves ((cutHeader raw .ethernet (return ()) >>= fun _ =>
    (cutHeader raw .ipv4 (return ()) >>= fun _ => cutRest raw)).run t)) ↔ _
  have hge : 14 ≤ ethernetLen raw 0 := by
    unfold ethernetLen
    split <;> omega
  by_cases hlen : t.len = 0
  · rw [EStateM.run_bind, run_cutHeader_absent (Or.inl hlen)]
    refine (hzero (t.null .ethernet) hlen).trans ?_
    exact ⟨fun h => ⟨hshort (by omega), h⟩, fun h => h.2⟩
  · by_cases h14 : raw.length < 14
    · have hlength : lengthOf raw .ethernet 0 = .error .outOfBounds :=
        congrArg (Except.map fun type => if type = Packet.kPktType1q then 18 else 14)
          (congrArg (Except.map fun b => ntohs (u16 b 0)) (if_pos (by omega)))
      rw [run_bind_of_error (run_cutHeader_cutOff hlen rfl hlength)]
      exact ⟨fun h => ⟨hshort (by omega), h⟩, fun h => h.2⟩
    · have hlength : lengthOf raw .ethernet 0 = .ok (ethernetLen raw 0) := lengthOf_ethernet (by omega)
      by_cases hle : ethernetLen raw 0 ≤ t.len
      · rw [within_found hindex (hroom .ethernet) hlen rfl (by omega) hlength hkeeps hle]
        by_cases htag : ntohs (u16 raw 12) = Packet.kPktType1q
        · have h18 : ethernetLen raw 0 = 18 := if_pos htag
          rw [h18]
          exact ⟨fun h => absurd (show 18 ≤ 14 from h.1) (by decide), fun h => absurd htag (h.1.ethernet hle)⟩
        · have huntagged : ethernetLen raw 0 = 14 := if_neg htag
          rw [huntagged] at hle ⊢
          have hroomRest : ∀ h ∈ [Header.ipv4, .tcp, .udp, .icmp], Room payloadSize slots index
              (((t.cut (t.len - 14)).log .ethernet 14).put .ethernet (Header.ethernet.slotSize payloadSize * index)
                ((raw.drop 0).take 14)) h := by
            intro h hh
            refine (hroom h).put ?_ _ _ _ _
            rintro rfl
            simp at hh
          rw [within_ipv4 hindex hroomRest (by change 14 + (t.len - 14) ≤ _; omega) (by change t.len - 14 ≤ _; omega)]
          refine (and_congr_right' (and_congr_right' within_log)).trans ?_
          change _ ∧ ((_ → 0 < t.len - 14 → _ ≤ t.len - 14 → _) ∧ (_ → _ → _ < t.len - 14 → _ ≤ t.len - 14 → _)) ∧ _ ↔ _
          constructor
          · rintro ⟨-, ⟨hipv4, htcp⟩, -, ht⟩
            exact ⟨⟨fun _ => htag, fun htype _ hm => hipv4 htype (by omega) (by omega),
              fun htype hproto hm hk => htcp htype hproto (by omega) (by omega)⟩, ht⟩
          · rintro ⟨hplain, ht⟩
            exact ⟨le_rfl, ⟨fun htype hpos hm => hplain.ipv4 htype (by omega) (by omega),
              fun htype hproto hm hk => hplain.tcp htype hproto (by omega) (by omega)⟩, le_rfl, ht⟩
      · rw [run_bind_of_ok (run_cutHeader_truncated hlen rfl hlength (by omega)), hzero _ rfl]
        exact ⟨fun h => ⟨hshort (by omega), h⟩, fun h => h.2⟩

/-- Each pointer is null or that of the packet's slot. -/
def Slotted (payloadSize index : Nat) (t : Slots) : Prop := ∀ h dst, t.slice h = some dst → dst = h.slotSize payloadSize * index

/-- The other slots are as they were, if no copy was longer than its slot. -/
def Confined (payloadSize index : Nat) (t t' : Slots) : Prop :=
  Slotted payloadSize index t → Slotted payloadSize index t' ∧ (Within payloadSize t' → Within payloadSize t ∧
    ∀ (h : Header) (i : Nat), i < h.slotSize payloadSize * index ∨ h.slotSize payloadSize * (index + 1) ≤ i →
      (t'.array h)[i]? = (t.array h)[i]?)

instance : Std.Refl (Confined payloadSize index) := ⟨fun _ hslotted => ⟨hslotted, fun h => ⟨h, fun _ _ _ => rfl⟩⟩⟩

instance : IsTrans Slots (Confined payloadSize index) := ⟨fun t t' t'' h h' hslotted => by
  obtain ⟨hslotted', hwithin⟩ := h hslotted
  obtain ⟨hslotted'', hwithin'⟩ := h' hslotted'
  refine ⟨hslotted'', fun hlast => ?_⟩
  obtain ⟨hmid, hsame'⟩ := hwithin' hlast
  obtain ⟨hfirst, hsame⟩ := hwithin hmid
  exact ⟨hfirst, fun h i hi => (hsame' h i hi).trans (hsame h i hi)⟩⟩

/-- A null pointer is confined to its slice. -/
theorem confined_null (h : Header) :
    Keeps (Confined payloadSize index) (modify (Slots.null h) : EStateM NewPacket.Fault Slots Unit) := by
  refine keeps_modify fun t hslotted => ⟨fun h' dst hdst => ?_, fun hwithin => ⟨hwithin, fun _ _ _ => rfl⟩⟩
  unfold Slots.null at hdst
  dsimp only at hdst
  split at hdst
  · cases hdst
  · exact hslotted h' dst hdst

/-- The length is no slot. -/
theorem confined_cut (len : Nat) : Keeps (Confined payloadSize index) (modify (Slots.cut len) : EStateM NewPacket.Fault Slots Unit) :=
  keeps_modify fun _ hslotted => ⟨hslotted, fun hwithin => ⟨hwithin, fun _ _ _ => rfl⟩⟩

/-- A copy that is not longer than the slot ends in the slot. -/
theorem confined_put {h : Header} {dst n : Nat} {bytes : List UInt8} (hbytes : bytes.length = n) (hdst : t.slice h = some dst)
    (hfits : dst + n ≤ (t.array h).length) : Confined payloadSize index t ((t.log h n).put h dst bytes) := by
  refine fun hslotted => ⟨hslotted, fun hwithin => ?_⟩
  obtain ⟨hn, ht⟩ := within_log.mp (show Within payloadSize (t.log h n) from hwithin)
  refine ⟨ht, fun h' i hi => ?_⟩
  by_cases hh : h' = h
  · subst hh
    have hstart := hslotted h' dst hdst
    have harray : ((t.log h' n).put h' dst bytes).array h' = Bytes.overwrite (t.array h') dst bytes := if_pos rfl
    rw [harray]
    rw [Nat.mul_succ] at hi
    rcases hi with hi | hi
    · exact Bytes.getElem?_overwrite_of_lt (by omega) (by omega)
    · exact Bytes.getElem?_overwrite_of_ge (by omega) (by omega)
  · have harray : ((t.log h n).put h dst bytes).array h' = t.array h' := if_neg hh
    rw [harray]

/-- Noting a copy changes no array. -/
theorem confined_log (h : Header) (n : Nat) : Confined payloadSize index t (t.log h n) :=
  fun hslotted => ⟨hslotted, fun hwithin => ⟨(within_log.mp hwithin).2, fun _ _ _ => rfl⟩⟩

/-- A copy is confined to its slot. -/
theorem confined_copy (h : Header) (src n : Nat) : Keeps (Confined payloadSize index) (copy raw h src n) := by
  intro t
  rcases copy_cases raw h src n t with ⟨dst, hsrc, hdst, hfits, hrun⟩ | ⟨e, hrun⟩
  · rw [hrun]
    exact confined_put (by rw [List.length_take, List.length_drop]; omega) hdst hfits
  · rw [hrun]
    exact confined_log h n

/-- A header that is found is confined to its slot. -/
theorem confined_cutFound (h : Header) (p : Nat) : Keeps (Confined payloadSize index) (cutFound raw h p) :=
  keeps_ofExcept_bind fun _ _ => keeps_bind keeps_get fun _ =>
    keeps_ite (keeps_bind (confined_cut _) fun _ => confined_copy h p _) (confined_cut 0)

/-- A header is confined to its slot, if what comes after it is. -/
theorem confined_cutHeader (h : Header) {o : EStateM NewPacket.Fault Slots Unit} (hrest : Keeps (Confined payloadSize index) o) :
    Keeps (Confined payloadSize index) (cutHeader raw h o) := by
  have habsent : Keeps (Confined payloadSize index) (cutAbsent h o) := keeps_bind (confined_null h) fun _ => hrest
  refine keeps_bind keeps_get fun t => keeps_ite habsent (keeps_ofExcept_bind fun ptr _ => ?_)
  cases ptr with
  | none => exact habsent
  | some p => exact confined_cutFound h p

/-- The whole cutting is confined to the slots of the packet. -/
theorem confined_cutPacket (raw : List UInt8) : Keeps (Confined payloadSize index) (cutPacket raw) := by
  have hpayload : Keeps (Confined payloadSize index) (cutPayload raw) := by
    refine keeps_bind keeps_get fun t => keeps_ite (confined_null _) (keeps_ofExcept_bind fun ptr _ => ?_)
    cases ptr with
    | none => exact confined_null _
    | some p => exact confined_copy _ p _
  refine keeps_bind (confined_cutHeader _ (keeps_pure ())) fun _ => keeps_bind (confined_cutHeader _ (keeps_pure ())) fun _ => ?_
  exact keeps_bind (confined_cutHeader _ (confined_cutHeader _ (confined_cutHeader _ (keeps_pure ())))) fun _ => hpayload

/-- A packet of this kind leaves the slots of all other packets as they are. -/
theorem other_slots_unchanged (manager : SliceManager payloadSize slots) (index : Fin slots) {raw : List UInt8}
    (hplain : Plain raw (min payloadSize raw.length)) (h : Header) (i : Nat)
    (hi : i < h.slotSize payloadSize * index ∨ h.slotSize payloadSize * (index + 1) ≤ i) :
    ((leaves (slicedPacket.run (construct manager index raw))).array h)[i]? = (manager.array h)[i]? := by
  have hat : At raw (construct manager index raw).toSlots (construct manager index raw) := at_rawParser raw _
  have hfinal := (mirrors_slicedPacket _).leaves hat
  have hroom : ∀ h, Room payloadSize slots index (construct manager index raw).toSlots h := fun h => ⟨rfl, manager.length_array h⟩
  have hcopied : Within payloadSize (construct manager index raw).toSlots := fun c hc => absurd hc List.not_mem_nil
  have hwithin := (within_cutPacket index.isLt hroom (Nat.min_le_right ..) (Nat.min_le_left ..)).mpr ⟨hplain, hcopied⟩
  have hslotted : Slotted payloadSize index (construct manager index raw).toSlots := fun h dst hdst => (Option.some.inj hdst).symm
  have hsame := ((confined_cutPacket raw (construct manager index raw).toSlots hslotted).2 hwithin).2 h i hi
  rw [← hfinal.1] at hsame
  exact hsame

/-- An allocator whose memory holds one byte everywhere. -/
def filled (payloadSize slots : Nat) (b : UInt8) : SliceManager payloadSize slots where
  array h := List.replicate (h.slotSize payloadSize * slots) b
  length_array _ := List.length_replicate

/-- An Ethernet header and an 802.1q header, without anything behind them. -/
def taggedHeader : List UInt8 := [0, 0, 0, 0, 0, 0, 0, 0, 0, 0, 0, 0, 0x81, 0, 0, 1, 0x08, 0]

/-- The bytes of a header at `p`: the members and the options, or what has been captured of the payload. -/
def headerBytes (raw : List UInt8) : Header → Nat → Nat
  | .ethernet, p => ethernetLen raw p
  | .ipv4, p => max 20 (ipLen raw p)
  | .tcp, p => max 20 (tcpLen raw p)
  | .udp, _ => 8
  | .icmp, _ => 8
  | .payload, p => raw.length - p

/-- `get_header` returns, a null pointer when it does for the sliced packet, and otherwise a pointer to the same bytes. -/
def SameHeader (raw : List UInt8) (simple : NewPacket) (t : Slots) (h : Header) : Prop :=
  ∃ ptr q, (find h).run simple = .ok ptr q ∧ (ptr = none ↔ t.slice h = none) ∧ ∀ p dst, ptr = some p → t.slice h = some dst →
    ((t.array h).drop dst).take (headerBytes raw h p) = (simple.memory.drop p).take (headerBytes raw h p)

/-- Behind each header there is something, and neither TCP nor UDP. -/
structure Alike (slots index : Nat) (raw : List UInt8) : Prop where
  ethernet : ethernetLen raw 0 < raw.length
  ethernet_le : 14 * index + ethernetLen raw 0 ≤ 14 * slots
  ipv4 : ntohs (u16 raw 12) = Packet.kPktTypeIP4 → 20 ≤ ipLen raw 14 ∧ 14 + ipLen raw 14 < raw.length
  ipv4_le : ntohs (u16 raw 12) = Packet.kPktTypeIP4 → 20 * index + ipLen raw 14 ≤ 20 * slots
  l4 : ntohs (u16 raw 12) = Packet.kPktTypeIP4 → u8 raw 23 ≠ 6 ∧ u8 raw 23 ≠ 17
  icmp : ntohs (u16 raw 12) = Packet.kPktTypeIP4 → u8 raw 23 = 1 → 14 + ipLen raw 14 + 8 < raw.length

section Same

variable {rest : List UInt8} {simple : NewPacket}

/-- The accessor of the simple packet reads the place of the header. -/
theorem run_find {h : Header} {ptr : Option Nat} (hsimple : Places (raw ++ rest) (fun _ => True) simple) (hplace : place raw h = .ok ptr) :
    ∃ q, (find h).run simple = .ok ptr q := by
  obtain ⟨q, -, hrun⟩ := places_find h simple hsimple
  rw [refines_place rest h _ hplace] at hrun
  exact ⟨q, hrun⟩

/-- A header whose bytes have been copied to its slot. -/
theorem same_of_put {h : Header} {p n dst : Nat} (hsimple : Places (raw ++ rest) (fun _ => True) simple)
    (hplace : place raw h = .ok (some p)) (hn : headerBytes raw h p = n) (hsrc : p + n ≤ raw.length) (hslice : t.slice h = some dst)
    (array : List UInt8) (hfits : dst ≤ array.length) (harray : t.array h = Bytes.overwrite array dst ((raw.drop p).take n)) :
    SameHeader raw simple t h := by
  obtain ⟨q, hrun⟩ := run_find hsimple hplace
  refine ⟨some p, q, hrun, ?_, ?_⟩
  · rw [hslice]
    exact ⟨fun h => (by cases h), fun h => (by cases h)⟩
  · intro p' dst' hp hdst
    rw [hslice] at hdst
    cases hp
    cases hdst
    have hinside := Bytes.overwrite_inside ((raw.drop p).take n) hfits
    have hlength : ((raw.drop p).take n).length = n := by
      rw [List.length_take, List.length_drop]
      omega
    rw [hlength] at hinside
    rw [hn, harray, hinside, hsimple.memory, List.drop_append_of_le_length (by omega),
      List.take_append_of_le_length (by rw [List.length_drop]; omega)]

/-- A header that neither packet has is the same. -/
theorem same_of_null {h : Header} (hsimple : Places (raw ++ rest) (fun _ => True) simple) (hplace : place raw h = .ok none)
    (hslice : t.slice h = none) : SameHeader raw simple t h := by
  obtain ⟨q, hrun⟩ := run_find hsimple hplace
  exact ⟨none, q, hrun, ⟨fun _ => hslice, fun _ => rfl⟩, fun p dst hp => (by cases hp)⟩

/-- A payload that is copied into its slot. -/
theorem run_payload_copied {p : Nat} (hlen : t.len ≠ 0) (hplace : place raw .payload = .ok (some p)) (hsrc : p + t.len ≤ raw.length)
    (hroom : Room payloadSize slots index t .payload) (hindex : index < slots) (hsize : t.len ≤ payloadSize) :
    (cutPayload raw).run t = .ok () ((t.log .payload t.len).put .payload (payloadSize * index) ((raw.drop p).take t.len)) := by
  rw [run_cutPayload hlen hplace]
  exact run_copy hsrc hroom.slice (hroom.fits hindex hsize)

/-- The Ethernet header has been copied. -/
def afterEthernet (raw : List UInt8) (index : Nat) (t : Slots) : Slots :=
  ((t.cut (t.len - ethernetLen raw 0)).log .ethernet (ethernetLen raw 0)).put .ethernet (14 * index) ((raw.drop 0).take (ethernetLen raw 0))

/-- The IP header has been copied. -/
def afterIpv4 (raw : List UInt8) (index : Nat) (t : Slots) : Slots :=
  ((t.cut (t.len - ipLen raw 14)).log .ipv4 (ipLen raw 14)).put .ipv4 (20 * index) ((raw.drop 14).take (ipLen raw 14))

/-- The Ethernet header has fourteen bytes at least. -/
theorem le_ethernetLen (raw : List UInt8) : 14 ≤ ethernetLen raw 0 := by
  unfold ethernetLen
  split <;> omega

/-- It has fourteen in front of IPv4. -/
theorem ethernetLen_of_ip (htype : Packet.kPktTypeIP4 = ntohs (u16 raw 12)) : ethernetLen raw 0 = 14 := if_neg (by rw [← htype]; decide)

/-- What is left behind the IP header. -/
theorem len_afterIpv4 (index : Nat) (hlen : t.len = raw.length) (htype : Packet.kPktTypeIP4 = ntohs (u16 raw 12)) :
    (afterIpv4 raw index (afterEthernet raw index t)).len = raw.length - (14 + ipLen raw 14) := by
  have h14 := ethernetLen_of_ip htype
  change t.len - ethernetLen raw 0 - ipLen raw 14 = _
  omega

section Copied

variable (hroom : ∀ h, Room payloadSize slots index t h) (hlen : t.len = raw.length) (halike : Alike slots index raw)

include hroom hlen halike

/-- The Ethernet header is copied first. -/
theorem run_ethernet_copied :
    (cutPacket raw).run t = (cutHeader raw .ipv4 (return ()) >>= fun _ => cutRest raw).run (afterEthernet raw index t) := by
  have hge := le_ethernetLen raw
  have hlt := halike.ethernet
  have hroomEth := hroom .ethernet
  have hlength : lengthOf raw .ethernet 0 = .ok (ethernetLen raw 0) := lengthOf_ethernet (by omega)
  exact run_bind_of_ok (run_cutHeader_copied (by omega) rfl hlength (by omega) (by omega) hroomEth.slice
    (by rw [hroomEth.length_array]; exact halike.ethernet_le))

omit hlen in
/-- The Ethernet header is the same in both packets. -/
theorem same_ethernet {tf : Slots} (hsimple : Places (raw ++ rest) (fun _ => True) simple)
    (hslice : tf.slice .ethernet = t.slice .ethernet) (harray : tf.array .ethernet = (afterEthernet raw index t).array .ethernet) :
    SameHeader raw simple tf .ethernet := by
  have hlt := halike.ethernet
  have hle := halike.ethernet_le
  have hroomEth := hroom .ethernet
  refine same_of_put (p := 0) hsimple rfl rfl ?_ (hslice.trans hroomEth.slice) (t.array .ethernet) ?_ harray
  · change 0 + ethernetLen raw 0 ≤ _
    omega
  · rw [hroomEth.length_array]
    change 14 * index ≤ 14 * slots
    omega

/-- The IP header is copied next. -/
theorem run_ipv4_copied (htype : Packet.kPktTypeIP4 = ntohs (u16 raw 12)) :
    (cutHeader raw .ipv4 (return ()) >>= fun _ => cutRest raw).run (afterEthernet raw index t) =
      (cutRest raw).run (afterIpv4 raw index (afterEthernet raw index t)) := by
  have hip := placeIpv4_eq raw (by have := halike.ethernet; have := le_ethernetLen raw; omega)
  rw [if_pos htype] at hip
  obtain ⟨-, hlt⟩ := halike.ipv4 htype.symm
  have hroomIp := hroom .ipv4
  have hlength : lengthOf raw .ipv4 14 = .ok (ipLen raw 14) := lengthOf_ipv4 (by omega)
  have hleft : (afterEthernet raw index t).len = raw.length - 14 := by
    rw [← ethernetLen_of_ip htype, ← hlen]
    rfl
  exact run_bind_of_ok (run_cutHeader_copied (h := .ipv4) (by omega) hip hlength (by omega) (by omega) hroomIp.slice
    (by rw [show (afterEthernet raw index t).array .ipv4 = t.array .ipv4 from rfl, hroomIp.length_array]; exact halike.ipv4_le htype.symm))

/-- The IP header is the same in both packets. -/
theorem same_ipv4 {tf : Slots} (hsimple : Places (raw ++ rest) (fun _ => True) simple) (htype : Packet.kPktTypeIP4 = ntohs (u16 raw 12))
    (hslice : tf.slice .ipv4 = t.slice .ipv4)
    (harray : tf.array .ipv4 = (afterIpv4 raw index (afterEthernet raw index t)).array .ipv4) : SameHeader raw simple tf .ipv4 := by
  have hip := placeIpv4_eq raw (by have := halike.ethernet; have := le_ethernetLen raw; omega)
  rw [if_pos htype] at hip
  obtain ⟨hge, hlt⟩ := halike.ipv4 htype.symm
  have hle := halike.ipv4_le htype.symm
  have hroomIp := hroom .ipv4
  refine same_of_put (p := 14) hsimple hip (Nat.max_eq_right hge) (by omega) (hslice.trans hroomIp.slice) (t.array .ipv4) ?_ harray
  rw [hroomIp.length_array]
  change 20 * index ≤ 20 * slots
  omega

omit hlen halike in
/-- The payload is the same in both packets. -/
theorem same_payload {tf t' : Slots} {p : Nat} (hsimple : Places (raw ++ rest) (fun _ => True) simple)
    (hindex : index < slots) (hplace : place raw .payload = .ok (some p)) (hp : p ≤ raw.length) (hleft : t'.len = raw.length - p)
    (hslice : tf.slice .payload = t.slice .payload)
    (harray : tf.array .payload = Bytes.overwrite (t.array .payload) (payloadSize * index) ((raw.drop p).take t'.len)) :
    SameHeader raw simple tf .payload := by
  have hroomPayload := hroom .payload
  refine same_of_put (p := p) hsimple hplace hleft.symm (by omega) (hslice.trans hroomPayload.slice) (t.array .payload) ?_
    harray
  rw [hroomPayload.length_array]
  exact Nat.mul_le_mul_left _ (Nat.le_of_lt hindex)

/-- A packet without IPv4. -/
theorem same_of_ethernet (hsize : raw.length ≤ payloadSize) (hindex : index < slots) (htype : Packet.kPktTypeIP4 ≠ ntohs (u16 raw 12))
    (hsimple : Places (raw ++ rest) (fun _ => True) simple) :
    ∃ tf, (cutPacket raw).run t = .ok () tf ∧ ∀ h, SameHeader raw simple tf h := by
  have hge := le_ethernetLen raw
  have hlt := halike.ethernet
  have hip : place raw .ipv4 = .ok none := (placeIpv4_eq raw (by omega)).trans (by rw [if_neg htype])
  have hl4 := fun {h} => place_l4_of_none (h := h) hip
  have hpayload : place raw .payload = .ok (some (ethernetLen raw 0)) := by
    have hudp : placeL4 raw 17 = .ok none := hl4 (h := .udp) (by simp)
    have htcp : placeL4 raw 6 = .ok none := hl4 (h := .tcp) (by simp)
    have hicmp : placeL4 raw 1 = .ok none := hl4 (h := .icmp) (by simp)
    have hip' : placeIpv4 raw = .ok none := hip
    have hlength : lengthOf raw .ethernet 0 = .ok (ethernetLen raw 0) := lengthOf_ethernet (by omega)
    have hend := endOf_eq hlength
    rw [Nat.zero_add] at hend
    unfold place
    rw [hudp, htcp, hicmp, hip']
    exact hend
  have hleft : (afterEthernet raw index t).len = raw.length - ethernetLen raw 0 := by
    rw [← hlen]
    rfl
  have hroomPayload : Room payloadSize slots index (((((afterEthernet raw index t).null .ipv4).null .tcp).null .udp).null .icmp) .payload :=
    ⟨(hroom .payload).slice, (hroom .payload).length_array⟩
  have hcopied := run_payload_copied (t := ((((afterEthernet raw index t).null .ipv4).null .tcp).null .udp).null .icmp)
    (by change (afterEthernet raw index t).len ≠ 0; omega) hpayload (by change _ + (afterEthernet raw index t).len ≤ _; omega) hroomPayload
    hindex (by change (afterEthernet raw index t).len ≤ _; omega)
  have hrun : (cutHeader raw .ipv4 (return ()) >>= fun _ => cutRest raw).run (afterEthernet raw index t) =
      (cutPayload raw).run (((((afterEthernet raw index t).null .ipv4).null .tcp).null .udp).null .icmp) := by
    rw [run_absent_bind hip]
    change (cutL4 raw >>= fun _ => cutPayload raw).run _ = _
    unfold cutL4
    rw [run_absent_bind (hl4 (by simp)), run_absent_bind (hl4 (by simp)), run_absent_bind (hl4 (by simp))]
    rfl
  refine ⟨_, (run_ethernet_copied hroom hlen halike).trans (hrun.trans hcopied), fun h => ?_⟩
  cases h with
  | ethernet => exact same_ethernet hroom halike hsimple rfl rfl
  | ipv4 => exact same_of_null hsimple hip rfl
  | tcp => exact same_of_null hsimple (hl4 (by simp)) rfl
  | udp => exact same_of_null hsimple (hl4 (by simp)) rfl
  | icmp => exact same_of_null hsimple (hl4 (by simp)) rfl
  | payload => exact same_payload hroom hsimple hindex hpayload (by omega) hleft rfl rfl

omit hroom in
/-- Where an IP packet without TCP and UDP has its headers. -/
theorem place_ipv4 (htype : Packet.kPktTypeIP4 = ntohs (u16 raw 12)) :
    place raw .ipv4 = .ok (some 14) ∧ place raw .tcp = .ok none ∧ place raw .udp = .ok none ∧
      place raw .icmp = .ok (if 1 = u8 raw 23 then some (14 + ipLen raw 14) else none) := by
  obtain ⟨hge, hlt⟩ := halike.ipv4 htype.symm
  obtain ⟨htcp, hudp⟩ := halike.l4 htype.symm
  have hl4 := placeL4_eq raw (by omega)
  refine ⟨(placeIpv4_eq raw (by omega)).trans (by rw [if_pos htype]), (hl4 6).trans ?_, (hl4 17).trans ?_, (hl4 1).trans ?_⟩
  · rw [if_neg fun h => htcp h.2.symm]
  · rw [if_neg fun h => hudp h.2.symm]
  · simp only [htype, true_and]

/-- A packet of another protocol is the same in both classes. -/
theorem same_of_other (hsize : raw.length ≤ payloadSize) (hindex : index < slots) (htype : Packet.kPktTypeIP4 = ntohs (u16 raw 12))
    (hproto : (1 : UInt8) ≠ u8 raw 23) (hsimple : Places (raw ++ rest) (fun _ => True) simple) :
    ∃ tf, (cutPacket raw).run t = .ok () tf ∧ ∀ h, SameHeader raw simple tf h := by
  obtain ⟨hge, hlt⟩ := halike.ipv4 htype.symm
  obtain ⟨hip, htcp, hudp, hicmp⟩ := place_ipv4 hlen halike htype
  rw [if_neg hproto] at hicmp
  have hpayload : place raw .payload = .ok (some (14 + ipLen raw 14)) := by
    have hudp' : placeL4 raw 17 = .ok none := hudp
    have htcp' : placeL4 raw 6 = .ok none := htcp
    have hicmp' : placeL4 raw 1 = .ok none := hicmp
    have hip' : placeIpv4 raw = .ok (some 14) := hip
    unfold place
    rw [hudp', htcp', hicmp', hip']
    exact endOf_eq (lengthOf_ipv4 (by omega))
  have hleft := len_afterIpv4 index hlen htype
  have hroomPayload : Room payloadSize slots index
      ((((afterIpv4 raw index (afterEthernet raw index t)).null .tcp).null .udp).null .icmp) .payload :=
    ⟨(hroom .payload).slice, (hroom .payload).length_array⟩
  have hcopied := run_payload_copied
    (t := (((afterIpv4 raw index (afterEthernet raw index t)).null .tcp).null .udp).null .icmp)
    (by change (afterIpv4 raw index (afterEthernet raw index t)).len ≠ 0; omega) hpayload
    (by change _ + (afterIpv4 raw index (afterEthernet raw index t)).len ≤ _; omega) hroomPayload hindex
    (by change (afterIpv4 raw index (afterEthernet raw index t)).len ≤ _; omega)
  have hrun : (cutRest raw).run (afterIpv4 raw index (afterEthernet raw index t)) =
      (cutPayload raw).run ((((afterIpv4 raw index (afterEthernet raw index t)).null .tcp).null .udp).null .icmp) := by
    unfold cutRest cutL4
    rw [run_absent_bind htcp, run_absent_bind hudp, run_absent_bind hicmp]
    rfl
  refine ⟨_, (run_ethernet_copied hroom hlen halike).trans ((run_ipv4_copied hroom hlen halike htype).trans (hrun.trans hcopied)),
    fun h => ?_⟩
  cases h with
  | ethernet => exact same_ethernet hroom halike hsimple rfl rfl
  | ipv4 => exact same_ipv4 hroom hlen halike hsimple htype rfl rfl
  | tcp => exact same_of_null hsimple htcp rfl
  | udp => exact same_of_null hsimple hudp rfl
  | icmp => exact same_of_null hsimple hicmp rfl
  | payload => exact same_payload hroom hsimple hindex hpayload (by omega) hleft rfl rfl

/-- A packet of ICMP is the same in both classes. -/
theorem same_of_icmp (hsize : raw.length ≤ payloadSize) (hindex : index < slots) (htype : Packet.kPktTypeIP4 = ntohs (u16 raw 12))
    (hproto : (1 : UInt8) = u8 raw 23) (hsimple : Places (raw ++ rest) (fun _ => True) simple) :
    ∃ tf, (cutPacket raw).run t = .ok () tf ∧ ∀ h, SameHeader raw simple tf h := by
  obtain ⟨hge, -⟩ := halike.ipv4 htype.symm
  have hlt := halike.icmp htype.symm hproto.symm
  obtain ⟨hip, htcp, hudp, hicmp⟩ := place_ipv4 hlen halike htype
  rw [if_pos hproto] at hicmp
  have hpayload : place raw .payload = .ok (some (14 + ipLen raw 14 + 8)) := by
    have hudp' : placeL4 raw 17 = .ok none := hudp
    have htcp' : placeL4 raw 6 = .ok none := htcp
    have hicmp' : placeL4 raw 1 = .ok (some (14 + ipLen raw 14)) := hicmp
    unfold place
    rw [hudp', htcp', hicmp']
    rfl
  have hleftIp := len_afterIpv4 index hlen htype
  have hroomIcmp := hroom .icmp
  have hcut := run_cutHeader_copied (o := pure ()) (h := .icmp)
    (t := ((afterIpv4 raw index (afterEthernet raw index t)).null .tcp).null .udp) (n := 8)
    (by change (afterIpv4 raw index (afterEthernet raw index t)).len ≠ 0; omega) hicmp rfl
    (by change 8 ≤ (afterIpv4 raw index (afterEthernet raw index t)).len; omega) (by omega) hroomIcmp.slice
    (hroomIcmp.fits hindex (show 8 ≤ 8 from le_rfl))
  generalize hafter : (((((afterIpv4 raw index (afterEthernet raw index t)).null .tcp).null .udp).cut
    ((((afterIpv4 raw index (afterEthernet raw index t)).null .tcp).null .udp).len - 8)).log .icmp 8).put .icmp
      (Header.slotSize payloadSize .icmp * index) ((raw.drop (14 + ipLen raw 14)).take 8) = t' at hcut
  have hleft : t'.len = raw.length - (14 + ipLen raw 14 + 8) := by
    rw [← hafter]
    change (afterIpv4 raw index (afterEthernet raw index t)).len - 8 = _
    omega
  have hroomPayload : Room payloadSize slots index t' .payload := by
    rw [← hafter]
    exact ⟨(hroom .payload).slice, (hroom .payload).length_array⟩
  have hcopied := run_payload_copied (t := t') (by omega) hpayload (by omega) hroomPayload hindex (by omega)
  have hrun : (cutRest raw).run (afterIpv4 raw index (afterEthernet raw index t)) = (cutPayload raw).run t' := by
    unfold cutRest cutL4
    rw [run_absent_bind htcp, run_absent_bind hudp]
    exact run_bind_of_ok hcut
  refine ⟨_, (run_ethernet_copied hroom hlen halike).trans ((run_ipv4_copied hroom hlen halike htype).trans (hrun.trans hcopied)),
    fun h => ?_⟩
  subst hafter
  cases h with
  | ethernet => exact same_ethernet hroom halike hsimple rfl rfl
  | ipv4 => exact same_ipv4 hroom hlen halike hsimple htype rfl rfl
  | tcp => exact same_of_null hsimple htcp rfl
  | udp => exact same_of_null hsimple hudp rfl
  | icmp =>
    refine same_of_put (n := 8) hsimple hicmp rfl (by omega) hroomIcmp.slice (t.array .icmp) ?_ rfl
    rw [hroomIcmp.length_array]
    exact Nat.mul_le_mul_left _ (Nat.le_of_lt hindex)
  | payload => exact same_payload hroom hsimple hindex hpayload (by omega) hleft rfl rfl

end Copied

/-! What follows from a packet that is the same. -/

section Inverse

variable {tf : Slots}

/-- A packet that is the same has a payload. -/
theorem payload_of_same (hsimple : Places (raw ++ rest) (fun _ => True) simple) (hsame : SameHeader raw simple tf .payload) :
    tf.slice .payload ≠ none := by
  obtain ⟨ptr, q, hrun, hnull, -⟩ := hsame
  have hplace := ((places_find .payload).run_eq_ok_iff hsimple ptr).mp ⟨q, hrun⟩
  intro hslice
  rw [hnull.mpr hslice] at hplace
  exact place_payload_ne_none hplace

/-- What the simple packet does not have, the sliced one has not either. -/
theorem null_of_same {h : Header} (hsimple : Places (raw ++ rest) (fun _ => True) simple) (hsame : SameHeader raw simple tf h)
    (hplace : place raw h = .ok none) : tf.slice h = none := by
  obtain ⟨ptr, q, hrun, hnull, -⟩ := hsame
  obtain ⟨q', hrun'⟩ := run_find hsimple hplace
  rw [hrun'] at hrun
  cases hrun
  exact hnull.mp rfl

/-- Without anything left to copy the payload has no pointer. -/
theorem payload_of_rest_zero (hlen : t.len = 0) (hrun : (cutRest raw).run t = .ok () tf) : tf.slice .payload = none := by
  rw [run_cutRest_zero hlen] at hrun
  cases hrun
  rfl

/-- Without a byte left there is no payload. -/
theorem payload_of_ipv4_zero (hlen : t.len = 0) (hrun : (cutHeader raw .ipv4 (return ()) >>= fun _ => cutRest raw).run t = .ok () tf) :
    tf.slice .payload = none := by
  rw [EStateM.run_bind, run_cutHeader_absent (Or.inl hlen)] at hrun
  exact payload_of_rest_zero (t := t.null .ipv4) hlen hrun

/-- A step that has copied a header, and left something. -/
theorem copied_of_ok {h : Header} {o : EStateM NewPacket.Fault Slots Unit} {f : Unit → EStateM NewPacket.Fault Slots Unit} {p n dst : Nat}
    (hplace : place raw h = .ok (some p)) (hlength : lengthOf raw h p = .ok n) (hsrc : p + t.len ≤ raw.length) (hdst : t.slice h = some dst)
    (hlen : t.len ≠ 0) (hzero : ∀ t' : Slots, t'.len = 0 → (f ()).run t' = .ok () tf → tf.slice .payload = none)
    (hpayload : tf.slice .payload ≠ none) (hrun : (cutHeader raw h o >>= f).run t = .ok () tf) :
    n < t.len ∧ dst + n ≤ (t.array h).length ∧
      (f ()).run (((t.cut (t.len - n)).log h n).put h dst ((raw.drop p).take n)) = .ok () tf := by
  by_cases hle : n ≤ t.len
  · by_cases hfits : dst + n ≤ (t.array h).length
    · rw [run_bind_of_ok (run_cutHeader_copied hlen hplace hlength hle (by omega) hdst hfits)] at hrun
      refine ⟨?_, hfits, hrun⟩
      by_contra hlt
      exact hpayload (hzero _ (show t.len - n = 0 by omega) hrun)
    · rw [run_bind_of_error (run_cutHeader_over hlen hplace hlength hle (by omega) hdst (by omega))] at hrun
      cases hrun
  · rw [run_bind_of_ok (run_cutHeader_truncated hlen hplace hlength (by omega))] at hrun
    exact absurd (hzero _ rfl hrun) hpayload

/-- The rest leaves the IP header alone. -/
theorem untouched_cutRest (raw : List UInt8) : Keeps (Untouched .ipv4) (cutRest raw) := by
  refine keeps_bind ?_ fun _ => untouched_cutPayload (by decide)
  exact untouched_cutHeader (by decide) (untouched_cutHeader (by decide) (untouched_cutHeader (by decide) (keeps_pure ())))

/-- The steps behind the IP header, when all pointers are as in the simple packet. -/
theorem l4_of_same (hsimple : Places (raw ++ rest) (fun _ => True) simple) (hsame : ∀ h, SameHeader raw simple tf h)
    (htype : Packet.kPktTypeIP4 = ntohs (u16 raw 12)) (h24 : 24 ≤ raw.length) (hsrc : 14 + ipLen raw 14 + t.len ≤ raw.length)
    (hlen : t.len ≠ 0) (hslice : ∀ h ∈ [Header.udp, .icmp], ∃ dst, t.slice h = some dst)
    (hrun : (cutRest raw).run t = .ok () tf) : u8 raw 23 ≠ 6 ∧ u8 raw 23 ≠ 17 ∧ (u8 raw 23 = 1 → 8 < t.len) := by
  have hl4 := placeL4_eq raw h24
  simp only [htype, true_and] at hl4
  have hpayload := payload_of_same hsimple (hsame .payload)
  have hpresent : ∀ h ∈ [Header.udp, .icmp], Untouched h t tf → place raw h ≠ .ok none := by
    intro h hh hun hplace
    obtain ⟨dst, hdst⟩ := hslice h hh
    have hnone := null_of_same hsimple (hsame h) hplace
    rw [hun.1, hdst] at hnone
    cases hnone
  unfold cutRest cutL4 at hrun
  have htcp : u8 raw 23 ≠ 6 := by
    intro hproto
    have hfound : place raw .tcp = .ok (some (14 + ipLen raw 14)) := (hl4 6).trans (by rw [if_pos hproto.symm])
    have hun := untouched_found (h := .udp) (o := cutHeader raw .udp (cutHeader raw .icmp (pure ()))) (by decide) (by decide) hlen hfound
    rw [hrun] at hun
    refine hpresent .udp (by simp) hun ((hl4 17).trans ?_)
    rw [hproto]
    rfl
  have htcpNone : place raw .tcp = .ok none := (hl4 6).trans (by rw [if_neg htcp.symm])
  rw [run_absent_bind htcpNone] at hrun
  have hudp : u8 raw 23 ≠ 17 := by
    intro hproto
    have hfound : place raw .udp = .ok (some (14 + ipLen raw 14)) := (hl4 17).trans (by rw [if_pos hproto.symm])
    have hun := untouched_found (h := .icmp) (t := t.null .tcp) (o := cutHeader raw .icmp (pure ())) (by decide) (by decide) hlen hfound
    rw [hrun] at hun
    refine hpresent .icmp (by simp) ?_ ((hl4 1).trans ?_)
    · exact ⟨hun.1, hun.2⟩
    · rw [hproto]
      rfl
  refine ⟨htcp, hudp, fun hproto => ?_⟩
  have hudpNone : place raw .udp = .ok none := (hl4 17).trans (by rw [if_neg hudp.symm])
  have hicmp : place raw .icmp = .ok (some (14 + ipLen raw 14)) := (hl4 1).trans (by rw [if_pos hproto.symm])
  rw [run_absent_bind hudpNone] at hrun
  obtain ⟨dst, hdst⟩ := hslice .icmp (by simp)
  refine (copied_of_ok (t := (t.null .tcp).null .udp) hicmp rfl hsrc hdst hlen (fun t' hlen' hrun' => ?_) hpayload hrun).1
  rw [run_cutPayload_zero hlen'] at hrun'
  cases hrun'
  rfl

/-- An IP header that is shorter than its members has not been copied as a whole. -/
theorem ipLen_of_same {array : List UInt8} {dst : Nat} {b : UInt8} (hsimple : Places (raw ++ rest) (fun _ => True) simple)
    (hsame : SameHeader raw simple tf .ipv4) (hip : place raw .ipv4 = .ok (some 14)) (hlt : 14 + ipLen raw 14 < raw.length)
    (hslice : tf.slice .ipv4 = some dst)
    (harray : tf.array .ipv4 = Bytes.overwrite array dst ((raw.drop 14).take (ipLen raw 14)))
    (hroom : dst + 20 ≤ array.length) (hb : ∀ i, i < array.length → array[i]? = some b) (hne : b ≠ u8 raw (14 + ipLen raw 14)) :
    20 ≤ ipLen raw 14 := by
  by_contra hshort
  obtain ⟨ptr, q, hrun, -, hbytes⟩ := hsame
  obtain ⟨q', hrun'⟩ := run_find hsimple hip
  rw [hrun'] at hrun
  cases hrun
  have hbytes' := congrArg (fun l => l[ipLen raw 14]?) (hbytes 14 dst rfl hslice)
  have hlength : ((raw.drop 14).take (ipLen raw 14)).length = ipLen raw 14 := by
    rw [List.length_take, List.length_drop]
    omega
  have hn : headerBytes raw .ipv4 14 = 20 := Nat.max_eq_left (by omega)
  rw [hn, List.getElem?_take_of_lt (by omega), List.getElem?_take_of_lt (by omega), List.getElem?_drop, List.getElem?_drop, harray,
    Bytes.getElem?_overwrite_of_ge (by omega) (by omega), hb _ (by omega), hsimple.memory, List.getElem?_append_left hlt] at hbytes'
  refine hne ?_
  unfold u8
  rw [List.getD_eq_getElem?_getD, ← hbytes']
  rfl

/-- Packets that are the same are alike. -/
theorem alike_of_same {b : UInt8} (hroom : ∀ h, Room payloadSize slots index t h) (hlen : t.len = raw.length) (hindex : index < slots)
    (hb : ∀ i, i < (t.array .ipv4).length → (t.array .ipv4)[i]? = some b) (hne : b ≠ u8 raw (14 + ipLen raw 14))
    (hsimple : Places (raw ++ rest) (fun _ => True) simple) (hsame : ∀ h, SameHeader raw simple tf h)
    (hrun : (cutPacket raw).run t = .ok () tf) : Alike slots index raw := by
  have hpayload := payload_of_same hsimple (hsame .payload)
  change (cutHeader raw .ethernet (return ()) >>= fun _ =>
    (cutHeader raw .ipv4 (return ()) >>= fun _ => cutRest raw)).run t = .ok () tf at hrun
  have hpos : t.len ≠ 0 := by
    intro hzero
    rw [EStateM.run_bind, run_cutHeader_absent (Or.inl hzero)] at hrun
    exact hpayload (payload_of_ipv4_zero (t := t.null .ethernet) hzero hrun)
  have h14 : 14 ≤ raw.length := by
    by_contra hshort
    have hlength : lengthOf raw .ethernet 0 = .error .outOfBounds :=
      congrArg (Except.map fun type => if type = Packet.kPktType1q then 18 else 14)
        (congrArg (Except.map fun b => ntohs (u16 b 0)) (if_pos (by omega)))
    rw [run_bind_of_error (run_cutHeader_cutOff hpos rfl hlength)] at hrun
    cases hrun
  have hlength : lengthOf raw .ethernet 0 = .ok (ethernetLen raw 0) := lengthOf_ethernet (by omega)
  obtain ⟨hlt, hfits, hrun⟩ := copied_of_ok (h := .ethernet) rfl hlength (by omega) (hroom .ethernet).slice hpos
    (fun t' hlen' => payload_of_ipv4_zero hlen') hpayload hrun
  rw [(hroom .ethernet).length_array] at hfits
  rw [hlen] at hlt
  by_cases htype : Packet.kPktTypeIP4 = ntohs (u16 raw 12)
  · have he := ethernetLen_of_ip htype
    have hip : place raw .ipv4 = .ok (some 14) := (placeIpv4_eq raw h14).trans (by rw [if_pos htype])
    have hleft : (afterEthernet raw index t).len = raw.length - 14 := by
      change t.len - ethernetLen raw 0 = _
      omega
    have hrunIp : (cutHeader raw .ipv4 (return ()) >>= fun _ => cutRest raw).run (afterEthernet raw index t) = .ok () tf := hrun
    have hlengthIp : lengthOf raw .ipv4 14 = .ok (ipLen raw 14) := lengthOf_ipv4 (by omega)
    obtain ⟨hltIp, hfitsIp, hrunRest⟩ := copied_of_ok (h := .ipv4) (t := afterEthernet raw index t) hip hlengthIp (by omega)
      (hroom .ipv4).slice (by omega) (fun t' hlen' => payload_of_rest_zero hlen') hpayload hrunIp
    have hrunL4 : (cutRest raw).run (afterIpv4 raw index (afterEthernet raw index t)) = .ok () tf := hrunRest
    have hun := untouched_cutRest raw (afterIpv4 raw index (afterEthernet raw index t))
    rw [hrunL4] at hun
    have hm : 20 ≤ ipLen raw 14 := by
      refine ipLen_of_same hsimple (hsame .ipv4) hip (by omega) (hun.1.trans (hroom .ipv4).slice) hun.2 ?_ hb hne
      exact (hroom .ipv4).fits hindex (le_refl 20)
    have hleft' : (afterIpv4 raw index (afterEthernet raw index t)).len = raw.length - (14 + ipLen raw 14) := len_afterIpv4 index hlen htype
    obtain ⟨htcp, hudp, hicmp⟩ := l4_of_same (t := afterIpv4 raw index (afterEthernet raw index t)) hsimple hsame htype (by omega)
      (by omega) (by omega) (fun h _ => ⟨_, (hroom h).slice⟩) hrunL4
    have hfitsIp' : 20 * index + ipLen raw 14 ≤ (t.array .ipv4).length := hfitsIp
    rw [(hroom .ipv4).length_array] at hfitsIp'
    exact ⟨hlt, hfits, fun _ => ⟨hm, by omega⟩, fun _ => hfitsIp', fun _ => ⟨htcp, hudp⟩, fun _ hproto => by have := hicmp hproto; omega⟩
  · have hnot : ntohs (u16 raw 12) ≠ Packet.kPktTypeIP4 := fun h => htype h.symm
    exact ⟨hlt, hfits, fun h => absurd h hnot, fun h => absurd h hnot, fun h => absurd h hnot, fun h => absurd h hnot⟩

end Inverse

end Same

/-- The next byte is another one. -/
theorem succ_ne (b : UInt8) : b + 1 ≠ b := by
  intro h
  have hnat := congrArg UInt8.toNat h
  have hlt := b.toNat_lt
  rw [UInt8.toNat_add, UInt8.toNat_one] at hnat
  omega

/-- The slots when the program returns. -/
theorem run_of_mirror {s m s' : Slicing} {r : EStateM.Result NewPacket.Fault Slots Unit} (hrun : slicedPacket.run s = .ok () m)
    (hrun' : slicedPacket.run s = outcome (value r) s') (hslots : s'.toSlots = leaves r) : r = .ok () m.toSlots := by
  rw [hrun] at hrun'
  cases r with
  | ok u t =>
    cases hrun'
    have heq : m.toSlots = t := hslots
    rw [heq]
  | error e t => cases hrun'

/-- Whatever was in the memory before, both classes present a raw packet alike exactly when it is of this kind. -/
theorem sliced_same_iff (index : Fin slots) (raw : List UInt8) (hraw : raw.length ≤ payloadSize) :
    (∀ (memory : List UInt8) (manager : SliceManager payloadSize slots), memory.length = payloadSize →
      ∃ s, slicedPacket.run (construct manager index raw) = .ok () s ∧ ∀ h, SameHeader raw (simplePacket memory raw) s.toSlots h) ↔
      Alike slots index raw := by
  have hplaces : ∀ memory : List UInt8, memory.length = payloadSize →
      Places (raw ++ memory.drop raw.length) (fun _ => True) (simplePacket memory raw) := by
    intro memory hmemory
    have hplaces := places_simplePacket memory raw
    have heq : (simplePacket memory raw).memory = raw ++ memory.drop raw.length := by
      change raw.take memory.length ++ memory.drop raw.length = _
      rw [List.take_of_length_le (by omega)]
    rwa [heq] at hplaces
  have hroom : ∀ manager : SliceManager payloadSize slots, ∀ h, Room payloadSize slots index (construct manager index raw).toSlots h :=
    fun manager h => ⟨rfl, manager.length_array h⟩
  have hlen : ∀ manager : SliceManager payloadSize slots, (construct manager index raw).toSlots.len = raw.length :=
    fun manager => Nat.min_eq_right hraw
  have hat : ∀ manager : SliceManager payloadSize slots,
      At raw (construct manager index raw).toSlots (construct manager index raw) := fun manager => at_rawParser raw _
  constructor
  · intro hsame
    obtain ⟨s, hrun, hheaders⟩ := hsame (List.replicate payloadSize 0) (filled payloadSize slots (u8 raw (14 + ipLen raw 14) + 1))
      List.length_replicate
    obtain ⟨s', hs', hrun'⟩ := mirrors_slicedPacket _ _ (hat (filled payloadSize slots (u8 raw (14 + ipLen raw 14) + 1)))
    have hcut := run_of_mirror hrun hrun' hs'.1
    refine alike_of_same (b := u8 raw (14 + ipLen raw 14) + 1) (hroom _) (hlen _) index.isLt ?_ ?_ (hplaces _ List.length_replicate) hheaders hcut
    · intro i hi
      change i < (List.replicate _ _).length at hi
      rw [List.length_replicate] at hi
      exact List.getElem?_replicate_of_lt hi
    · exact succ_ne _
  · intro halike memory manager hmemory
    have hcut : ∃ tf, (cutPacket raw).run (construct manager index raw).toSlots = .ok () tf ∧
        ∀ h, SameHeader raw (simplePacket memory raw) tf h := by
      by_cases htype : Packet.kPktTypeIP4 = ntohs (u16 raw 12)
      · by_cases hproto : (1 : UInt8) = u8 raw 23
        · exact same_of_icmp (hroom manager) (hlen manager) halike hraw index.isLt htype hproto (hplaces memory hmemory)
        · exact same_of_other (hroom manager) (hlen manager) halike hraw index.isLt htype hproto (hplaces memory hmemory)
      · exact same_of_ethernet (hroom manager) (hlen manager) halike hraw index.isLt htype (hplaces memory hmemory)
    obtain ⟨tf, hrun, hheaders⟩ := hcut
    obtain ⟨s', hs', hrun'⟩ := mirrors_slicedPacket _ _ (hat manager)
    rw [hrun] at hrun' hs'
    exact ⟨s', hrun', by rw [hs'.1]; exact hheaders⟩

/-- A packet of ICMP, cut into filled slots. -/
theorem sliced_same_icmp : ∃ s, slicedPacket.run (construct (filled 64 1 0) 0 (ipFrame 1)) = .ok () s ∧
    ∀ h, SameHeader (ipFrame 1) (simplePacket (List.replicate 64 0) (ipFrame 1)) s.toSlots h :=
  (sliced_same_iff (0 : Fin 1) (ipFrame 1) (show _ ≤ 64 by decide)).mpr
    ⟨by decide, by decide, by decide, by decide, by decide, by decide⟩ (List.replicate 64 0) (filled 64 1 0) List.length_replicate

/-- The ICMP pointer of a UDP packet is not null: it is left as it is when the header before it has been found. -/
theorem sliced_udp_icmp : ¬∀ (payloadSize slots : Nat) (index : Fin slots) (raw memory : List UInt8)
    (manager : SliceManager payloadSize slots), raw.length ≤ payloadSize → memory.length = payloadSize →
    ∃ s, slicedPacket.run (construct manager index raw) = .ok () s ∧ ∀ h, SameHeader raw (simplePacket memory raw) s.toSlots h := by
  intro hsame
  obtain ⟨s, hrun, hheaders⟩ := hsame 64 1 0 (ipFrame 17) (List.replicate 64 0) (filled 64 1 0) (by decide) (by decide)
  have hicmp : (leaves (slicedPacket.run (construct (filled 64 1 0) 0 (ipFrame 17)))).slice .icmp = some 0 := by decide +kernel
  rw [hrun] at hicmp
  obtain ⟨ptr, q, hfind, hnull, -⟩ := hheaders .icmp
  have hnone : ∃ q, (find .icmp).run (simplePacket (List.replicate 64 0) (ipFrame 17)) = .ok none q := ⟨_, rfl⟩
  obtain ⟨q', hfind'⟩ := hnone
  rw [hfind'] at hfind
  cases hfind
  have hslice : s.slice .icmp = none := hnull.mp rfl
  have hslot : s.slice .icmp = some 0 := hicmp
  rw [hslot] at hslice
  cases hslice

end Slicing

end Blockmon.Messages
