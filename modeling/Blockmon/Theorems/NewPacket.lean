import Blockmon.Lemmas.NewPacket
import Blockmon.Theorems.Packet

/-!
# The two packet classes on one frame

`Packet` and `NewPacket` return the same for most of the members of a frame without an 802.1q header. They differ in the addresses, which
only `Packet` turns into the byte order of the host, and in the window and the urgent pointer, whose structure in `messages/NetTypes.hpp`
is too short. Behind an 802.1q header `NewPacket` finds nothing.
-/

namespace Blockmon.Messages

open Exn

open Blockmon.Messages.Packet (kFIN kSYN kRST kPSH kACK kURG kTCP kUDP hasFlag Of Stage fresh_new portsView tcpView payloadView payloadStage)

/-! ## Byte order -/

/-- A window inside of the bytes has its length. -/
theorem length_window (bytes : List UInt8) {off n : Nat} (h : off + n ≤ bytes.length) : ((bytes.drop off).take n).length = n := by
  rw [List.length_take_of_le]
  rw [List.length_drop]
  omega

/-- The value of four bytes as the machine reads them. -/
theorem u32_toNat {bytes : List UInt8} {off : Nat} (h : off + 4 ≤ bytes.length) :
    (u32 bytes off).toNat = Bytes.decode ((bytes.drop off).take 4) := by
  have hlt := Bytes.decode_lt ((bytes.drop off).take 4)
  rw [length_window bytes h] at hlt
  exact UInt32.toNat_ofNat_of_lt hlt

/-- The value of four bytes in network order. -/
theorem ntohl_u32_toNat {bytes : List UInt8} {off : Nat} (h : off + 4 ≤ bytes.length) :
    (ntohl (u32 bytes off)).toNat = Bytes.decode ((bytes.drop off).take 4).reverse := by
  have hswap := Bytes.swap_decode ((bytes.drop off).take 4)
  rw [length_window bytes h] at hswap
  have hlt := Bytes.decode_lt ((bytes.drop off).take 4).reverse
  rw [List.length_reverse, length_window bytes h] at hlt
  unfold ntohl
  rw [u32_toNat h, hswap]
  exact UInt32.toNat_ofNat_of_lt hlt

/-- The four bytes of an address are the same from the back. -/
def Palindrome (bytes : List UInt8) (off : Nat) : Prop := ((bytes.drop off).take 4).reverse = (bytes.drop off).take 4

instance (bytes : List UInt8) (off : Nat) : Decidable (Palindrome bytes off) := inferInstanceAs (Decidable (_ = _))

/-- Without the conversion the value is right just when the four bytes read the same both ways. -/
theorem u32_eq_ntohl_iff {bytes : List UInt8} {off : Nat} (h : off + 4 ≤ bytes.length) :
    u32 bytes off = ntohl (u32 bytes off) ↔ Palindrome bytes off := by
  rw [← UInt32.toNat_inj, ntohl_u32_toNat h, u32_toNat h, Bytes.decode_inj (List.length_reverse).symm]
  exact eq_comm

/-- A window of two bytes. -/
theorem window_two {bytes : List UInt8} {off : Nat} (h : off + 2 ≤ bytes.length) :
    (bytes.drop off).take 2 = [u8 bytes off, u8 bytes (off + 1)] := by
  unfold u8
  rw [List.drop_eq_getElem_cons (by omega), List.drop_eq_getElem_cons (by omega), List.take_succ_cons, List.take_succ_cons, List.take_zero,
    List.getD_eq_getElem?_getD, List.getD_eq_getElem?_getD, List.getElem?_eq_getElem (by omega), List.getElem?_eq_getElem (by omega)]
  rfl

/-- The value of two bytes in network order. -/
theorem ntohs_u16_toNat {bytes : List UInt8} {off : Nat} (h : off + 2 ≤ bytes.length) :
    (ntohs (u16 bytes off)).toNat = (u8 bytes (off + 1)).toNat + 256 * (u8 bytes off).toNat := by
  have hhigh := (u8 bytes off).toNat_lt
  have hlow := (u8 bytes (off + 1)).toNat_lt
  have hdecode : Bytes.decode ((bytes.drop off).take 2) = (u8 bytes off).toNat + 256 * (u8 bytes (off + 1)).toNat := by
    rw [window_two h]
    rfl
  have hswap : Bytes.swap 2 (Bytes.decode ((bytes.drop off).take 2)) = (u8 bytes (off + 1)).toNat + 256 * (u8 bytes off).toNat := by
    have hreverse := Bytes.swap_decode ((bytes.drop off).take 2)
    rw [length_window bytes h] at hreverse
    rw [hreverse, window_two h]
    rfl
  have hread : (u16 bytes off).toNat = Bytes.decode ((bytes.drop off).take 2) :=
    UInt16.toNat_ofNat_of_lt (by unfold UInt16.size; omega)
  unfold ntohs
  rw [hread, hswap]
  exact UInt16.toNat_ofNat_of_lt (by unfold UInt16.size; omega)

/-! ## Flags -/

/-- The flags of TCP are the six low bits. -/
theorem flags_ofNat : ∀ i : Fin 256,
    decide ((.ofNat i.val : UInt8) &&& kFIN ≠ 0) = i.val.testBit 0 ∧ decide ((.ofNat i.val : UInt8) &&& kSYN ≠ 0) = i.val.testBit 1 ∧
      decide ((.ofNat i.val : UInt8) &&& kRST ≠ 0) = i.val.testBit 2 ∧ decide ((.ofNat i.val : UInt8) &&& kPSH ≠ 0) = i.val.testBit 3 ∧
      decide ((.ofNat i.val : UInt8) &&& kACK ≠ 0) = i.val.testBit 4 ∧ decide ((.ofNat i.val : UInt8) &&& kURG ≠ 0) = i.val.testBit 5 := by
  decide +kernel

/-- The masks of one class and the bits of the other. -/
theorem flags_eq (b : UInt8) :
    decide (b &&& kFIN ≠ 0) = b.toNat.testBit 0 ∧ decide (b &&& kSYN ≠ 0) = b.toNat.testBit 1 ∧
      decide (b &&& kRST ≠ 0) = b.toNat.testBit 2 ∧ decide (b &&& kPSH ≠ 0) = b.toNat.testBit 3 ∧
      decide (b &&& kACK ≠ 0) = b.toNat.testBit 4 ∧ decide (b &&& kURG ≠ 0) = b.toNat.testBit 5 := by
  have h := flags_ofNat ⟨b.toNat, b.toNat_lt⟩
  rwa [UInt8.ofNat_toNat] at h

/-! ## When the classes agree -/

namespace Frame

/-- The flags of the TCP header. -/
def flags (f : Frame) : UInt8 := u8 f.bytes (f.l4off + 13)

/-- A predicate of a flag: `NewPacket` says no behind an 802.1q header and without TCP, where `Packet` has the flags `unset` of the memory
that it was constructed in. -/
def FlagAgrees (f : Frame) (unset flag : UInt8) : Prop := if f.isTcp then f.tagged = true → f.flags &&& flag = 0 else unset &&& flag = 0

/-- The condition for an accessor to return the same in both classes. -/
def Agrees (f : Frame) (unset : UInt8) : Accessor → Prop
  | .ipSrc => f.tagged = false ∧ Palindrome f.bytes (f.iphoff + 12)
  | .ipDst => f.tagged = false ∧ Palindrome f.bytes (f.iphoff + 16)
  | .key => f.tagged = false ∧ Palindrome f.bytes (f.iphoff + 12) ∧ Palindrome f.bytes (f.iphoff + 16)
  | .isTcp => ¬(f.tagged = true ∧ f.isTcp)
  | .isUdp => ¬(f.tagged = true ∧ ¬f.isTcp)
  | .payloadLen => f.tagged = true → f.payloadSize = 0
  | .tcpHasFin => f.FlagAgrees unset kFIN
  | .tcpHasSyn => f.FlagAgrees unset kSYN
  | .tcpHasRst => f.FlagAgrees unset kRST
  | .tcpHasPsh => f.FlagAgrees unset kPSH
  | .tcpHasAck => f.FlagAgrees unset kACK
  | .tcpSeq | .tcpAck | .tcpHeaderLength => f.tagged = false ∧ f.isTcp
  | .tcpWin => f.tagged = false ∧ f.isTcp ∧ u8 f.bytes (f.l4off + 14) = 0 ∧ u8 f.bytes (f.l4off + 15) = 0
  | .tcpUrg => f.tagged = false ∧ f.isTcp ∧ (f.flags &&& kURG ≠ 0 → u8 f.bytes (f.l4off + 16) = u8 f.bytes (f.l4off + 19))
  | .udpLength => f.tagged = false ∧ ¬f.isTcp
  | _ => f.tagged = false

end Frame

namespace NewPacket

variable {f : Frame} {p : Packet}

/-- For a frame the command has one outcome, whatever was called before, and this is the value `w` exactly under `c`. -/
def Outcome (f : Frame) (new : Dissect Value) (w : Value) (c : Prop) : Prop :=
  ∃ r, Yields (Holds f (KeyOf f)) new r ∧ (r = .ok w ↔ c)

/-- An accessor that reads one value. -/
theorem outcome_value {α : Type} {new : Dissect α} {a : α} {g : α → Value} {w : Value} {c : Prop}
    (hnew : Yields (Holds f (KeyOf f)) new (.ok a)) (hold : g a = w ↔ c) : Outcome f (do return g (← new)) w c := by
  refine ⟨_, hnew.bind_pure g, ?_⟩
  rw [← hold]
  constructor
  · exact Except.ok.inj
  · exact congrArg Except.ok

/-- An accessor that reaches a fault. -/
theorem outcome_of_error {α : Type} {new : Dissect α} {e : Fault} {g : α → Value} {w : Value} {c : Prop}
    (hnew : Yields (Holds f (KeyOf f)) new (.error e)) (hc : ¬c) : Outcome f (do return g (← new)) w c := by
  refine ⟨_, hnew.bind_error, ?_⟩
  rw [iff_false_intro hc, iff_false]
  exact nofun

/-- An accessor of the IPv4 header. -/
theorem outcome_ipv4 {α : Type} {new : Dissect α} {a : α} {g : α → Value} {w : Value} {c : Prop}
    (hnew : Yields (Holds f (KeyOf f)) new (onHeader f .ipv4 a)) (hold : f.tagged = false → (g a = w ↔ c)) :
    Outcome f (do return g (← new)) w (f.tagged = false ∧ c) := by
  cases htagged : f.tagged with
  | true =>
    rw [onHeader_ipv4_tagged htagged] at hnew
    exact outcome_of_error hnew (by simp)
  | false =>
    rw [onHeader_ipv4 htagged] at hnew
    obtain ⟨r, hr, hiff⟩ := outcome_value (g := g) hnew (hold htagged)
    exact ⟨r, hr, hiff.trans (by simp)⟩

/-- A member of the IP header that both classes read in the same way. -/
theorem outcome_ipMember {α : Type} {read : Nat → Dissect α} {a : α} {g : α → Value} {w : Value}
    (hread : Yields (Holds f (KeyOf f)) (read f.iphoff) (.ok a)) (hold : w = g a) :
    Outcome f (do return g (← member ipv4 read)) w (f.tagged = false) := by
  obtain ⟨r, hr, hiff⟩ := outcome_ipv4 (g := g) (w := w) (c := True) (yields_ipMember hread) fun _ => iff_true_intro hold.symm
  exact ⟨r, hr, hiff.trans (and_iff_left trivial)⟩

/-- A member of the TCP header. -/
theorem outcome_tcpMember {α : Type} {read : Nat → Dissect α} {a : α} {g : α → Value} {w : Value} {c : Prop}
    (hread : f.isTcp → Yields (Holds f (KeyOf f)) (read f.l4off) (.ok a)) (hold : f.isTcp → (g a = w ↔ c)) :
    Outcome f (do return g (← member tcp read)) w (f.tagged = false ∧ f.isTcp ∧ c) := by
  have hnew := yields_tcpMember hread
  by_cases h : f.tagged = false ∧ f.isTcp
  · rw [onHeader_tcp h.1 h.2] at hnew
    obtain ⟨r, hr, hiff⟩ := outcome_value (g := g) hnew (hold h.2)
    exact ⟨r, hr, hiff.trans (by simp [h.1, h.2])⟩
  · have hnull : onHeader f .tcp a = .error .nullPointer := by
      unfold onHeader Frame.header
      by_cases ht : f.isTcp <;> cases htagged : f.tagged <;> simp_all
    rw [hnull] at hnew
    exact outcome_of_error hnew fun hc => h ⟨hc.1, hc.2.1⟩

/-- A member of the TCP header that both classes read in the same way. -/
theorem outcome_tcpSame {α : Type} {read : Nat → Dissect α} {a : α} {g : α → Value} {w : Value}
    (hread : f.isTcp → Yields (Holds f (KeyOf f)) (read f.l4off) (.ok a)) (hold : f.isTcp → w = g a) :
    Outcome f (do return g (← member tcp read)) w (f.tagged = false ∧ f.isTcp) := by
  obtain ⟨r, hr, hiff⟩ := outcome_tcpMember (g := g) (w := w) (c := True) hread fun ht => iff_true_intro (hold ht).symm
  exact ⟨r, hr, hiff.trans (by simp)⟩

/-- A member of the UDP header. -/
theorem outcome_udpMember {α : Type} {read : Nat → Dissect α} {a : α} {g : α → Value} {w : Value}
    (hread : Yields (Holds f (KeyOf f)) (read f.l4off) (.ok a)) (hold : ¬f.isTcp → w = g a) :
    Outcome f (do return g (← member udp read)) w (f.tagged = false ∧ ¬f.isTcp) := by
  have hnew := yields_udpMember hread
  by_cases h : f.tagged = false ∧ ¬f.isTcp
  · rw [onHeader_udp h.1 h.2] at hnew
    obtain ⟨r, hr, hiff⟩ := outcome_value (g := g) (w := w) (c := True) hnew (iff_true_intro (hold h.2).symm)
    exact ⟨r, hr, hiff.trans (by simp [h.1, h.2])⟩
  · have hnull : onHeader f .udp a = .error .nullPointer := by
      unfold onHeader Frame.header
      by_cases ht : f.isTcp <;> cases htagged : f.tagged <;> simp_all
    rw [hnull] at hnew
    exact outcome_of_error hnew h

/-- A port. -/
theorem outcome_port {read : Nat → Dissect UInt16} {port' : UInt16} {what : String} {w : Value}
    (hread : Yields (Holds f (KeyOf f)) (read f.l4off) (.ok port')) (hold : w = .number port'.toNat) :
    Outcome f (do return .number (← port read what).toNat) w (f.tagged = false) := by
  have hnew := yields_port what hread
  cases htagged : f.tagged with
  | true =>
    rw [htagged] at hnew
    exact outcome_of_error hnew (by simp)
  | false =>
    rw [htagged] at hnew
    obtain ⟨r, hr, hiff⟩ := outcome_value (g := fun n : UInt16 => Value.number n.toNat) (w := w) (c := True) hnew
      (iff_true_intro hold.symm)
    exact ⟨r, hr, hiff.trans (by simp)⟩

/-! ### What `Packet` returns -/

/-- The flags of the older class. -/
theorem tcpflags_eq (h : Of f p) : p.tcp.tcpflags = if f.isTcp then f.flags else p.tcpflags := by
  have hview := h.tcpView
  by_cases ht : f.isTcp
  · rw [if_pos ht] at hview ⊢
    exact congrArg (fun v => v.1) hview
  · rw [if_neg ht] at hview ⊢
    exact congrArg (fun v => v.1) hview

/-- The keys are equal just when both addresses read the same both ways. -/
theorem key_eq_iff (h : Of f p) :
    f.newKey = p.ports.key ↔ Palindrome f.bytes (f.iphoff + 12) ∧ Palindrome f.bytes (f.iphoff + 16) := by
  obtain ⟨udplen, hports, -⟩ := h.portsView
  have hip := h.fresh.ports_frame.1.trans h.ipView_ip
  have hsrc : p.ports.key.src_ip4 = ntohl (u32 f.bytes (f.iphoff + 12)) := congrArg (fun v => v.2.1.1) hip
  have hdst : p.ports.key.dst_ip4 = ntohl (u32 f.bytes (f.iphoff + 16)) := congrArg (fun v => v.2.1.2.1) hip
  have hproto : p.ports.key.proto = ipProto f.bytes f.iphoff := congrArg (fun v => v.2.1.2.2) hip
  have hsrcPort : p.ports.key.src_port = ntohs (u16 f.bytes f.l4off) := congrArg (fun v => v.1) hports
  have hdstPort : p.ports.key.dst_port = ntohs (u16 f.bytes (f.l4off + 2)) := congrArg (fun v => v.2.1) hports
  rw [← u32_eq_ntohl_iff (ip_le (12 + 4) (by decide)), ← u32_eq_ntohl_iff (ip_le (16 + 4) (by decide)), ← hsrc, ← hdst]
  constructor
  · intro hkey
    exact ⟨congrArg FlowKey.src_ip4 hkey, congrArg FlowKey.dst_ip4 hkey⟩
  · rintro ⟨hsrc', hdst'⟩
    refine key_eq (Prod.ext hsrc' (Prod.ext hdst' hproto.symm)) (Prod.ext hsrcPort.symm hdstPort.symm)

/-- A predicate of the flags. -/
theorem outcome_flag (h : Of f p) {flag : UInt8} {k : Nat} (hflag : ∀ b : UInt8, decide (b &&& flag ≠ 0) = b.toNat.testBit k) :
    Outcome f (do return .bool (← tcpHas (flagBit k))) (.bool (hasFlag flag p.tcp)) (f.FlagAgrees p.tcpflags flag) := by
  refine outcome_value (g := Value.bool) (yields_tcpHas (yields_flagBit k)) ?_
  have hold : hasFlag flag p.tcp = decide ((if f.isTcp then f.flags else p.tcpflags) &&& flag ≠ 0) := by
    rw [← tcpflags_eq h]
    rfl
  rw [hold, Value.bool.injEq, ← hflag]
  unfold Frame.FlagAgrees
  by_cases ht : f.isTcp
  · rw [if_pos ht, if_pos ht]
    change (decide (f.tagged = false ∧ f.isTcp) && decide (f.flags &&& flag ≠ 0)) = decide (f.flags &&& flag ≠ 0) ↔ _
    cases htagged : f.tagged <;> by_cases hset : f.flags &&& flag = 0 <;> simp [ht, hset]
  · rw [if_neg ht, if_neg ht]
    by_cases hset : p.tcpflags &&& flag = 0 <;> simp [ht, hset]

/-- The length of the payload is the same in both classes, but behind a tag. -/
theorem outcome_payloadLen (h : Of f p) :
    Outcome f (do return .number (← payloadLen).toNat) (.number (payloadStage p).payloadLen) (f.tagged = true → f.payloadSize = 0) := by
  refine outcome_value (g := fun n : UInt16 => Value.number n.toNat) yields_payloadLen ?_
  have hold : (payloadStage p).payloadLen = f.payloadSize := congrArg (fun v => v.2) h.payloadView
  rw [hold, Value.number.injEq]
  cases htagged : f.tagged with
  | true =>
    rw [if_pos rfl]
    simp only [true_implies]
    exact eq_comm
  | false =>
    rw [if_neg (by decide), payloadSize_eq]
    simp

/-- The window is the same just when its bytes are zero. -/
theorem outcome_tcpWin (h : Of f p) :
    Outcome f (do return .number (← member tcp window).toNat) (.number p.tcp.tcpwin.toNat)
      (f.tagged = false ∧ f.isTcp ∧ u8 f.bytes (f.l4off + 14) = 0 ∧ u8 f.bytes (f.l4off + 15) = 0) := by
  refine outcome_tcpMember (g := fun n : UInt16 => Value.number n.toNat)
    (fun ht => (yields_shortAt (tcp_le (14 + 2) ht (by decide))).bind_pure ntohs) fun ht => ?_
  have hview := h.tcpView
  rw [if_pos ht] at hview
  have hold : p.tcp.tcpwin = (u8 f.bytes (f.l4off + 14)).toUInt32 := congrArg (fun v => v.2.2.2.2.1) hview
  have hnew : (ntohs (u16 f.bytes (f.l4off + 14))).toNat =
      (u8 f.bytes (f.l4off + 15)).toNat + 256 * (u8 f.bytes (f.l4off + 14)).toNat :=
    ntohs_u16_toNat (tcp_le (14 + 2) ht (by decide))
  rw [hold, Value.number.injEq, hnew, UInt8.toNat_toUInt32, ← UInt8.toNat_inj, ← UInt8.toNat_inj]
  change _ + 256 * _ = _ ↔ _ = 0 ∧ _ = 0
  constructor
  · intro heq
    constructor <;> omega
  · rintro ⟨hhigh, hlow⟩
    rw [hhigh, hlow]

/-- The urgent pointer is the same just when the two bytes that are read are equal. -/
theorem outcome_tcpUrg (h : Of f p) :
    Outcome f (do return .optional ((← tcpUrg).map (·.toNat)))
      (.optional (if hasFlag kURG p.tcp then some p.tcp.tcpurg.toUInt8.toNat else none))
      (f.tagged = false ∧ f.isTcp ∧ (f.flags &&& kURG ≠ 0 → u8 f.bytes (f.l4off + 16) = u8 f.bytes (f.l4off + 19))) := by
  refine outcome_tcpMember (g := fun o : Option UInt8 => Value.optional (o.map (·.toNat)))
    (fun ht => yields_whenFlag (yields_flagBit 5 ht)
      (((yields_shortAt (tcp_le (18 + 2) ht (by decide))).bind_pure ntohs).bind_pure UInt16.toUInt8)) fun ht => ?_
  have hview := h.tcpView
  rw [if_pos ht] at hview
  have hurg : p.tcp.tcpurg = (u8 f.bytes (f.l4off + 16)).toUInt32 := congrArg (fun v => v.2.2.2.1) hview
  have hflag : hasFlag kURG p.tcp = f.flags.toNat.testBit 5 := by
    have hflags := tcpflags_eq h
    rw [if_pos ht] at hflags
    unfold Packet.hasFlag
    rw [hflags]
    exact (flags_eq f.flags).2.2.2.2.2
  have hlow : (ntohs (u16 f.bytes (f.l4off + 18))).toUInt8 = u8 f.bytes (f.l4off + 19) := by
    have hnew : (ntohs (u16 f.bytes (f.l4off + 18))).toNat =
        (u8 f.bytes (f.l4off + 19)).toNat + 256 * (u8 f.bytes (f.l4off + 18)).toNat :=
      ntohs_u16_toNat (tcp_le (18 + 2) ht (by decide))
    have hlt := (u8 f.bytes (f.l4off + 19)).toNat_lt
    rw [← UInt8.toNat_inj, UInt16.toNat_toUInt8, hnew]
    omega
  rw [hflag, hurg, hlow, UInt8.toUInt8_toUInt32, ← decide_eq_true_iff (p := f.flags &&& kURG ≠ 0), (flags_eq f.flags).2.2.2.2.2]
  change Value.optional (Option.map _ (if f.flags.toNat.testBit 5 then _ else _)) = _ ↔ _
  cases f.flags.toNat.testBit 5 with
  | true => simp [UInt8.toNat_inj, eq_comm]
  | false => simp

/-- An accessor has one outcome for a frame, whatever was called before; this is when it is what `Packet` returns. -/
theorem call_outcome (h : Of f p) {a : Accessor} {new : Dissect Value} (hnew : call a = some new) (hl3 : a ≠ .l3Protocol) :
    Outcome f new (a.read (a.stage p)) (f.Agrees p.tcpflags a) := by
  have hip := h.ipView_ip
  obtain ⟨udplen, hports, hudplen⟩ := h.portsView
  have htcp := h.tcpView
  cases a with
  | tcpFlags => cases hnew
  | l3Protocol => exact absurd rfl hl3
  | iphdr =>
    cases hnew
    refine outcome_value (g := Value.pointer) yields_ipv4 ?_
    change _ = Value.pointer p.mac.iphdrPtr ↔ f.tagged = false
    rw [h.iphdrPtr]
    unfold Frame.header
    cases f.tagged <;> simp
  | l4hdr =>
    cases hnew
    refine outcome_value (g := Value.pointer) yields_l4hdr ?_
    change _ = Value.pointer p.ip.l4hdrPtr ↔ f.tagged = false
    rw [h.l4hdrPtr]
    cases f.tagged <;> simp
  | payload =>
    cases hnew
    refine outcome_value (g := Value.pointer) yields_payload ?_
    have hold : (payloadStage p).l4payloadPtr = some f.payloadOff := congrArg (fun v => v.1) h.payloadView
    have hip' := f.iphoff_le
    have hl4 := f.l4off_le
    have hne : f.iphoff ≠ f.payloadOff := by
      unfold sizeofIp4hdr at hip'
      omega
    change _ = Value.pointer (payloadStage p).l4payloadPtr ↔ f.tagged = false
    rw [hold]
    unfold Frame.header
    cases f.tagged <;> simp [hne]
  | payloadLen =>
    cases hnew
    exact outcome_payloadLen h
  | ipSrc =>
    cases hnew
    refine outcome_ipv4 (g := fun n : UInt32 => Value.number n.toNat) yields_saddr fun _ => ?_
    have hold : p.ip.key.src_ip4 = ntohl (u32 f.bytes (f.iphoff + 12)) := congrArg (fun v => v.2.1.1) hip
    rw [← u32_eq_ntohl_iff (ip_le (12 + 4) (by decide)), ← hold, ← UInt32.toNat_inj]
    exact Value.number.injEq _ _ ▸ Iff.rfl
  | ipDst =>
    cases hnew
    refine outcome_ipv4 (g := fun n : UInt32 => Value.number n.toNat) yields_daddr fun _ => ?_
    have hold : p.ip.key.dst_ip4 = ntohl (u32 f.bytes (f.iphoff + 16)) := congrArg (fun v => v.2.1.2.1) hip
    rw [← u32_eq_ntohl_iff (ip_le (16 + 4) (by decide)), ← hold, ← UInt32.toNat_inj]
    exact Value.number.injEq _ _ ▸ Iff.rfl
  | key =>
    cases hnew
    refine outcome_ipv4 (g := Value.key) yields_key fun _ => ?_
    rw [← key_eq_iff h]
    exact Value.key.injEq _ _ ▸ Iff.rfl
  | srcPort =>
    cases hnew
    have hold : p.ports.key.src_port = ntohs (u16 f.bytes f.l4off) := congrArg (fun v => v.1) hports
    exact outcome_port yields_source (congrArg (fun n : UInt16 => Value.number n.toNat) hold)
  | dstPort =>
    cases hnew
    have hold : p.ports.key.dst_port = ntohs (u16 f.bytes (f.l4off + 2)) := congrArg (fun v => v.2.1) hports
    exact outcome_port yields_dest (congrArg (fun n : UInt16 => Value.number n.toNat) hold)
  | l4Protocol =>
    cases hnew
    exact outcome_ipMember (g := fun n : UInt8 => Value.number n.toNat) yields_protocol
      (congrArg (fun n : UInt8 => Value.number n.toNat) h.proto)
  | isTcp =>
    cases hnew
    refine outcome_value (g := Value.bool) yields_isTcp ?_
    change _ = Value.bool (p.ip.key.proto = kTCP) ↔ ¬(f.tagged = true ∧ f.isTcp)
    rw [h.proto]
    by_cases ht : f.isTcp
    · have hproto : ipProto f.bytes f.iphoff = kTCP := ht
      cases f.tagged <;> simp [ht, hproto]
    · have hproto : ipProto f.bytes f.iphoff ≠ kTCP := ht
      cases f.tagged <;> simp [ht, hproto]
  | isUdp =>
    cases hnew
    refine outcome_value (g := Value.bool) yields_isUdp ?_
    change _ = Value.bool (p.ip.key.proto = kUDP) ↔ ¬(f.tagged = true ∧ ¬f.isTcp)
    rw [h.proto]
    by_cases ht : f.isTcp
    · have hproto : ipProto f.bytes f.iphoff ≠ kUDP := by
        rw [show ipProto f.bytes f.iphoff = kTCP from ht]
        decide
      cases f.tagged <;> simp [ht, hproto]
    · have hproto := f.isUdp ht
      cases f.tagged <;> simp [ht, hproto]
  | ipTos =>
    cases hnew
    have hold : p.ip.iptos = u8 f.bytes (f.iphoff + 1) := congrArg (fun v => v.2.2.1) hip
    have hread : Yields (Holds f (KeyOf f)) (tos f.iphoff) (.ok (u8 f.bytes (f.iphoff + 1))) := yields_byteAt (ip_le (1 + 1) (by decide))
    exact outcome_ipMember (g := fun n : UInt8 => Value.number n.toNat) hread
      (congrArg (fun n : UInt8 => Value.number n.toNat) hold)
  | ipTtl =>
    cases hnew
    have hold : p.ip.ipttl = u8 f.bytes (f.iphoff + 8) := congrArg (fun v => v.2.2.2.1) hip
    have hread : Yields (Holds f (KeyOf f)) (ttl f.iphoff) (.ok (u8 f.bytes (f.iphoff + 8))) := yields_byteAt (ip_le (8 + 1) (by decide))
    exact outcome_ipMember (g := fun n : UInt8 => Value.number n.toNat) hread
      (congrArg (fun n : UInt8 => Value.number n.toNat) hold)
  | ipLength =>
    cases hnew
    have hold : p.ip.iplen = ntohs (u16 f.bytes (f.iphoff + 2)) := congrArg (fun v => v.2.2.2.2.1) hip
    exact outcome_ipMember (g := fun n : UInt16 => Value.number n.toNat) yields_totLen
      (congrArg (fun n : UInt16 => Value.number n.toNat) hold)
  | ipHeaderLength =>
    cases hnew
    have hold : p.ip.iphlen = decodeHlv (u8 f.bytes f.iphoff) := congrArg (fun v => v.2.2.2.2.2) hip
    refine outcome_ipMember (g := fun n : Nat => Value.number (n * 4)) yields_ihl ?_
    change Value.number p.ip.iphlen.toNat = _
    rw [hold, ipHeaderLength_eq]
    rfl
  | tcpHasFin =>
    cases hnew
    exact outcome_flag h fun b => (flags_eq b).1
  | tcpHasSyn =>
    cases hnew
    exact outcome_flag h fun b => (flags_eq b).2.1
  | tcpHasRst =>
    cases hnew
    exact outcome_flag h fun b => (flags_eq b).2.2.1
  | tcpHasPsh =>
    cases hnew
    exact outcome_flag h fun b => (flags_eq b).2.2.2.1
  | tcpHasAck =>
    cases hnew
    exact outcome_flag h fun b => (flags_eq b).2.2.2.2.1
  | tcpUrg =>
    cases hnew
    exact outcome_tcpUrg h
  | tcpWin =>
    cases hnew
    exact outcome_tcpWin h
  | udpLength =>
    cases hnew
    refine outcome_udpMember (g := fun n : UInt16 => Value.number n.toNat) ((yields_shortAt (l4_le (4 + 2) (by decide))).bind_pure ntohs)
      fun ht => ?_
    have hold : p.ports.udplen = udplen := congrArg (fun v => v.2.2) hports
    change Value.number p.ports.udplen.toNat = _
    rw [hold, hudplen ht]
  | tcpAck =>
    cases hnew
    refine outcome_tcpSame (g := fun o : Option UInt32 => Value.optional (o.map (·.toNat)))
      (fun ht => yields_whenFlag (yields_flagBit 4 ht) ((yields_longAt (tcp_le (8 + 4) ht (by decide))).bind_pure ntohl)) fun ht => ?_
    rw [if_pos ht] at htcp
    have hold : p.tcp.tcpack = ntohl (u32 f.bytes (f.l4off + 8)) := congrArg (fun v => v.2.2.1) htcp
    have hflag : hasFlag kACK p.tcp = (u8 f.bytes (f.l4off + 13)).toNat.testBit 4 := by
      unfold Packet.hasFlag
      rw [tcpflags_eq h, if_pos ht]
      exact (flags_eq f.flags).2.2.2.2.1
    change Value.optional (if hasFlag kACK p.tcp then some p.tcp.tcpack.toNat else none) = _
    rw [hflag, hold]
    cases (u8 f.bytes (f.l4off + 13)).toNat.testBit 4 <;> rfl
  | tcpSeq =>
    cases hnew
    refine outcome_tcpSame (g := fun n : UInt32 => Value.number n.toNat)
      (fun ht => (yields_longAt (tcp_le (4 + 4) ht (by decide))).bind_pure ntohl) fun ht => ?_
    rw [if_pos ht] at htcp
    have hold : p.tcp.tcpseq = ntohl (u32 f.bytes (f.l4off + 4)) := congrArg (fun v => v.2.1) htcp
    exact congrArg (fun n : UInt32 => Value.number n.toNat) hold
  | tcpHeaderLength =>
    cases hnew
    refine outcome_tcpSame (g := fun n : Nat => Value.number (n * 4)) yields_doff fun ht => ?_
    rw [if_pos ht] at htcp
    have hold : p.tcp.tcphlen = decodePayoff (u8 f.bytes (f.l4off + 12)) := congrArg (fun v => v.2.2.2.2.2) htcp
    change Value.number p.tcp.tcphlen.toNat = _
    rw [hold, tcpHeaderLength_eq]
    rfl

/-- A call of an accessor that `NewPacket` has. -/
def attempt (a : Accessor) : Dissect Unit :=
  match call a with
  | none => return
  | some new => do let _ ← new

/-- An attempt leaves what was known of the packet. -/
theorem holds_attempt (f : Frame) {q : NewPacket} (hq : Holds f (KeyOf f) q) (a : Accessor) :
    Holds f (KeyOf f) (leaves ((attempt a).run q)) := by
  unfold attempt
  cases hcall : call a with
  | none => exact hq
  | some new =>
    have hyields : ∃ r, Yields (Holds f (KeyOf f)) new r := by
      by_cases hl3 : a = .l3Protocol
      · rw [hl3] at hcall
        cases hcall
        exact ⟨_, yields_l3Protocol.bind_pure fun type => Value.number type.toNat⟩
      · obtain ⟨r, hr, -⟩ := call_outcome (Packet.of_new f Packet.zeroed) hcall hl3
        exact ⟨r, hr⟩
    obtain ⟨r, hr⟩ := hyields
    exact (hr.map fun _ => ()).leaves hq

end NewPacket

open Blockmon.Messages.NewPacket in
/-- On a well-formed frame an accessor of `Packet` and the one of a `NewPacket` built by `SimplePacket` return the same value exactly when
the condition for this accessor holds, whatever accessors were called before on the one and, with exceptions caught, on the other. -/
theorem packets_agree_iff (f : Frame) (oldMemory : Packet) {memory : List UInt8} (hmemory : f.bytes.length ≤ memory.length)
    (as bs : List Accessor) {a : Accessor} {new : Dissect Value} (hnew : call a = some new) (hl3 : a ≠ .l3Protocol) :
    (∃ v p q, (do callAll as; a.call : Parse Value).run (Packet.new oldMemory f.toConstBuffer kEthernet) = .ok v p ∧
        new.run (runCalls attempt (simplePacket memory f.bytes) bs) = .ok v q) ↔
      f.Agrees oldMemory.tcpflags a := by
  have hold := Packet.of_new f oldMemory
  obtain ⟨p, hp⟩ := hold.fresh.run_last as hl3
  obtain ⟨r, hr, hagrees⟩ := call_outcome hold hnew hl3
  have hattempt : ∀ q b, Holds f (KeyOf f) q → Holds f (KeyOf f) (leaves ((attempt b).run q)) := fun q b hq => holds_attempt f hq b
  have hstate : Holds f (KeyOf f) (runCalls attempt (simplePacket memory f.bytes) bs) :=
    runCalls_inv hattempt (holds_simplePacket f hmemory) bs
  have hvalue := hr.run_eq_ok_iff hstate (a.read (a.stage (Packet.new oldMemory f.toConstBuffer kEthernet)))
  refine Iff.trans ?_ (hvalue.trans hagrees)
  constructor
  · rintro ⟨v, p', q, hv, hq⟩
    have hsame := (EStateM.Result.ok.inj (hp.symm.trans hv)).1
    rw [hsame]
    exact ⟨q, hq⟩
  · rintro ⟨q, hq⟩
    exact ⟨_, p, q, hp, hq⟩

/-- A TCP packet with the flag `SYN` and without data, from 10.0.0.1 to 10.0.0.2. -/
def synFrame : Frame where
  bytes := List.replicate 12 0 ++ [8, 0] ++ ipHeader 40 kTCP ++ [0x30, 0x39, 0, 80, 0, 0, 0, 7, 0, 0, 0, 0, 0x50, 2, 0x20, 0, 0, 0, 0, 0]
  length_lt := by decide
  tagged := false
  iphoff := 14
  iphoff_eq := rfl
  tag := by decide
  type := by decide
  ihl_ge := by decide
  proto := by decide
  doff_ge := by decide
  headers_le := by decide
  captured := by decide

open Blockmon.Messages.NewPacket in
/-- The sequence number of a packet whose key has been looked at. -/
theorem packets_agree_iff_syn :
    (∃ v p q, (do callAll [.key]; Accessor.tcpSeq.call : Parse Value).run (Packet.new Packet.zeroed synFrame.toConstBuffer kEthernet) = .ok v p ∧
        (do return .number (← member tcp seq).toNat : Dissect Value).run
          (runCalls attempt (simplePacket (List.replicate 64 0) synFrame.bytes) [.key]) = .ok v q) ↔
      synFrame.tagged = false ∧ synFrame.isTcp :=
  packets_agree_iff synFrame Packet.zeroed (by decide) [.key] [.key] (a := .tcpSeq) rfl (by decide)

open Blockmon.Messages.NewPacket in
/-- The source address, in the byte order of the host and in that of the network. -/
theorem packets_differ_in_addresses :
    ∃ p q, Accessor.ipSrc.call.run (Packet.new Packet.zeroed synFrame.toConstBuffer kEthernet) = .ok (.number 0x0a000001) p ∧
      call .ipSrc = some (do return .number (← member ipv4 saddr).toNat) ∧
      (do return .number (← member ipv4 saddr).toNat : Dissect Value).run (simplePacket (List.replicate 64 0) synFrame.bytes) =
        .ok (.number 0x0100000a) q :=
  ⟨_, _, rfl, rfl, rfl⟩

end Blockmon.Messages
