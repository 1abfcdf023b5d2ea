import Blockmon.Lemmas.Filter
import Blockmon.Lemmas.PacketFields

/-!
# What the packet filter selects

The packets for which all the conditions of the configuration hold, each negated where it says so, are sent out once, and the others are not.
-/

namespace Blockmon.Filtering

open Blockmon.Messages (Parse Fields HeadersAt fieldsAt Accessor ConstBuffer kEthernet kRawIP callAll)
open Blockmon.Messages.Packet (kTCP kUDP kPktTypeIP4)
open Exn

namespace PacketFilter

open Filtering.Filter

/-! ## What the documentation says -/

/-- The ports of a node: its numbers, or the one of the old specification. -/
def portsOf (T : Texts) (c : XmlNode) : List UInt32 :=
  if c.named "number" = [] then [number T c "number"] else (c.named "number").map fun nodeNumber => number T nodeNumber "value"

/-- All the conditions hold. -/
structure Selected (T : Texts) (n : XmlNode) (fields : Fields) : Prop where
  l3Protocol : Holds n "l3_protocol" fun c => (number T c "number").toNat = fields.l3Protocol.toNat
  ipSrc : Holds n "ip_src" (InNet T fields.ipSrc)
  ipDst : Holds n "ip_dst" (InNet T fields.ipDst)
  l4Protocol : Holds n "l4_protocol" fun c => (number T c "number").toNat = fields.l4Protocol.toNat
  srcPort : Holds n "src_port" fun c => ∃ port ∈ portsOf T c, port.toNat = fields.srcPort.toNat
  dstPort : Holds n "dst_port" fun c => ∃ port ∈ portsOf T c, port.toNat = fields.dstPort.toNat

/-- The numbers are no larger than their fields. -/
structure InWidth (T : Texts) (n : XmlNode) : Prop where
  l3Protocol : ∀ c, n.child "l3_protocol" = some c → (number T c "number").toNat < 2 ^ 16
  l4Protocol : ∀ c, n.child "l4_protocol" = some c → (number T c "number").toNat < 2 ^ 8
  srcPort : ∀ c, n.child "src_port" = some c → ∀ port ∈ portsOf T c, port.toNat < 2 ^ 16
  dstPort : ∀ c, n.child "dst_port" = some c → ∀ port ∈ portsOf T c, port.toNat < 2 ^ 16

/-! ## The configuration -/

section Configuration

variable {T : Texts} {c n : XmlNode} {name : String}

/-- The ports of a list of nodes. -/
theorem mapM_numbers {nodes : List XmlNode} {ports : List UInt16}
    (h : (nodes.mapM fun nodeNumber => do .ok (T.asUint (← require nodeNumber "value" name)).toUInt16 : Except String (List UInt16)) = .ok ports) :
    ports = nodes.map fun nodeNumber => (number T nodeNumber "value").toUInt16 := by
  induction nodes generalizing ports with
  | nil =>
    cases h
    rfl
  | cons node nodes ih =>
    rw [List.mapM_cons] at h
    obtain ⟨port, hport, h⟩ := except_bind_eq_ok.mp h
    obtain ⟨rest, hrest, h⟩ := except_bind_eq_ok.mp h
    obtain ⟨s, hs, hport⟩ := except_bind_eq_ok.mp hport
    cases h
    cases hport
    rw [ih hrest, List.map_cons, number, require_eq_ok hs]
    rfl

/-- The ports of a part of the configuration, cut to 16 bits. -/
theorem readPorts_eq_ok {ports : List UInt16} (h : readPorts T [] name c = .ok ports) : ports = (portsOf T c).map UInt32.toUInt16 := by
  obtain ⟨numbers, hnumbers, h⟩ := except_bind_eq_ok.mp h
  have hmapped := mapM_numbers hnumbers
  rw [List.nil_append] at h
  rw [portsOf]
  cases hnodes : c.named "number" with
  | nil =>
    rw [hnodes, List.map_nil] at hmapped
    rw [hmapped, if_pos (by rfl)] at h
    obtain ⟨s, hs, h⟩ := except_bind_eq_ok.mp h
    cases h
    rw [if_pos rfl, number, require_eq_ok hs]
    rfl
  | cons node nodes =>
    rw [hnodes, List.map_cons] at hmapped
    rw [hmapped, if_neg (by rw [List.isEmpty_cons]; decide)] at h
    cases h
    rw [if_neg (by simp), List.map_map, List.map_cons]
    rfl

/-- What the configuration of a new filter sets. -/
structure Read (T : Texts) (n : XmlNode) (f : PacketFilter) : Prop where
  ipSrc : Configured n "ip_src" f.ipSrcMode fun c => readAddress T "ip_src" c = .ok f.ipSrc
  ipDst : Configured n "ip_dst" f.ipDstMode fun c => readAddress T "ip_dst" c = .ok f.ipDst
  layer4 : Configured n "l4_protocol" f.layer4Mode fun c => readNumber T "l4_protocol" c = .ok f.layer4Proto
  layer3 : Configured n "l3_protocol" f.layer3Mode fun c => readNumber T "l3_protocol" c = .ok f.layer3Proto
  srcPorts : Configured n "src_port" f.srcPortMode fun c => readPorts T [] "src_port" c = .ok f.srcPorts
  dstPorts : Configured n "dst_port" f.dstPortMode fun c => readPorts T [] "dst_port" c = .ok f.dstPorts

/-- What `_configure` reads. -/
theorem read_configure {f : PacketFilter} (h : configure T n new = .ok f) : Read T n f := by
  obtain ⟨base, hbase, h⟩ := except_bind_eq_ok.mp h
  obtain ⟨⟨layer3Mode, layer3Proto⟩, hl3, h⟩ := except_bind_eq_ok.mp h
  obtain ⟨⟨srcPortMode, srcPorts⟩, hsrc, h⟩ := except_bind_eq_ok.mp h
  obtain ⟨⟨dstPortMode, dstPorts⟩, hdst, h⟩ := except_bind_eq_ok.mp h
  have hread := Filter.read_configure hbase
  rw [hread.srcPortMode] at hsrc
  rw [hread.dstPortMode] at hdst
  cases h
  exact ⟨hread.ipSrc, hread.ipDst, hread.layer4, configured_parseField hl3, configured_parseField hsrc, configured_parseField hdst⟩

end Configuration

/-! ## The verdicts -/

/-- A search for a port, in both modes. -/
theorem searchPort_eq (isModeDiscard : Bool) (port : UInt16) (ports : List UInt16) :
    searchPort isModeDiscard port ports = if port ∈ ports then !isModeDiscard else isModeDiscard := by
  induction ports with
  | nil => rfl
  | cons p ports ih =>
    rw [searchPort, ih]
    by_cases hp : p = port
    · rw [if_pos hp, if_pos (by simp [hp])]
    · have hmem : port ∈ p :: ports ↔ port ∈ ports := by simp [Ne.symm hp]
      simp only [if_neg hp, hmem]

/-- The search through the list is the test of a field. -/
theorem goAhead_eq (mode : UInt8) (ports : List UInt16) (port : UInt16) : goAhead mode ports port = passes mode (decide (port ∈ ports)) := by
  rw [goAhead, searchPort_eq, passes, Filter.goAhead]
  cases isIndirect mode with
  | false => rfl
  | true =>
    by_cases hout : mode &&& (1 <<< FILTER_OUT) = 0
    · by_cases hmem : port ∈ ports <;> simp [hout, hmem]
    · by_cases hmem : port ∈ ports <;> simp [hout, hmem]

section Verdicts

variable {T : Texts} {n : XmlNode} {f : PacketFilter} {fields : Fields}

/-- A number that fits is not changed by the cut. -/
theorem toUInt16_eq_iff {v : UInt32} (hv : v.toNat < 2 ^ 16) (w : UInt16) : v.toUInt16 = w ↔ v.toNat = w.toNat := by
  rw [← UInt16.toNat_inj, UInt32.toNat_toUInt16, Nat.mod_eq_of_lt hv]

/-- A port is found just when it is configured, as long as the configured ones fit. -/
theorem mem_ports_iff {c : XmlNode} {name : String} {ports : List UInt16} (h : readPorts T [] name c = .ok ports)
    (hwidth : ∀ port ∈ portsOf T c, port.toNat < 2 ^ 16) (port : UInt16) :
    decide (port ∈ ports) = true ↔ ∃ v ∈ portsOf T c, v.toNat = port.toNat := by
  rw [decide_eq_true_iff, readPorts_eq_ok h, List.mem_map]
  constructor
  · rintro ⟨v, hv, heq⟩
    exact ⟨v, hv, (toUInt16_eq_iff (hwidth v hv) port).mp heq⟩
  · rintro ⟨v, hv, heq⟩
    exact ⟨v, hv, (toUInt16_eq_iff (hwidth v hv) port).mpr heq⟩

/-- What is sent, from the verdicts on the fields in the order of the code. -/
def sentOf {τ : Type} (f : PacketFilter) (fields : Fields) (m : τ) : List τ :=
  if passes f.layer3Mode (f.layer3Proto = fields.l3Protocol) then
    if passes f.ipSrcMode (matchesAddress f.ipSrc fields.ipSrc) then
      if passes f.ipDstMode (matchesAddress f.ipDst fields.ipDst) then
        if passes f.layer4Mode (f.layer4Proto = fields.l4Protocol.toUInt16) then
          if passes f.srcPortMode (decide (fields.srcPort ∈ f.srcPorts)) then
            if passes f.dstPortMode (decide (fields.dstPort ∈ f.dstPorts)) then [m] else []
          else []
        else []
      else []
    else []
  else []

/-- A packet is sent just when it is selected. -/
theorem sentOf_eq (hread : Read T n f) (hwidth : InWidth T n) {τ : Type} (m : τ) :
    (Selected T n fields → sentOf f fields m = [m]) ∧ (¬Selected T n fields → sentOf f fields m = []) := by
  have hl3 : passes f.layer3Mode (decide (f.layer3Proto = fields.l3Protocol)) = true ↔
      Holds n "l3_protocol" fun c => (number T c "number").toNat = fields.l3Protocol.toNat := by
    apply passes_iff hread.layer3
    intro c hc hK
    rw [number_iff hK, toUInt16_eq_iff (hwidth.l3Protocol c hc)]
  have hl4 : passes f.layer4Mode (decide (f.layer4Proto = fields.l4Protocol.toUInt16)) = true ↔
      Holds n "l4_protocol" fun c => (number T c "number").toNat = fields.l4Protocol.toNat := by
    apply passes_iff hread.layer4
    intro c hc hK
    rw [number_iff hK, toUInt16_eq_iff ((hwidth.l4Protocol c hc).trans (by decide)), UInt8.toNat_toUInt16]
  have hsrc := passes_iff hread.ipSrc fun c _ hK => matchesAddress_iff hK fields.ipSrc
  have hdst := passes_iff hread.ipDst fun c _ hK => matchesAddress_iff hK fields.ipDst
  have hsrcPort := passes_iff hread.srcPorts fun c hc hK => mem_ports_iff hK (hwidth.srcPort c hc) fields.srcPort
  have hdstPort := passes_iff hread.dstPorts fun c hc hK => mem_ports_iff hK (hwidth.dstPort c hc) fields.dstPort
  rw [sentOf]
  refine ⟨fun h => ?_, fun h => ?_⟩
  · rw [if_pos (hl3.mpr h.l3Protocol), if_pos (hsrc.mpr h.ipSrc), if_pos (hdst.mpr h.ipDst), if_pos (hl4.mpr h.l4Protocol),
      if_pos (hsrcPort.mpr h.srcPort), if_pos (hdstPort.mpr h.dstPort)]
  · by_contra hsent
    simp only [ite_eq_right_iff, Classical.not_imp] at hsent
    obtain ⟨h3, hs, hd, h4, hsp, hdp, -⟩ := hsent
    exact h ⟨hl3.mp h3, hsrc.mp hs, hdst.mp hd, hl4.mp h4, hsrcPort.mp hsp, hdstPort.mp hdp⟩

end Verdicts

/-! ## Receiving -/

section Receiving

variable {I : Messages.Packet → Prop} {τ : Type}

/-- A test of a packet, with its mode. -/
theorem yields_check {test : Parse Bool} {b : Bool} (mode : UInt8) (h : Yields I test (.ok b)) :
    Yields I (check mode test) (.ok (passes mode b)) := by
  rw [check, passes]
  cases isIndirect mode with
  | false => exact yields_pure true
  | true => exact h.bind_pure fun b => Filter.goAhead b mode

/-- A field that does not pass ends the filtering. -/
theorem yields_branch {x : Parse Bool} {b : Bool} {rest : Parse (List τ)} {sent : List τ} (hx : Yields I x (.ok b))
    (hrest : Yields I rest (.ok sent)) : Yields I (do if !(← x) then return [] else rest) (.ok (if b then sent else [])) := by
  refine hx.bind ?_
  cases b with
  | false => exact yields_pure []
  | true => exact hrest

variable {p : Messages.Packet} {iphoff k : Nat}

/-- The block on a packet in any stage. -/
theorem yields_receiveMsg (h : p.Fresh) (hmac : p.mactype = kEthernet ∨ p.mactype = kRawIP)
    (hheaders : HeadersAt p.mactype p.buffer.bytes iphoff k) (f : PacketFilter) (m : τ) :
    Yields (Messages.Packet.Stage p) (f.receiveMsg m) (.ok (sentOf f (fieldsAt p.buffer.bytes iphoff) m)) := by
  have hports : Yields (Messages.Packet.Stage p) (f.receivePorts m)
      (.ok (if passes f.srcPortMode (decide ((fieldsAt p.buffer.bytes iphoff).srcPort ∈ f.srcPorts)) then
        if passes f.dstPortMode (decide ((fieldsAt p.buffer.bytes iphoff).dstPort ∈ f.dstPorts)) then [m] else [] else [])) := by
    refine (Messages.Packet.yields_srcPort h hmac hheaders).bind ?_
    rw [goAhead_eq]
    refine yields_branch (yields_pure _) ((Messages.Packet.yields_dstPort h hmac hheaders).bind ?_)
    rw [goAhead_eq]
    exact yields_branch (yields_pure _) (yields_pure [m])
  refine yields_branch (yields_check _ ((Messages.Packet.yields_l3Protocol h hmac hheaders).bind_pure _)) ?_
  refine (Messages.Packet.yields_l3Protocol h hmac hheaders).bind ?_
  rw [if_neg (by exact not_not_intro rfl)]
  refine yields_branch (yields_check _ ((Messages.Packet.yields_ipSrc h hmac hheaders).bind_pure _)) ?_
  refine yields_branch (yields_check _ ((Messages.Packet.yields_ipDst h hmac hheaders).bind_pure _)) ?_
  refine yields_branch (yields_check _ ((Messages.Packet.yields_l4Protocol h hmac hheaders).bind_pure _)) ?_
  refine (Messages.Packet.yields_isUdp h hmac hheaders).bind ?_
  rcases hheaders.l4 with ⟨ht, -⟩ | ⟨hu, -⟩
  · have ht' : (fieldsAt p.buffer.bytes iphoff).l4Protocol = kTCP := ht
    rw [if_neg (by rw [ht']; decide)]
    refine (Messages.Packet.yields_isTcp h hmac hheaders).bind ?_
    rw [if_pos (by rw [ht']; decide)]
    exact hports
  · have hu' : (fieldsAt p.buffer.bytes iphoff).l4Protocol = kUDP := hu
    rw [if_pos (by rw [hu']; decide)]
    exact hports

end Receiving

end PacketFilter

open PacketFilter

/-- For every configuration that is accepted and every packet with its headers, after any accessors: the packet is sent just when it is selected.
-/
theorem packetFilter_selects {τ : Type} (T : Texts) {n : XmlNode} {f : PacketFilter} (hconf : configure T n new = .ok f) (hwidth : InWidth T n)
    (memory : Messages.Packet) (buffer : ConstBuffer) {macType : Int} (hmac : macType = kEthernet ∨ macType = kRawIP) {iphoff k : Nat}
    (hheaders : HeadersAt macType buffer.bytes iphoff k) (as : List Accessor) (m : τ) :
    ∃ s p sent, (callAll as).run (Messages.Packet.new memory buffer macType) = .ok () s ∧ (f.receiveMsg m).run s = .ok sent p ∧
      (Selected T n (fieldsAt buffer.bytes iphoff) → sent = [m]) ∧ (¬Selected T n (fieldsAt buffer.bytes iphoff) → sent = []) := by
  have hfresh := Messages.Packet.fresh_new memory buffer macType
  obtain ⟨s, hrun, hs⟩ := hfresh.run_callAll Messages.Packet.Stage.fresh as
  obtain ⟨p, -, hreceive⟩ := yields_receiveMsg hfresh hmac hheaders f m s hs
  exact ⟨s, p, _, hrun, hreceive, sentOf_eq (read_configure hconf) hwidth m⟩

/-- The numbers 6 and 80. -/
def twoNumbers : Texts where
  asUint s := if s = "6" then 6 else if s = "80" then 80 else 0
  inetPton _ := none

/-- TCP, but not to port 80. -/
def tcpNotWeb : XmlNode :=
  .element "params" [] [
    .element "l4_protocol" [("number", "6")] [.element "filter_mode" [("behavior", "accept")] []],
    .element "dst_port" [] [.element "number" [("value", "80")] [], .element "filter_mode" [("behavior", "discard")] []]]

/-- A TCP header from port 4660 to port 80. -/
def toWeb : ConstBuffer :=
  ⟨Messages.ipHeader 40 kTCP ++ [0x12, 0x34, 0, 80, 0, 0, 0, 1, 0, 0, 0, 0, 0x50, 0x02, 0, 0, 0, 0, 0, 0], by decide⟩

/-- A packet to a web server is not sent, though it is TCP. -/
theorem packetFilter_selects_tcpNotWeb : ∃ f s p, configure twoNumbers tcpNotWeb new = .ok f ∧
    (callAll [.payload]).run (Messages.Packet.new Messages.Packet.zeroed toWeb kRawIP) = .ok () s ∧ (f.receiveMsg "syn").run s = .ok [] p := by
  have hports : portsOf twoNumbers (.element "dst_port" []
      [.element "number" [("value", "80")] [], .element "filter_mode" [("behavior", "discard")] []]) = [80] := rfl
  have hwidth : InWidth twoNumbers tcpNotWeb := by
    refine ⟨fun c hc => ?_, fun c hc => ?_, fun c hc => ?_, fun c hc => ?_⟩ <;> cases hc
    · decide
    · rw [hports]
      simp
  have hheaders : HeadersAt kRawIP toWeb.bytes 0 20 := by
    refine ⟨Or.inl ⟨rfl, rfl⟩, ?_, Or.inl ⟨?_, ?_, ?_⟩, ?_⟩ <;> decide
  obtain ⟨s, p, sent, hrun, hreceive, -, hnot⟩ := packetFilter_selects twoNumbers (n := tcpNotWeb) rfl hwidth Messages.Packet.zeroed toWeb
    (Or.inr rfl) hheaders [.payload] "syn"
  refine ⟨_, s, p, rfl, hrun, ?_⟩
  rw [hreceive, hnot]
  intro h
  have hport := (h.dstPort _ rfl).mp ⟨80, by rw [hports]; exact List.mem_cons_self, by decide⟩
  exact hport rfl

end Blockmon.Filtering
