import Blockmon.FlowFilter
import Blockmon.Lemmas.Filter

/-!
# What the flow filter sends

A TCP or UDP flow is sent once if all its conditions hold, and else not. Any other flow that passes is sent before the ports are looked at, and
then once more, or an empty message in its place, unless a condition on the ports happens to stop that.
-/

namespace Blockmon.Filtering

open Blockmon.Messages.Packet (kTCP kUDP)
open Exn (except_bind_eq_ok except_bind_of_ok)

namespace FlowFilter

open Filtering.Filter

/-- Conditions on ports are about these flows. -/
def HasPorts (k : FlowKey) : Prop := k.proto = kTCP ∨ k.proto = kUDP

/-- The conditions that every flow has. -/
structure IpSelected (T : Texts) (n : XmlNode) (k : FlowKey) : Prop where
  ipSrc : Holds n "ip_src" (InNet T k.src_ip4)
  ipDst : Holds n "ip_dst" (InNet T k.dst_ip4)
  l4Protocol : Holds n "l4_protocol" fun c => (number T c "number").toUInt16 = k.proto.toUInt16

/-- The ports that the configuration selects. -/
structure PortsSelected (T : Texts) (n : XmlNode) (k : FlowKey) : Prop where
  srcPort : Holds n "src_port" fun c => (number T c "number").toUInt16 = k.src_port
  dstPort : Holds n "dst_port" fun c => (number T c "number").toUInt16 = k.dst_port

/-- All the conditions that apply hold. -/
def Selected (T : Texts) (n : XmlNode) (k : FlowKey) : Prop := IpSelected T n k ∧ (HasPorts k → PortsSelected T n k)

/-- The flow goes out once if it is selected and else not, and nothing empty goes out. -/
structure Emits (T : Texts) (n : XmlNode) (flow : Flow) (result : Except FlowFilterFault (List (Option Flow))) : Prop where
  selected : Selected T n flow.key → result = .ok [some flow]
  dropped : ¬Selected T n flow.key → result = .ok []
  nonempty : ∀ sent, result = .ok sent → none ∉ sent

/-! ## The configuration -/

/-- What the configuration of a new filter sets. -/
structure Read (T : Texts) (n : XmlNode) (f : FlowFilter) : Prop where
  ipSrc : Configured n "ip_src" f.ipSrcMode fun c => readAddress T "ip_src" c = .ok f.ipSrc
  ipDst : Configured n "ip_dst" f.ipDstMode fun c => readAddress T "ip_dst" c = .ok f.ipDst
  layer4 : Configured n "l4_protocol" f.layer4Mode fun c => readNumber T "l4_protocol" c = .ok f.layer4Proto
  srcPort : Configured n "src_port" f.srcPortMode fun c => readNumber T "src_port" c = .ok f.srcPort
  dstPort : Configured n "dst_port" f.dstPortMode fun c => readNumber T "dst_port" c = .ok f.dstPort

section Receiving

variable {T : Texts} {n : XmlNode} {f : FlowFilter}

/-- What `_configure` reads. -/
theorem read_configure (h : configure T n new = .ok f) : Read T n f := by
  obtain ⟨base, hbase, h⟩ := except_bind_eq_ok.mp h
  obtain ⟨⟨srcPortMode, srcPort⟩, hsrc, h⟩ := except_bind_eq_ok.mp h
  obtain ⟨⟨dstPortMode, dstPort⟩, hdst, h⟩ := except_bind_eq_ok.mp h
  have hread := Filter.read_configure hbase
  rw [hread.srcPortMode] at hsrc
  rw [hread.dstPortMode] at hdst
  cases h
  exact ⟨hread.ipSrc, hread.ipDst, hread.layer4, configured_parseField hsrc, configured_parseField hdst⟩

/-! ## Receiving -/

/-- A flow is passed on by the mode and the test. -/
theorem check_some (mode : UInt8) (flow : Flow) (test : FlowKey → Bool) : check mode (some flow) test = .ok (passes mode (test flow.key)) := by
  rw [check, passes]
  cases isIndirect mode <;> rfl

/-- Without a message to look at, only a field that is not configured passes. -/
theorem check_none (mode : UInt8) (test : FlowKey → Bool) : check mode none test = if isIndirect mode then .error .dangling else .ok true := by
  rw [check]
  cases isIndirect mode <;> rfl

/-- The ports, while there is a message to look at. -/
theorem receivePorts_some (hread : Read T n f) (m : Option Flow) (flow : Flow) :
    (PortsSelected T n flow.key → f.receivePorts m (some flow) = .ok [m]) ∧
      (¬PortsSelected T n flow.key → f.receivePorts m (some flow) = .ok []) := by
  have hsrc := passes_iff hread.srcPort fun c _ hK => number_iff hK flow.key.src_port
  have hdst := passes_iff hread.dstPort fun c _ hK => number_iff hK flow.key.dst_port
  rw [receivePorts, check_some, check_some, except_bind_of_ok rfl]
  refine ⟨fun h => ?_, fun h => ?_⟩
  · rw [hsrc.mpr h.srcPort, if_neg (by decide), except_bind_of_ok rfl, hdst.mpr h.dstPort, if_neg (by decide)]
  · cases hs : passes f.srcPortMode (decide (f.srcPort = flow.key.src_port)) with
    | false => rfl
    | true =>
      cases hd : passes f.dstPortMode (decide (f.dstPort = flow.key.dst_port)) with
      | false => rfl
      | true => exact absurd ⟨hsrc.mp hs, hdst.mp hd⟩ h

/-- Without one, the code goes on to send or reads what is gone. -/
theorem receivePorts_none (f : FlowFilter) (m : Option Flow) : f.receivePorts m none = .ok [m] ∨ f.receivePorts m none = .error .dangling := by
  rw [receivePorts, check_none, check_none]
  cases isIndirect f.srcPortMode with
  | true => exact Or.inr rfl
  | false =>
    cases isIndirect f.dstPortMode with
    | true => exact Or.inr rfl
    | false => exact Or.inl rfl

/-- The conditions before the ports. -/
theorem receiveMsg_eq (hread : Read T n f) (fate : Fate) (flow : Flow) :
    (¬IpSelected T n flow.key → receiveMsg fate f flow = .ok []) ∧
      (IpSelected T n flow.key → HasPorts flow.key → receiveMsg fate f flow = f.receivePorts (some flow) (some flow)) ∧
      (IpSelected T n flow.key → ¬HasPorts flow.key → receiveMsg fate f flow =
        (f.receivePorts (pointerAfter fate flow) (flowAfter fate flow)).map fun rest => some flow :: rest) := by
  have hsrc := passes_iff hread.ipSrc fun c _ hK => matchesAddress_iff hK flow.key.src_ip4
  have hdst := passes_iff hread.ipDst fun c _ hK => matchesAddress_iff hK flow.key.dst_ip4
  have hl4 := passes_iff hread.layer4 fun c _ hK => number_iff hK flow.key.proto.toUInt16
  rw [receiveMsg, check_some, check_some, check_some, except_bind_of_ok rfl]
  refine ⟨fun h => ?_, fun h hports => ?_, fun h hports => ?_⟩
  · cases hs : passes f.ipSrcMode (matchesAddress f.ipSrc flow.key.src_ip4) with
    | false => rfl
    | true =>
      cases hd : passes f.ipDstMode (matchesAddress f.ipDst flow.key.dst_ip4) with
      | false => rfl
      | true =>
        cases h4 : passes f.layer4Mode (decide (f.layer4Proto = flow.key.proto.toUInt16)) with
        | false => rfl
        | true => exact absurd ⟨hsrc.mp hs, hdst.mp hd, hl4.mp h4⟩ h
  · have hproto : ¬(flow.key.proto ≠ kUDP ∧ flow.key.proto ≠ kTCP) := by
      rintro ⟨hudp, htcp⟩
      exact hports.elim htcp hudp
    rw [hsrc.mpr h.ipSrc, hdst.mpr h.ipDst, hl4.mpr h.l4Protocol]
    exact if_neg hproto
  · have hproto : flow.key.proto ≠ kUDP ∧ flow.key.proto ≠ kTCP := ⟨fun hu => hports (Or.inr hu), fun ht => hports (Or.inl ht)⟩
    rw [hsrc.mpr h.ipSrc, hdst.mpr h.ipDst, hl4.mpr h.l4Protocol]
    refine Eq.trans (if_pos hproto) ?_
    cases f.receivePorts (pointerAfter fate flow) (flowAfter fate flow) <;> rfl

/-- Nothing more is sent if the message is still there and a condition on its ports stops it. -/
theorem receivePorts_after_iff (hread : Read T n f) (fate : Fate) (flow : Flow) :
    f.receivePorts (pointerAfter fate flow) (flowAfter fate flow) = .ok [] ↔ fate ≠ .gone ∧ ¬PortsSelected T n flow.key := by
  rw [flowAfter]
  by_cases hgone : fate = .gone
  · rw [if_pos hgone]
    refine ⟨fun h => ?_, fun h => absurd hgone h.1⟩
    rcases receivePorts_none f (pointerAfter fate flow) with hnone | hnone
    · rw [hnone] at h
      cases h
    · rw [hnone] at h
      cases h
  · obtain ⟨hsent, hstopped⟩ := receivePorts_some hread (pointerAfter fate flow) flow
    rw [if_neg hgone]
    refine ⟨fun h => ⟨hgone, fun hsel => ?_⟩, fun h => hstopped h.2⟩
    rw [hsent hsel] at h
    cases h

variable {flow : Flow} {result : Except FlowFilterFault (List (Option Flow))}

/-- A flow that is selected is sent, and nothing after it. -/
theorem emits_once_iff (h : Selected T n flow.key) : Emits T n flow result ↔ result = .ok [some flow] := by
  refine ⟨fun he => he.selected h, fun he => ⟨fun _ => he, fun hnot => absurd h hnot, fun sent hsent => ?_⟩⟩
  rw [he] at hsent
  cases hsent
  simp

/-- Of a flow that is not selected nothing is sent. -/
theorem emits_of_not_selected (h : ¬Selected T n flow.key) (hresult : result = .ok []) : Emits T n flow result := by
  refine ⟨fun hsel => absurd hsel h, fun _ => hresult, fun sent hsent => ?_⟩
  rw [hresult] at hsent
  cases hsent
  exact List.not_mem_nil

/-- The flow alone is sent just when nothing is sent after it. -/
theorem map_cons_eq_iff : (result.map fun rest => some flow :: rest) = .ok [some flow] ↔ result = .ok [] := by
  cases result with
  | error e => simp [Except.map]
  | ok rest => simp [Except.map]

end Receiving

end FlowFilter

open FlowFilter

/-- No address and no number is read. -/
def noTexts : Texts where
  asUint _ := 0
  inetPton _ := none

end Blockmon.Filtering
