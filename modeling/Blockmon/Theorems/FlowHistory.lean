import Blockmon.Lemmas.FlowStream

/-!
# Answers of a flow that do not depend on its history

A flow sorts its packets at the first query and never again, and it overlooks the SYN of the packet at the head of its list. So its
answers depend on when it was asked and on the order in which the packets came. They do not if packets are added in time (`OnTime`): behind
all others once the list is sorted, at most one with a SYN, and none whose sequence number is below that of a SYN at the head of the list.
Then the list is always on the way to one order that depends on the packets only.
-/

namespace Blockmon.Messages

open StableSort (sortBy)

/-- A call on a flow. -/
inductive FlowOp where
  | addPacket (p : FlowPacket)
  | getPayload (offset nbytes : Nat)
  | clone

namespace FlowOp

/-- What is done to the flow, or to its clone, which takes its place. -/
def exec : FlowOp → EStateM FlowError FlowPayload PUnit
  | addPacket p => modify fun f => f.addPacket p
  | getPayload offset nbytes => FlowPayload.getPayload offset nbytes >>= fun _ => pure ⟨⟩
  | clone => modify fun f => f.clone

/-- The packet that a call adds. -/
def packet? : FlowOp → Option FlowPacket
  | addPacket p => some p
  | _ => none

/-- The packets that are added. -/
def added (ops : List FlowOp) : List FlowPacket := ops.filterMap packet?

end FlowOp

namespace FlowPayload

/-- The flow after calls on a new one. An exception is caught. -/
def after (ops : List FlowOp) : FlowPayload := Exn.runCalls FlowOp.exec new ops

/-- What a query gives, or the exception. -/
def answer (f : FlowPayload) (offset nbytes : Nat) : Except FlowError (List UInt8 × Nat) :=
  match (getPayload offset nbytes).run f with
  | .ok a _ => .ok a
  | .error e _ => .error e

end FlowPayload

/-- The sequence number of the SYN, or nought if there is none. -/
def start (packets : List FlowPacket) : UInt32 := ((packets.filter (·.tcpHasSyn)).head?.map (·.tcpSeq)).getD 0

/-- When a call on a flow comes in time. -/
def OnTime (f : FlowPayload) : FlowOp → Prop
  | .addPacket p =>
    (p.tcpHasSyn = true → f.listSorted = false ∧ ∀ q ∈ f.flowPackets, q.tcpHasSyn = false) ∧
      (f.listSorted = true → ∀ q ∈ f.flowPackets, q.rank (start f.flowPackets) < p.rank (start f.flowPackets)) ∧
      (f.listSorted = false → ∀ q ∈ f.flowPackets.head?, q.tcpHasSyn = true → q.tcpSeq < p.tcpSeq)
  | _ => True

/-- Every call of a run comes in time. -/
def AllOnTime : FlowPayload → List FlowOp → Prop
  | _, [] => True
  | f, op :: ops => OnTime f op ∧ AllOnTime (Exn.leaves (op.exec.run f)) ops

instance OnTime.decidable (f : FlowPayload) : (op : FlowOp) → Decidable (OnTime f op)
  | .addPacket _ => inferInstanceAs (Decidable (_ ∧ _ ∧ _))
  | .getPayload _ _ => .isTrue trivial
  | .clone => .isTrue trivial

instance AllOnTime.decidable : (f : FlowPayload) → (ops : List FlowOp) → Decidable (AllOnTime f ops)
  | _, [] => .isTrue trivial
  | f, op :: ops =>
    have := AllOnTime.decidable (Exn.leaves (op.exec.run f)) ops
    inferInstanceAs (Decidable (OnTime f op ∧ _))

/-! ## The order that depends on the packets only -/

/-- The packets from the SYN on, or by their sequence numbers if there is none. -/
def fromStart (packets : List FlowPacket) : List FlowPacket := inOrder (start packets) packets

/-- Of two orders of the same packets, a filter that takes at most one of them leaves the same. -/
theorem filter_eq_of_perm {packets packets' : List FlowPacket} (hperm : packets.Perm packets') {c : FlowPacket → Bool}
    (hone : packets.countP c ≤ 1) : packets.filter c = packets'.filter c := by
  have hfilter := hperm.filter c
  rw [List.countP_eq_length_filter] at hone
  cases hlist : packets.filter c with
  | nil =>
    rw [hlist] at hfilter
    exact (List.nil_perm.mp hfilter).symm
  | cons s rest =>
    rw [hlist] at hfilter hone
    have hnil : rest = [] := List.length_eq_zero_iff.mp (by simpa using hone)
    subst hnil
    exact (List.perm_singleton.mp hfilter.symm).symm

/-- The first sequence number does not depend on the order of the packets. -/
theorem start_perm {packets packets' : List FlowPacket} (hperm : packets.Perm packets') (hone : packets.countP (·.tcpHasSyn) ≤ 1) :
    start packets = start packets' := by
  rw [start, start, filter_eq_of_perm hperm hone]

/-- Different sequence numbers have different ranks. -/
theorem rank_injOn {packets : List FlowPacket} (hseq : (packets.map (·.tcpSeq)).Nodup) (isn : UInt32) :
    ∀ p ∈ packets, ∀ q ∈ packets, p.rank isn = q.rank isn → p = q := by
  intro p hp q hq hpq
  refine List.inj_on_of_nodup_map hseq hp hq ?_
  exact (UInt32.sub_left_inj isn).mp (UInt32.toNat_inj.mp hpq)

/-- The order of the packets does not depend on the order in which they came. -/
theorem fromStart_perm {packets packets' : List FlowPacket} (hperm : packets.Perm packets')
    (hone : packets.countP (·.tcpHasSyn) ≤ 1) (hseq : (packets.map (·.tcpSeq)).Nodup) : fromStart packets = fromStart packets' := by
  rw [fromStart, fromStart, ← start_perm hperm hone]
  exact StableSort.sortBy_perm hperm (rank_injOn hseq _)

/-- The ordered packets are the packets. -/
theorem perm_fromStart (packets : List FlowPacket) : (fromStart packets).Perm packets := StableSort.perm_sortBy _ _

/-- Numbers that do not wrap around have the order of the ranks. -/
theorem bySeq_eq_inOrder {packets : List FlowPacket} {isn : UInt32} (h : ∀ p ∈ packets, isn.toNat ≤ p.tcpSeq.toNat) :
    bySeq packets = inOrder isn packets := by
  refine StableSort.sortBy_congr fun p hp q hq => ?_
  have := h p hp
  have := h q hq
  rw [rank_eq, rank_eq, if_pos (h p hp), if_pos (h q hq)]
  omega

/-- Without a SYN the packets are in the order of their sequence numbers. -/
theorem fromStart_of_no_syn {packets : List FlowPacket} (h : ∀ p ∈ packets, p.tcpHasSyn = false) : fromStart packets = bySeq packets := by
  have hnone : packets.filter (·.tcpHasSyn) = [] := List.filter_eq_nil_iff.mpr fun p hp => by simp [h p hp]
  rw [fromStart, start, hnone]
  exact (bySeq_eq_inOrder fun p _ => Nat.zero_le _).symm

/-- The sorting phase leaves that order if a SYN at the head of the list has the least sequence number. -/
theorem sorted_eq_fromStart {packets : List FlowPacket} (hne : packets ≠ []) (htcp : ∀ p ∈ packets, p.l4 = .tcp)
    (hone : packets.countP (·.tcpHasSyn) ≤ 1) (hseq : (packets.map (·.tcpSeq)).Nodup)
    (hhead : ∀ p ∈ packets.head?, p.tcpHasSyn = true → ∀ q ∈ packets, p.tcpSeq ≤ q.tcpSeq) :
    sorted packets = .ok (fromStart packets) := by
  by_cases hsyn : ∃ s ∈ packets, s.tcpHasSyn = true
  · obtain ⟨s, hs, hsyn⟩ := hsyn
    obtain ⟨before, after, rfl⟩ := List.append_of_mem hs
    rw [List.countP_append, List.countP_cons_of_pos (p := fun q : FlowPacket => q.tcpHasSyn) hsyn] at hone
    have hbefore : ∀ q ∈ before, q.tcpHasSyn = false := fun q hq =>
      Bool.eq_false_iff.mpr (List.countP_eq_zero.mp (show before.countP (·.tcpHasSyn) = 0 by omega) q hq)
    have hafter : ∀ q ∈ after, q.tcpHasSyn = false := fun q hq =>
      Bool.eq_false_iff.mpr (List.countP_eq_zero.mp (show after.countP (·.tcpHasSyn) = 0 by omega) q hq)
    have hstart : start (before ++ s :: after) = s.tcpSeq := by
      have hnone : before.filter (·.tcpHasSyn) = [] := List.filter_eq_nil_iff.mpr fun q hq => by simp [hbefore q hq]
      simp [start, hnone, hsyn]
    cases before with
    | nil =>
      rw [List.nil_append] at htcp hstart hhead ⊢
      rw [sorted_of_no_syn htcp hafter, fromStart, hstart]
      exact congrArg Except.ok (bySeq_eq_inOrder fun q hq => UInt32.le_iff_toNat_le.mp (hhead s rfl hsyn q hq))
    | cons p before =>
      rw [List.map_append] at hseq
      obtain ⟨-, hback, hdisjoint⟩ := List.nodup_append.mp hseq
      have hs' : s.tcpSeq ∉ after.map (·.tcpSeq) := (List.nodup_cons.mp hback).1
      rw [fromStart, hstart]
      refine sorted_of_syn htcp hsyn hafter (fun q hq heq => ?_) fun q hq heq => hs' (heq ▸ List.mem_map_of_mem hq)
      exact hdisjoint q.tcpSeq (List.mem_map_of_mem hq) s.tcpSeq List.mem_cons_self heq
  · have hnone : ∀ p ∈ packets, p.tcpHasSyn = false := fun p hp => Bool.eq_false_iff.mpr fun h => hsyn ⟨p, hp, h⟩
    cases packets with
    | nil => exact absurd rfl hne
    | cons p rest =>
      rw [fromStart_of_no_syn hnone]
      exact sorted_of_no_syn htcp fun q hq => hnone q (List.mem_cons_of_mem _ hq)

/-! ## What a run keeps -/

/-- The list of a flow, by the packets that were added: as they came, or in the order that depends on them only. -/
structure Kept (added : List FlowPacket) (f : FlowPayload) : Prop where
  unsorted : f.listSorted = false → f.flowPackets = added
  inOrder : f.listSorted = true → f.flowPackets = fromStart added
  one : added.countP (·.tcpHasSyn) ≤ 1
  head : f.listSorted = false → ∀ p ∈ added.head?, p.tcpHasSyn = true → ∀ q ∈ added, p.tcpSeq ≤ q.tcpSeq

section Step

variable {added : List FlowPacket} {f : FlowPayload}

/-- The flow has the packets that were added. -/
theorem Kept.perm (h : Kept added f) : f.flowPackets.Perm added := by
  cases hflag : f.listSorted with
  | false => rw [h.unsorted hflag]
  | true =>
    rw [h.inOrder hflag]
    exact perm_fromStart added

/-- Before a query the sorting phase has that order at hand. -/
theorem Kept.sorted (h : Kept added f) (hne : added ≠ []) (htcp : ∀ p ∈ added, p.l4 = .tcp) (hseq : (added.map (·.tcpSeq)).Nodup) :
    if f.listSorted then fromStart added = f.flowPackets else Messages.sorted f.flowPackets = .ok (fromStart added) := by
  split
  · next hflag => exact (h.inOrder hflag).symm
  · next hflag =>
    have hflag : f.listSorted = false := Bool.eq_false_iff.mpr hflag
    rw [h.unsorted hflag]
    exact sorted_eq_fromStart hne htcp h.one hseq (h.head hflag)

/-- `get_payload` keeps them. -/
theorem Kept.getPayload (h : Kept added f) (htcp : ∀ p ∈ added, p.l4 = .tcp) (hseq : (added.map (·.tcpSeq)).Nodup)
    (offset nbytes : Nat) : Kept added (Exn.leaves ((FlowOp.getPayload offset nbytes).exec.run f)) := by
  have hexec : Exn.leaves ((FlowOp.getPayload offset nbytes).exec.run f) =
      Exn.leaves ((FlowPayload.getPayload offset nbytes).run f) := by
    rw [FlowOp.exec, EStateM.run_bind]
    cases (FlowPayload.getPayload offset nbytes).run f <;> rfl
  rw [hexec]
  by_cases hne : added = []
  · subst hne
    have hempty : f.flowPackets = [] := List.perm_nil.mp h.perm
    rw [FlowPayload.run_getPayload_of_empty hempty]
    exact h
  · have hne' : f.flowPackets ≠ [] := fun hempty => hne (List.perm_nil.mp (hempty ▸ h.perm.symm))
    rw [FlowPayload.run_getPayload hne' (h.sorted hne htcp hseq)]
    rw [Exn.leaves_outcome]
    exact ⟨nofun, fun _ => rfl, h.one, nofun⟩

/-- A packet that comes on time is kept with the others. -/
theorem Kept.addPacket {p : FlowPacket} (h : Kept added f) (hseq : ((added ++ [p]).map (·.tcpSeq)).Nodup)
    (hon : OnTime f (.addPacket p)) : Kept (added ++ [p]) (f.addPacket p) := by
  obtain ⟨hsyn, hlate, hhead⟩ := hon
  have hone : (added ++ [p]).countP (·.tcpHasSyn) ≤ 1 := by
    rw [List.countP_append, List.countP_singleton]
    split
    · next hp =>
      have hnone : added.countP (·.tcpHasSyn) = 0 := by
        rw [← h.perm.countP_eq]
        exact List.countP_eq_zero.mpr fun q hq => by simp [(hsyn hp).2 q hq]
      omega
    · exact h.one
  refine ⟨fun hflag => ?_, fun hflag => ?_, hone, fun hflag => ?_⟩
  · rw [FlowPayload.addPacket, h.unsorted hflag]
  · -- the packet comes behind a list that is sorted
    have hp : p.tcpHasSyn = false := by
      cases hp : p.tcpHasSyn with
      | false => rfl
      | true => exact absurd ((hsyn hp).1.symm.trans hflag) nofun
    have hstart : start (added ++ [p]) = start added := by simp [start, hp]
    have hstart' : start f.flowPackets = start added := start_perm h.perm (h.perm.countP_eq _ ▸ h.one)
    have hlist := h.inOrder hflag
    rw [FlowPayload.addPacket, hlist, fromStart, fromStart, hstart, Messages.inOrder, Messages.inOrder]
    rw [StableSort.sortBy_perm ((perm_fromStart added).symm.append_right [p]) (rank_injOn hseq _)]
    refine (StableSort.sortBy_append_of_le fun q hq => ?_).symm
    have := hlate hflag q (h.perm.mem_iff.mpr hq)
    rw [hstart'] at this
    exact Nat.le_of_lt this
  · intro s hs hssyn q hq
    cases added with
    | nil =>
      obtain rfl : p = s := by simpa using hs
      obtain rfl : q = p := by simpa using hq
      exact UInt32.le_refl _
    | cons t rest =>
      have hst : t = s := by simpa using hs
      subst hst
      rcases List.mem_append.mp hq with hq | hq
      · exact h.head hflag t rfl hssyn q hq
      · rw [List.mem_singleton.mp hq]
        exact UInt32.le_of_lt (hhead hflag t (by rw [h.unsorted hflag]; rfl) hssyn)

end Step

/-- A new flow has no packets. -/
theorem kept_new : Kept [] FlowPayload.new := ⟨fun _ => rfl, nofun, Nat.zero_le _, fun _ _ hp => nomatch hp⟩

/-- A run of calls in time. -/
theorem Kept.run {added : List FlowPacket} {f : FlowPayload} (h : Kept added f) {ops : List FlowOp} (hon : AllOnTime f ops)
    (htcp : ∀ p ∈ added ++ FlowOp.added ops, p.l4 = .tcp) (hseq : ((added ++ FlowOp.added ops).map (·.tcpSeq)).Nodup) :
    Kept (added ++ FlowOp.added ops) (Exn.runCalls FlowOp.exec f ops) := by
  induction ops generalizing added f with
  | nil =>
    rw [FlowOp.added, List.filterMap_nil, List.append_nil]
    exact h
  | cons op ops ih =>
    obtain ⟨hop, hon⟩ := hon
    have hprefix : (added.map (·.tcpSeq)).Nodup := by
      rw [List.map_append] at hseq
      exact hseq.of_append_left
    cases op with
    | addPacket p =>
      have hcons : added ++ FlowOp.added (.addPacket p :: ops) = added ++ [p] ++ FlowOp.added ops := by
        simp [FlowOp.added, FlowOp.packet?]
      rw [hcons] at htcp hseq ⊢
      have hp : ((added ++ [p]).map (·.tcpSeq)).Nodup := by
        rw [List.map_append] at hseq
        exact hseq.of_append_left
      exact ih (h.addPacket hp hop) hon htcp hseq
    | getPayload offset nbytes =>
      have hcons : added ++ FlowOp.added (.getPayload offset nbytes :: ops) = added ++ FlowOp.added ops := rfl
      rw [hcons] at htcp hseq ⊢
      exact ih (h.getPayload (fun p hp => htcp p (List.mem_append_left _ hp)) hprefix offset nbytes) hon htcp hseq
    | clone =>
      have hcons : added ++ FlowOp.added (.clone :: ops) = added ++ FlowOp.added ops := rfl
      rw [hcons] at htcp hseq ⊢
      exact ih h hon htcp hseq

/-- The answer, by the packets that were added. -/
theorem Kept.answer {added : List FlowPacket} {f : FlowPayload} (h : Kept added f) (htcp : ∀ p ∈ added, p.l4 = .tcp)
    (hseq : (added.map (·.tcpSeq)).Nodup) (offset nbytes : Nat) :
    f.answer offset nbytes =
      if added = [] then .ok ([], 0) else ((Copy.init offset nbytes).loop offset (fromStart added)).map Copy.answer := by
  rw [FlowPayload.answer]
  by_cases hne : added = []
  · rw [if_pos hne]
    have hempty : f.flowPackets = [] := List.perm_nil.mp (hne ▸ h.perm)
    rw [FlowPayload.run_getPayload_of_empty hempty]
  · rw [if_neg hne]
    have hne' : f.flowPackets ≠ [] := fun hempty => hne (List.perm_nil.mp (hempty ▸ h.perm.symm))
    rw [FlowPayload.run_getPayload hne' (h.sorted hne htcp hseq)]
    cases ((Copy.init offset nbytes).loop offset (fromStart added)).map Copy.answer <;> rfl

/-- Two runs of calls in time that have added the same packets give the same answer to the next query. -/
theorem answer_eq_of_perm {ops ops' : List FlowOp} (hon : AllOnTime FlowPayload.new ops) (hon' : AllOnTime FlowPayload.new ops')
    (hperm : (FlowOp.added ops).Perm (FlowOp.added ops')) (htcp : ∀ p ∈ FlowOp.added ops, p.l4 = .tcp)
    (hseq : ((FlowOp.added ops).map (·.tcpSeq)).Nodup) (offset nbytes : Nat) :
    (FlowPayload.after ops).answer offset nbytes = (FlowPayload.after ops').answer offset nbytes := by
  have htcp' : ∀ p ∈ FlowOp.added ops', p.l4 = .tcp := fun p hp => htcp p (hperm.mem_iff.mpr hp)
  have hseq' : ((FlowOp.added ops').map (·.tcpSeq)).Nodup := (hperm.map _).nodup_iff.mp hseq
  have hkept : Kept (FlowOp.added ops) (FlowPayload.after ops) := kept_new.run hon htcp hseq
  have hkept' : Kept (FlowOp.added ops') (FlowPayload.after ops') := kept_new.run hon' htcp' hseq'
  rw [hkept.answer htcp hseq, hkept'.answer htcp' hseq', fromStart_perm hperm hkept.one hseq]
  have hempty : FlowOp.added ops = [] ↔ FlowOp.added ops' = [] :=
    ⟨fun h => List.nil_perm.mp (h ▸ hperm), fun h => List.perm_nil.mp (h ▸ hperm)⟩
  by_cases h : FlowOp.added ops = []
  · rw [if_pos h, if_pos (hempty.mp h)]
  · rw [if_neg h, if_neg fun h' => h (hempty.mpr h')]

/-- A query between two packets that come in order, against the same packets in another order without it. -/
theorem answer_eq_in_order :
    (FlowPayload.after [.addPacket (segment true 100 []), .addPacket (segment false 101 [1, 2]), .getPayload 0 1, .clone,
        .addPacket (segment false 103 [3])]).answer 0 10 =
      (FlowPayload.after [.addPacket (segment false 103 [3]), .addPacket (segment false 101 [1, 2]),
        .addPacket (segment true 100 [])]).answer 0 10 :=
  answer_eq_of_perm (by decide) (by decide) (by decide) (by decide) (by decide) 0 10

/-- A query before the last two packets come, in reverse order; and, without any query, a SYN that comes first and whose sequence number
is followed by the wraparound. -/
theorem history_matters :
    (FlowPayload.after [.addPacket (segment true 100 []), .getPayload 0 1, .addPacket (segment false 103 [3]),
          .addPacket (segment false 101 [1, 2])]).answer 0 10 ≠
        (FlowPayload.after [.addPacket (segment true 100 []), .addPacket (segment false 103 [3]),
          .addPacket (segment false 101 [1, 2])]).answer 0 10 ∧
      (FlowPayload.after [.addPacket (segment true 0xFFFFFFFF []), .addPacket (segment false 0 [1])]).answer 0 10 ≠
        (FlowPayload.after [.addPacket (segment false 0 [1]), .addPacket (segment true 0xFFFFFFFF [])]).answer 0 10 := by
  have hearly : (FlowPayload.after [.addPacket (segment true 100 []), .getPayload 0 1, .addPacket (segment false 103 [3]),
      .addPacket (segment false 101 [1, 2])]).answer 0 10 = .ok ([3], 1) := rfl
  have hlate : (FlowPayload.after [.addPacket (segment true 100 []), .addPacket (segment false 103 [3]),
      .addPacket (segment false 101 [1, 2])]).answer 0 10 = .ok ([1, 2, 3], 3) := rfl
  have hfirst : (FlowPayload.after [.addPacket (segment true 0xFFFFFFFF []), .addPacket (segment false 0 [1])]).answer 0 10 =
      .ok ([], 0) := rfl
  have hlast : (FlowPayload.after [.addPacket (segment false 0 [1]), .addPacket (segment true 0xFFFFFFFF [])]).answer 0 10 =
      .ok ([1], 1) := rfl
  rw [hearly, hlate, hfirst, hlast]
  exact ⟨nofun, nofun⟩

end Blockmon.Messages
