import Blockmon.FlowPayload
import Mathlib.Data.List.TakeWhile

/-!
# How a flow sorts its packets

The sorting phase leaves the packets in the order in which their sequence numbers follow on that of the packet with the SYN, modulo
`2 ^ 32`, if that packet is not the first of the list. If it is, or if there is none, they are left in the order of the numbers themselves.
-/

namespace Blockmon.Messages

open StableSort (sortBy)

/-- How far a sequence number is behind the first one. -/
def FlowPacket.rank (isn : UInt32) (p : FlowPacket) : Nat := (p.tcpSeq - isn).toNat

/-- The packets in the order in which their sequence numbers follow on `isn`. -/
def inOrder (isn : UInt32) (packets : List FlowPacket) : List FlowPacket := sortBy (FlowPacket.rank isn) packets

/-- The packets in the order of their sequence numbers as numbers. -/
def bySeq (packets : List FlowPacket) : List FlowPacket := sortBy (fun p => p.tcpSeq.toNat) packets

/-- The rank counts from the first sequence number on, modulo `2^32`. -/
theorem rank_eq (isn : UInt32) (p : FlowPacket) :
    p.rank isn = if isn.toNat ≤ p.tcpSeq.toNat then p.tcpSeq.toNat - isn.toNat else 2 ^ 32 + p.tcpSeq.toNat - isn.toNat := by
  have hi := isn.toNat_lt
  have hs := p.tcpSeq.toNat_lt
  rw [FlowPacket.rank, UInt32.toNat_sub]
  split <;> omega

/-! ## The scan for the SYN -/

/-- The place of the last packet with a SYN, else the place that is known. -/
def lastSyn (syn : Option Nat) (nodes : List (FlowPacket × Nat)) : Option Nat :=
  nodes.foldl (fun syn i => if i.1.tcpHasSyn then some i.2 else syn) syn

/-- Without a SYN none is found. -/
theorem lastSyn_of_none {nodes : List (FlowPacket × Nat)} (h : ∀ i ∈ nodes, i.1.tcpHasSyn = false) (syn : Option Nat) :
    lastSyn syn nodes = syn := by
  induction nodes with
  | nil => rfl
  | cons i nodes ih =>
    have hi := h i List.mem_cons_self
    have := ih fun j hj => h j (List.mem_cons_of_mem _ hj)
    simpa [lastSyn, hi] using this

/-- The last SYN is the one that is kept. -/
theorem lastSyn_of_last {before after : List (FlowPacket × Nat)} {i : FlowPacket × Nat} (hi : i.1.tcpHasSyn = true)
    (hafter : ∀ j ∈ after, j.1.tcpHasSyn = false) (syn : Option Nat) : lastSyn syn (before ++ i :: after) = some i.2 := by
  have := lastSyn_of_none hafter (some i.2)
  simpa [lastSyn, hi] using this

/-- The scan of packets of TCP. -/
theorem Scan.loop_tcp {nodes : List (FlowPacket × Nat)} (h : ∀ i ∈ nodes, i.1.l4 = .tcp) (syn : Option Nat) :
    ({ packetType := .packetsTcp, syn := syn, first := false } : Scan).loop nodes =
      .ok { packetType := .packetsTcp, syn := lastSyn syn nodes, first := false } := by
  induction nodes generalizing syn with
  | nil => rfl
  | cons i nodes ih =>
    have hi := h i List.mem_cons_self
    have hrest := ih fun j hj => h j (List.mem_cons_of_mem _ hj)
    rw [Scan.loop]
    by_cases hsyn : i.1.tcpHasSyn = true
    · have hstep : ({ packetType := .packetsTcp, syn := syn, first := false } : Scan).step i =
          .ok { packetType := .packetsTcp, syn := some i.2, first := false } := by
        simp [Scan.step, FlowPacket.isTcp, FlowPacket.isUdp, hi, hsyn]
      rw [hstep]
      exact (hrest (some i.2)).trans (by simp [lastSyn, hsyn])
    · have hstep : ({ packetType := .packetsTcp, syn := syn, first := false } : Scan).step i =
          .ok { packetType := .packetsTcp, syn := syn, first := false } := by
        simp [Scan.step, FlowPacket.isTcp, FlowPacket.isUdp, hi, hsyn]
      rw [hstep]
      exact (hrest syn).trans (by simp [lastSyn, hsyn])

/-- The first packet decides the type, and the search for the SYN begins behind it. -/
theorem sorted_cons {p : FlowPacket} {packets : List FlowPacket} (h : ∀ q ∈ p :: packets, q.l4 = .tcp) :
    sorted (p :: packets) = .ok (arrange (p :: packets) (lastSyn none (packets.zipIdx 1))) := by
  have hp := h p List.mem_cons_self
  have hstep : Scan.init.step (p, 0) = .ok { packetType := .packetsTcp, syn := none, first := false } := by
    simp [Scan.step, Scan.init, FlowPacket.isTcp, hp]
  have hrest : ∀ i ∈ packets.zipIdx 1, i.1.l4 = .tcp := by
    rintro ⟨q, k⟩ hi
    exact h q (List.mem_cons_of_mem _ (List.fst_mem_of_mem_zipIdx hi))
  have hloop : Scan.init.loop ((p :: packets).zipIdx) =
      .ok { packetType := .packetsTcp, syn := lastSyn none (packets.zipIdx 1), first := false } := by
    rw [List.zipIdx_cons, Scan.loop, hstep]
    exact Scan.loop_tcp hrest none
  rw [sorted, hloop]
  rfl

/-! ## The list after it -/

/-- Sorting with the places is sorting. -/
theorem sortBy_zipIdx (key : FlowPacket → Nat) (packets : List FlowPacket) :
    (sortBy (fun i => key i.1) packets.zipIdx).map Prod.fst = sortBy key packets := by
  rw [StableSort.map_sortBy Prod.fst key packets.zipIdx fun _ => rfl, List.zipIdx_map_fst]

/-- Without a SYN the packets are sorted by their numbers. -/
theorem arrange_none (packets : List FlowPacket) : arrange packets none = bySeq packets := by
  have htake : ∀ nodes : List (FlowPacket × Nat), (nodes.takeWhile fun i => some i.2 ≠ none) = nodes :=
    fun nodes => List.takeWhile_eq_self_iff.mpr (by simp)
  have hdrop : ∀ nodes : List (FlowPacket × Nat), (nodes.dropWhile fun i => some i.2 ≠ none) = [] :=
    fun nodes => List.dropWhile_eq_nil_iff.mpr (by simp)
  rw [arrange, htake, hdrop, List.nil_append]
  exact sortBy_zipIdx (fun p => p.tcpSeq.toNat) packets

/-- To turn the sorted list at the only packet of its sequence number is to sort from there. -/
theorem arrange_some {before after : List FlowPacket} {s : FlowPacket} (hbefore : ∀ p ∈ before, p.tcpSeq ≠ s.tcpSeq)
    (hafter : ∀ p ∈ after, p.tcpSeq ≠ s.tcpSeq) :
    arrange (before ++ s :: after) (some before.length) = inOrder s.tcpSeq (before ++ s :: after) := by
  set packets := before ++ s :: after with hpackets
  have hnode : ∀ i ∈ packets.zipIdx, (i.2 = before.length ↔ i.1.tcpSeq.toNat = s.tcpSeq.toNat) := by
    rintro ⟨p, k⟩ hi
    have hget := List.mk_mem_zipIdx_iff_getElem?.mp hi
    rw [hpackets] at hget
    rcases Nat.lt_trichotomy k before.length with hk | hk | hk
    · rw [List.getElem?_append_left hk] at hget
      have hne := hbefore p (List.mem_of_getElem? hget)
      exact iff_of_false (Nat.ne_of_lt hk) fun h => hne (UInt32.toNat_inj.mp h)
    · subst hk
      rw [List.getElem?_append_right (Nat.le_refl _), Nat.sub_self, List.getElem?_cons_zero] at hget
      exact iff_of_true rfl (by rw [Option.some.inj hget])
    · obtain ⟨m, rfl⟩ := Nat.exists_eq_add_of_lt hk
      rw [List.getElem?_append_right (by omega), show before.length + m + 1 - before.length = m + 1 by omega,
        List.getElem?_cons_succ] at hget
      have hne := hafter p (List.mem_of_getElem? hget)
      exact iff_of_false (by dsimp only; omega) fun h => hne (UInt32.toNat_inj.mp h)
  have hsorted : ∀ i ∈ sortBy (fun i : FlowPacket × Nat => i.1.tcpSeq.toNat) packets.zipIdx,
      decide (some i.2 ≠ some before.length) = decide (i.1.tcpSeq.toNat ≠ s.tcpSeq.toNat) := by
    intro i hi
    have := hnode i (StableSort.mem_sortBy.mp hi)
    simp [this]
  have htake := StableSort.takeWhile_congr hsorted
  have hdrop := StableSort.dropWhile_congr hsorted
  have hs : ∃ i ∈ packets.zipIdx, i.1.tcpSeq.toNat = s.tcpSeq.toNat := by
    refine ⟨(s, before.length), List.mk_mem_zipIdx_iff_getElem?.mpr ?_, rfl⟩
    simp [hpackets]
  rw [arrange, htake, hdrop, StableSort.turn_sortBy (fun i => i.1.rank s.tcpSeq) hs]
  · exact sortBy_zipIdx (FlowPacket.rank s.tcpSeq) packets
  · intro i _ j _ hi hj
    have := i.1.tcpSeq.toNat_lt
    have := j.1.tcpSeq.toNat_lt
    simp only [rank_eq]
    rw [if_pos hj, if_neg (by omega)]
    omega
  · intro i _ j _ hij
    simp only [rank_eq]
    have := s.tcpSeq.toNat_lt
    by_cases hi : i.1.tcpSeq.toNat < s.tcpSeq.toNat
    · have hj := hij.mp hi
      rw [if_neg (by omega), if_neg (by omega)]
      omega
    · have hj : ¬j.1.tcpSeq.toNat < s.tcpSeq.toNat := fun h => hi (hij.mpr h)
      rw [if_pos (by omega), if_pos (by omega)]
      omega

/-- Without a SYN behind the first packet the list is not turned. -/
theorem sorted_of_no_syn {p : FlowPacket} {packets : List FlowPacket} (h : ∀ q ∈ p :: packets, q.l4 = .tcp)
    (hsyn : ∀ q ∈ packets, q.tcpHasSyn = false) : sorted (p :: packets) = .ok (bySeq (p :: packets)) := by
  have hnone : lastSyn none (packets.zipIdx 1) = none := by
    refine lastSyn_of_none ?_ none
    rintro ⟨q, k⟩ hi
    exact hsyn q (List.fst_mem_of_mem_zipIdx hi)
  rw [sorted_cons h, hnone, arrange_none]

/-- With a SYN behind the first packet, and no later one, the list begins with it. -/
theorem sorted_of_syn {p s : FlowPacket} {before after : List FlowPacket} (h : ∀ q ∈ p :: (before ++ s :: after), q.l4 = .tcp)
    (hs : s.tcpHasSyn = true) (hafter : ∀ q ∈ after, q.tcpHasSyn = false)
    (hseq : ∀ q ∈ p :: before, q.tcpSeq ≠ s.tcpSeq) (hseq' : ∀ q ∈ after, q.tcpSeq ≠ s.tcpSeq) :
    sorted (p :: (before ++ s :: after)) = .ok (inOrder s.tcpSeq (p :: (before ++ s :: after))) := by
  have hlast : lastSyn none ((before ++ s :: after).zipIdx 1) = some (p :: before).length := by
    rw [List.zipIdx_append, List.zipIdx_cons]
    rw [lastSyn_of_last (i := (s, 1 + before.length)) hs]
    · simp [Nat.add_comm]
    · rintro ⟨q, k⟩ hi
      exact hafter q (List.fst_mem_of_mem_zipIdx hi)
  rw [sorted_cons h, hlast]
  exact congrArg Except.ok (arrange_some hseq hseq')

end Blockmon.Messages
