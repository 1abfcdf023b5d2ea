import Blockmon.FlowMeter
import Blockmon.Lemmas.FlowTable

/-!
# The flow meter refines the flow table

`Linked` says how the pointers of the table, of the queue and of what was sent share the records; `abs` forgets the pointers. Every
event keeps `Linked` and does to `abs` what it does in the flow table.
-/

namespace Blockmon

namespace FlowMeter

/-! ## The queue -/

/-- The queue has slots. -/
theorem Q_SIZE_pos : 0 < Q_SIZE := by decide

/-- The mask is the remainder. -/
theorem and_mask (i : Nat) : i &&& (Q_SIZE - 1) = i % Q_SIZE := Nat.and_two_pow_sub_one_eq_mod i 17

/-- The block with another queue. -/
def withQueue (m : FlowMeter) (queue : Nat → QueueSlot) (head tail : Nat) : FlowMeter :=
  { m with flowQueue := queue, queueHead := head, queueTail := tail }

/-- The indices of the queue are in range. -/
def InRange (m : FlowMeter) : Prop := m.queueHead < Q_SIZE ∧ m.queueTail < Q_SIZE

/-- The queue is never full of slots. -/
theorem length_slots_lt (m : FlowMeter) : m.slots.length < Q_SIZE := by
  rw [slots, Ring.length_window]
  exact Ring.size_lt _ _ Q_SIZE_pos

/-- Nothing is popped from an empty queue. -/
theorem popSlot_of_nil {m : FlowMeter} (h : m.InRange) (hs : m.slots = []) : m.popSlot = none :=
  if_pos ((Ring.window_eq_nil h.1 h.2).mp hs)

/-- Dequeueing takes the first slot. -/
theorem popSlot_of_cons {m : FlowMeter} (h : m.InRange) {s : QueueSlot} {rest : List QueueSlot} (hs : m.slots = s :: rest) :
    ∃ queue head, m.popSlot = some (s, m.withQueue queue head m.queueTail) ∧
      (m.withQueue queue head m.queueTail).slots = rest ∧ (m.withQueue queue head m.queueTail).InRange := by
  have hne : m.queueHead ≠ m.queueTail := by
    intro heq
    rw [slots, (Ring.window_eq_nil h.1 h.2).mpr heq] at hs
    cases hs
  rw [slots, Ring.window_pop h.1 h.2 hne { m.flowQueue m.queueHead with flowPtr := none }, List.cons.injEq] at hs
  obtain ⟨hfirst, hrest⟩ := hs
  refine ⟨Function.update m.flowQueue m.queueHead { m.flowQueue m.queueHead with flowPtr := none },
    (m.queueHead + 1) % Q_SIZE, ?_, hrest, Nat.mod_lt _ Q_SIZE_pos, h.2⟩
  rw [popSlot, if_neg hne, and_mask, hfirst]
  rfl

/-- Enqueueing adds a slot at the end, unless the queue is full. -/
theorem pushSlot_of_room {m : FlowMeter} (h : m.InRange) (s : QueueSlot) (hroom : m.slots.length + 1 < Q_SIZE) :
    ∃ queue tail, m.pushSlot s = (true, m.withQueue queue m.queueHead tail) ∧
      (m.withQueue queue m.queueHead tail).slots = m.slots ++ [s] ∧ (m.withQueue queue m.queueHead tail).InRange := by
  have hfull : (m.queueTail + 1) % Q_SIZE ≠ m.queueHead := by
    intro heq
    have := (Ring.full_iff h.1 h.2).mp heq
    rw [slots, Ring.length_window] at hroom
    omega
  refine ⟨Function.update m.flowQueue m.queueTail s, (m.queueTail + 1) % Q_SIZE, ?_, ?_, h.1, Nat.mod_lt _ Q_SIZE_pos⟩
  · rw [pushSlot, and_mask]
    exact if_neg hfull
  · exact Ring.window_push h.1 h.2 hfull s

/-- A full queue takes nothing. -/
theorem pushSlot_of_full {m : FlowMeter} (h : m.InRange) (s : QueueSlot) (hfull : ¬m.slots.length + 1 < Q_SIZE) :
    m.pushSlot s = (false, m) := by
  have heq : (m.queueTail + 1) % Q_SIZE = m.queueHead := by
    refine (Ring.full_iff h.1 h.2).mpr ?_
    have := m.length_slots_lt
    rw [slots, Ring.length_window] at this hfull
    omega
  rw [pushSlot, and_mask]
  exact if_pos heq

/-! ## The pointers -/

/-- How the records are shared: the table points to records with the right keys; a slot points to the record of its key in the
table, and no two slots to the same; what was sent is not in the table any more. -/
structure Linked (m : FlowMeter) : Prop where
  inRange : m.InRange
  slot : ∀ s ∈ m.slots, ∃ r, s.flowPtr = some r ∧ m.flowTable (m.heap r).key = some r
  nodup : (m.slots.map QueueSlot.flowPtr).Nodup
  table : ∀ k r, m.flowTable k = some r → r < m.next ∧ (m.heap r).key = k
  sent : ∀ r ∈ m.sent, r < m.next ∧ ∀ k, m.flowTable k ≠ some r

/-- The key of the record that a slot points to, and its last check. -/
def absSlot (heap : Nat → Flow) (s : QueueSlot) : FlowKey × ustime := ((heap (s.flowPtr.getD 0)).key, s.lastChecked)

/-- The block without pointers. -/
def abs (m : FlowMeter) : FlowTable := { entries := m.entry, slots := m.slots.map (absSlot m.heap), exported := m.exported }

section

variable {m : FlowMeter} {k : FlowKey} {r : Nat}

/-- Two keys do not share a flow. -/
theorem Linked.table_inj (h : Linked m) {k' : FlowKey} (hk : m.flowTable k = some r) (hk' : m.flowTable k' = some r) : k' = k := by
  rw [← (h.table k r hk).2, ← (h.table k' r hk').2]

/-- A slot points to an allocated record. -/
theorem Linked.slot_lt (h : Linked m) {s : QueueSlot} (hs : s ∈ m.slots) : ∃ r, s.flowPtr = some r ∧ r < m.next := by
  obtain ⟨r, hr, htable⟩ := h.slot s hs
  exact ⟨r, hr, (h.table _ r htable).1⟩

/-- A change of the queue only. -/
theorem Linked.withQueue (h : Linked m) {queue : Nat → QueueSlot} {head tail : Nat}
    (hrange : (m.withQueue queue head tail).InRange)
    (hslot : ∀ s ∈ (m.withQueue queue head tail).slots, ∃ r, s.flowPtr = some r ∧ m.flowTable (m.heap r).key = some r)
    (hnodup : ((m.withQueue queue head tail).slots.map QueueSlot.flowPtr).Nodup) : Linked (m.withQueue queue head tail) :=
  ⟨hrange, hslot, hnodup, h.table, h.sent⟩

/-- A new record that nothing points to yet. -/
theorem Linked.alloc (h : Linked m) (f : Flow) : Linked (m.alloc f) ∧ abs (m.alloc f) = abs m := by
  have hold : ∀ j, j < m.next → (m.alloc f).heap j = m.heap j := fun j hj => Function.update_of_ne (by omega) ..
  refine ⟨⟨h.inRange, fun s hs => ?_, h.nodup, fun k' j hj => ?_, fun j hj => ?_⟩, ?_⟩
  · obtain ⟨j, hptr, htable⟩ := h.slot s hs
    refine ⟨j, hptr, ?_⟩
    rw [hold j (h.table _ j htable).1]
    exact htable
  · obtain ⟨hlt, hkey⟩ := h.table k' j hj
    exact ⟨Nat.lt_succ_of_lt hlt, by rw [hold j hlt, hkey]⟩
  · obtain ⟨hlt, hno⟩ := h.sent j hj
    exact ⟨Nat.lt_succ_of_lt hlt, hno⟩
  · have hentry : (m.alloc f).entry = m.entry := by
      funext k'
      cases hk' : m.flowTable k' with
      | none => simp [entry, FlowMeter.alloc, hk']
      | some j =>
        have heap_eq := hold j (h.table k' j hk').1
        simp only [entry]
        rw [hk', show (m.alloc f).flowTable k' = some j from hk', Option.map_some, Option.map_some, heap_eq]
    have hslots : (m.alloc f).slots.map (absSlot (m.alloc f).heap) = m.slots.map (absSlot m.heap) := by
      refine List.map_congr_left fun s hs => ?_
      obtain ⟨j, hptr, hlt⟩ := h.slot_lt hs
      rw [absSlot, absSlot, hptr, Option.getD_some, hold j hlt]
    have hsent : (m.alloc f).exported = m.exported := List.map_congr_left fun j hj => hold j (h.sent j hj).1
    rw [abs, abs, hentry, hslots, hsent]

/-- A record changed in place, keeping its key. -/
theorem Linked.modify (h : Linked m) (hk : m.flowTable k = some r) {f : Flow → Flow} (hf : (f (m.heap r)).key = (m.heap r).key) :
    Linked (m.modify r f) ∧
      abs (m.modify r f) = { abs m with entries := Function.update (abs m).entries k (some (f (m.heap r))) } := by
  have hother : ∀ {j}, j ≠ r → (m.modify r f).heap j = m.heap j := fun hne => Function.update_of_ne hne ..
  have hself : (m.modify r f).heap r = f (m.heap r) := Function.update_self ..
  have hkey : ∀ j, ((m.modify r f).heap j).key = (m.heap j).key := by
    intro j
    by_cases hj : j = r
    · rw [hj, hself, hf]
    · rw [hother hj]
  refine ⟨⟨h.inRange, fun s hs => ?_, h.nodup, fun k' j hj => ?_, h.sent⟩, ?_⟩
  · obtain ⟨j, hptr, htable⟩ := h.slot s hs
    exact ⟨j, hptr, by rw [hkey j]; exact htable⟩
  · rw [hkey j]
    exact h.table k' j hj
  · have hentry : (m.modify r f).entry = Function.update m.entry k (some (f (m.heap r))) := by
      funext k'
      by_cases hkk : k' = k
      · subst hkk
        simp [entry, FlowMeter.modify, hk]
      · rw [Function.update_of_ne hkk]
        cases hk' : m.flowTable k' with
        | none => simp [entry, FlowMeter.modify, hk']
        | some j =>
          have hj : j ≠ r := fun e => hkk (h.table_inj hk (e ▸ hk'))
          simp [entry, FlowMeter.modify, hk', hj]
    have hslots : (m.modify r f).slots.map (absSlot (m.modify r f).heap) = m.slots.map (absSlot m.heap) := by
      refine List.map_congr_left fun s _ => ?_
      rw [absSlot, absSlot, hkey]
    have hsent : (m.modify r f).exported = m.exported := by
      refine List.map_congr_left fun j hj => ?_
      exact hother fun e => (h.sent j hj).2 k (e ▸ hk)
    rw [abs, hentry, hslots, hsent]
    rfl

/-- A record that the table does not point to is sent out. -/
theorem Linked.sendOut (h : Linked m) (hlt : r < m.next) (hno : ∀ k, m.flowTable k ≠ some r) :
    Linked (m.sendOut r) ∧ abs (m.sendOut r) = { abs m with exported := (abs m).exported ++ [m.heap r] } := by
  refine ⟨⟨h.inRange, h.slot, h.nodup, h.table, fun j hj => ?_⟩, ?_⟩
  · rcases List.mem_append.mp hj with hj | hj
    · exact h.sent j hj
    · rw [List.mem_singleton.mp hj]
      exact ⟨hlt, hno⟩
  · have hsent : (m.sendOut r).exported = m.exported ++ [m.heap r] := List.map_append ..
    rw [abs, hsent]
    rfl

/-- The entry of a record that no slot points to is erased. -/
theorem Linked.erase (h : Linked m) (hk : m.flowTable k = some r) (hno : some r ∉ m.slots.map QueueSlot.flowPtr) :
    Linked (m.erase k) ∧ abs (m.erase k) = { abs m with entries := Function.update (abs m).entries k none } ∧
      ∀ k', (m.erase k).flowTable k' ≠ some r := by
  have hother : ∀ {k'}, k' ≠ k → (m.erase k).flowTable k' = m.flowTable k' := fun hne => Function.update_of_ne hne ..
  have hself : (m.erase k).flowTable k = none := Function.update_self ..
  have hsome : ∀ {k' j}, (m.erase k).flowTable k' = some j → k' ≠ k ∧ m.flowTable k' = some j := by
    intro k' j hj
    by_cases hkk : k' = k
    · rw [hkk, hself] at hj
      cases hj
    · exact ⟨hkk, by rwa [hother hkk] at hj⟩
  refine ⟨⟨h.inRange, fun s hs => ?_, h.nodup, fun k' j hj => h.table k' j (hsome hj).2, fun j hj => ?_⟩, ?_, ?_⟩
  · obtain ⟨j, hptr, htable⟩ := h.slot s hs
    refine ⟨j, hptr, (hother fun hkk => hno ?_).trans htable⟩
    have hjr : j = r := Option.some.inj (htable.symm.trans ((congrArg m.flowTable hkk).trans hk))
    exact List.mem_map.mpr ⟨s, hs, hjr ▸ hptr⟩
  · obtain ⟨hlt, hnot⟩ := h.sent j hj
    exact ⟨hlt, fun k' hk' => hnot k' (hsome hk').2⟩
  · have hentry : (m.erase k).entry = Function.update m.entry k none := by
      funext k'
      by_cases hkk : k' = k
      · subst hkk
        rw [entry, hself, Function.update_self]
        rfl
      · rw [entry, hother hkk, Function.update_of_ne hkk]
        rfl
    rw [abs, hentry]
    rfl
  · intro k' hk'
    obtain ⟨hne, hold⟩ := hsome hk'
    exact hne (h.table_inj hk hold)

/-- A new record enters the table. -/
theorem Linked.insert_alloc (h : Linked m) (hk : m.flowTable k = none) {f : Flow} (hf : f.key = k) :
    Linked ((m.alloc f).insert k m.next) ∧
      abs ((m.alloc f).insert k m.next) = { abs m with entries := Function.update (abs m).entries k (some f) } := by
  obtain ⟨ha, habs⟩ := h.alloc f
  have hnew : (m.alloc f).heap m.next = f := Function.update_self ..
  have hother : ∀ {k'}, k' ≠ k → ((m.alloc f).insert k m.next).flowTable k' = m.flowTable k' :=
    fun hne => Function.update_of_ne hne ..
  have hself : ((m.alloc f).insert k m.next).flowTable k = some m.next := Function.update_self ..
  refine ⟨⟨ha.inRange, fun s hs => ?_, ha.nodup, fun k' j hj => ?_, fun j hj => ?_⟩, ?_⟩
  · obtain ⟨j, hptr, htable⟩ := ha.slot s hs
    refine ⟨j, hptr, (hother fun hkk => ?_).trans htable⟩
    have hnone : (m.alloc f).flowTable ((m.alloc f).heap j).key = none := (congrArg m.flowTable hkk).trans hk
    rw [hnone] at htable
    cases htable
  · by_cases hkk : k' = k
    · rw [hkk, hself, Option.some.injEq] at hj
      subst hj
      exact ⟨Nat.lt_succ_self _, by rw [hkk, ← hf]; exact congrArg Flow.key hnew⟩
    · rw [hother hkk] at hj
      exact ha.table k' j hj
  · obtain ⟨hlt, hnot⟩ := ha.sent j hj
    refine ⟨hlt, fun k' hk' => ?_⟩
    by_cases hkk : k' = k
    · rw [hkk, hself, Option.some.injEq] at hk'
      have := (h.sent j hj).1
      omega
    · rw [hother hkk] at hk'
      exact hnot k' hk'
  · have hentry : ((m.alloc f).insert k m.next).entry = Function.update m.entry k (some f) := by
      have hold : (m.alloc f).entry = m.entry := congrArg FlowTable.entries habs
      funext k'
      by_cases hkk : k' = k
      · subst hkk
        rw [entry, hself, Function.update_self, Option.map_some]
        exact congrArg some hnew
      · rw [entry, hother hkk, Function.update_of_ne hkk, ← hold]
        rfl
    have hrest : abs ((m.alloc f).insert k m.next) =
        { abs (m.alloc f) with entries := ((m.alloc f).insert k m.next).entry } := rfl
    rw [hrest, habs, hentry]
    rfl

end

/-! ## The events -/

section

variable {m : FlowMeter}

/-- Dequeueing, with the pointers. -/
theorem Linked.popSlot (h : Linked m) {s : QueueSlot} {rest : List QueueSlot} (hs : m.slots = s :: rest) :
    ∃ m' r, m.popSlot = some (s, m') ∧ s.flowPtr = some r ∧ Linked m' ∧ m'.slots = rest ∧ m'.heap = m.heap ∧
      m'.flowTable (m.heap r).key = some r ∧ some r ∉ rest.map QueueSlot.flowPtr ∧
      abs m' = { abs m with slots := rest.map (absSlot m.heap) } := by
  obtain ⟨queue, head, hpop, hrest, hrange⟩ := popSlot_of_cons h.inRange hs
  obtain ⟨r, hptr, htable⟩ := h.slot s (by rw [hs]; exact List.mem_cons_self)
  have hnodup := h.nodup
  rw [hs, List.map_cons, List.nodup_cons, hptr] at hnodup
  have hlinked : Linked (m.withQueue queue head m.queueTail) := by
    refine h.withQueue hrange (fun s' hs' => h.slot s' ?_) (by rw [hrest]; exact hnodup.2)
    rw [hs]
    exact List.mem_cons_of_mem _ (hrest ▸ hs')
  refine ⟨_, r, hpop, hptr, hlinked, hrest, rfl, htable, hnodup.1, ?_⟩
  rw [abs, hrest]
  rfl

/-- Enqueueing a slot for a record of the table that no slot points to, with the pointers. -/
theorem Linked.pushSlot (h : Linked m) (r : Nat) (checked : ustime) (hroom : m.slots.length + 1 < Q_SIZE)
    (htable : m.flowTable (m.heap r).key = some r) (hno : some r ∉ m.slots.map QueueSlot.flowPtr) :
    ∃ m', m.pushSlot { flowPtr := some r, lastChecked := checked } = (true, m') ∧ Linked m' ∧
      abs m' = { abs m with slots := (abs m).slots ++ [((m.heap r).key, checked)] } := by
  obtain ⟨queue, tail, hpush, hslots, hrange⟩ := pushSlot_of_room h.inRange { flowPtr := some r, lastChecked := checked } hroom
  have hlinked : Linked (m.withQueue queue m.queueHead tail) := by
    refine h.withQueue hrange (fun s hs => ?_) ?_
    · rw [hslots, List.mem_append, List.mem_singleton] at hs
      rcases hs with hs | rfl
      · exact h.slot s hs
      · exact ⟨r, rfl, htable⟩
    · rw [hslots, List.map_append, List.map_singleton, List.nodup_append]
      refine ⟨h.nodup, List.pairwise_singleton _ _, fun a ha b hb heq => hno ?_⟩
      have hptr : a = some r := heq.trans (List.mem_singleton.mp hb)
      exact hptr ▸ ha
  refine ⟨_, hpush, hlinked, ?_⟩
  rw [abs, hslots, List.map_append]
  rfl

/-- The timer loop is the checks of the flow table. -/
theorem handleTimerLoop_refines (tnow us_limit : ustime) : ∀ (fuel : Nat) {m : FlowMeter}, Linked m →
    (handleTimerLoop tnow us_limit fuel m).map abs = (abs m).check tnow us_limit fuel ∧
      ∀ m', handleTimerLoop tnow us_limit fuel m = some m' → Linked m' := by
  intro fuel
  induction fuel with
  | zero =>
    intro m _
    exact ⟨rfl, fun m' hm' => by cases hm'⟩
  | succ fuel ih =>
    intro m h
    cases hs : m.slots with
    | nil =>
      have hloop : handleTimerLoop tnow us_limit (fuel + 1) m = some m := by
        rw [handleTimerLoop, popSlot_of_nil h.inRange hs]
      have hcheck : (abs m).check tnow us_limit (fuel + 1) = some (abs m) := by
        rw [FlowTable.check, show (abs m).slots = [] by rw [abs, hs]; rfl]
      refine ⟨by rw [hloop, hcheck]; rfl, fun m' hm' => ?_⟩
      rw [hloop, Option.some.injEq] at hm'
      exact hm' ▸ h
    | cons s rest =>
      obtain ⟨m₁, r, hpop, hptr, h₁, hrest, hheap, htable, hno, habs⟩ := h.popSlot hs
      have hslots : (abs m).slots = ((m.heap r).key, s.lastChecked) :: rest.map (absSlot m.heap) := by
        rw [abs, hs, List.map_cons, absSlot, hptr]
        rfl
      have hentry : (abs m).entries (m.heap r).key = some (m.heap r) := by
        obtain ⟨r', hptr', htable'⟩ := h.slot s (by rw [hs]; exact List.mem_cons_self)
        rw [hptr, Option.some.injEq] at hptr'
        subst hptr'
        have hview : (abs m).entries (m.heap r).key = (m.flowTable (m.heap r).key).map m.heap := rfl
        rw [hview, htable']
        rfl
      rw [handleTimerLoop, hpop, FlowTable.check, hslots]
      simp only [hptr, hentry, hheap, Flow.endTime]
      by_cases hexp : (m.heap r).etime < us_limit
      · rw [if_pos hexp, if_pos hexp]
        obtain ⟨h₂, habs₂, hgone⟩ := h₁.erase htable (hrest ▸ hno)
        obtain ⟨h₃, habs₃⟩ := h₂.sendOut (h₁.table _ r htable).1 hgone
        obtain ⟨heq, hlinked⟩ := ih h₃
        refine ⟨?_, hlinked⟩
        rw [heq, habs₃, habs₂, habs, show (m₁.erase (m.heap r).key).heap r = m.heap r from congrFun hheap r]
        rfl
      · rw [if_neg hexp, if_neg hexp]
        have hroom : m₁.slots.length + 1 < Q_SIZE := by
          have hlen := m.length_slots_lt
          rwa [hs, List.length_cons, ← hrest] at hlen
        have htable₁ : m₁.flowTable (m₁.heap r).key = some r := by rw [hheap]; exact htable
        obtain ⟨m₂, hpush, h₂, habs₂⟩ := h₁.pushSlot r tnow hroom htable₁ (hrest ▸ hno)
        have habs₂' : abs m₂ = (abs m).requeue (m.heap r).key tnow (rest.map (absSlot m.heap)) := by
          rw [habs₂, habs, hheap]
          rfl
        simp only [hpush]
        by_cases hlast : s.lastChecked > us_limit
        · rw [if_pos hlast, if_pos hlast]
          refine ⟨by rw [Option.map_some, habs₂'], fun m' hm' => ?_⟩
          rw [Option.some.injEq] at hm'
          exact hm' ▸ h₂
        · rw [if_neg hlast, if_neg hlast, ← habs₂']
          exact ih h₂

/-- The timer handler is the checks of the flow table with the limit of the idle timeout. -/
theorem handleTimer_refines (h : Linked m) (tnow : ustime) (fuel : Nat) :
    (m.handleTimer tnow fuel).map abs = (abs m).check tnow (m.usLimit tnow) fuel ∧
      ∀ m', m.handleTimer tnow fuel = some m' → Linked m' :=
  handleTimerLoop_refines tnow (m.usLimit tnow) fuel h

/-- Besides the interval, a packet changes the counts and the packets of a record. -/
theorem countPacket_frame {α : Type} (g : Flow → α) (hbytes : ∀ f v, g (Flow.incrementBytes f v) = g f)
    (hpackets : ∀ f v, g (Flow.incrementPackets f v) = g f) (hadd : ∀ f p, g (Flow.addPacket f p) = g f) (p : Packet) (us_now : ustime)
    (f : Flow) : g (m.countPacket p us_now f) = g (f.expandInterval us_now) := by
  unfold countPacket
  dsimp only
  split
  · rw [hadd, hpackets, hbytes]
  · rw [hpackets, hbytes]

@[simp] theorem countPacket_key (p : Packet) (us_now : ustime) (f : Flow) : (m.countPacket p us_now f).key = f.key := by
  rw [countPacket_frame Flow.key (fun _ _ => rfl) (fun _ _ => rfl) (fun _ _ => rfl)]
  exact Flow.expandInterval_key f us_now

/-- A counted packet sets the end of its flow. -/
theorem countPacket_etime (p : Packet) (us_now : ustime) (f : Flow) :
    (m.countPacket p us_now f).etime = (f.expandInterval us_now).etime :=
  countPacket_frame Flow.etime (fun _ _ => rfl) (fun _ _ => rfl) (fun _ _ => rfl) p us_now f

/-- The record of a key in the table, seen without pointers. -/
theorem abs_entries_of_table {k : FlowKey} {r : Nat} (hk : m.flowTable k = some r) : (abs m).entries k = some (m.heap r) := by
  have hview : (abs m).entries k = (m.flowTable k).map m.heap := rfl
  rw [hview, hk]
  rfl

/-- The table of both models has the same keys. -/
theorem abs_entries_eq_none {k : FlowKey} : (abs m).entries k = none ↔ m.flowTable k = none := Option.map_eq_none_iff

/-- A copy of a record is sent out. The copy is a record of its own, so later changes of the record do not reach it. -/
theorem Linked.sendCopy (h : Linked m) {k : FlowKey} {r : Nat} (hk : m.flowTable k = some r) :
    Linked ((m.alloc (m.heap r).clone).sendOut m.next) ∧
      abs ((m.alloc (m.heap r).clone).sendOut m.next) = { abs m with exported := (abs m).exported ++ [m.heap r] } ∧
      ((m.alloc (m.heap r).clone).sendOut m.next).heap r = m.heap r := by
  obtain ⟨h₁, habs₁⟩ := h.alloc (m.heap r).clone
  have hfresh : ∀ k, (m.alloc (m.heap r).clone).flowTable k ≠ some m.next := by
    intro k' hk'
    have := (h.table k' m.next hk').1
    omega
  obtain ⟨h₂, habs₂⟩ := h₁.sendOut (Nat.lt_succ_self m.next) hfresh
  have hcopy : (m.alloc (m.heap r).clone).heap m.next = m.heap r := Function.update_self ..
  refine ⟨h₂, by rw [habs₂, habs₁, hcopy], ?_⟩
  exact Function.update_of_ne (Nat.ne_of_lt (h.table k r hk).1) ..

/-- Without pointers, the records are under their keys and the slots have different keys. -/
theorem Linked.keyed (h : Linked m) : (abs m).Keyed := by
  refine ⟨fun {k f} hf => ?_, ?_, fun k hk => ?_⟩
  · obtain ⟨r, hr, rfl⟩ := Option.map_eq_some_iff.mp hf
    exact (h.table k r hr).2
  · have hkeys : (abs m).keys = (m.slots.map QueueSlot.flowPtr).map fun ptr => (m.heap (ptr.getD 0)).key := by
      rw [FlowTable.keys, abs, List.map_map, List.map_map]
      rfl
    rw [hkeys]
    refine h.nodup.map_on fun ptr hptr ptr' hptr' heq => ?_
    obtain ⟨s, hs, rfl⟩ := List.mem_map.mp hptr
    obtain ⟨s', hs', rfl⟩ := List.mem_map.mp hptr'
    obtain ⟨r, hr, htable⟩ := h.slot s hs
    obtain ⟨r', hr', htable'⟩ := h.slot s' hs'
    rw [hr, hr', Option.getD_some, Option.getD_some] at heq
    rw [hr, hr', ← htable, ← htable', heq]
  · obtain ⟨q, hq, rfl⟩ := List.mem_map.mp hk
    obtain ⟨s, hs, rfl⟩ := List.mem_map.mp hq
    obtain ⟨r, hr, htable⟩ := h.slot s hs
    exact ⟨m.heap r, abs_entries_of_table (by rw [absSlot, hr]; exact htable)⟩

/-- The update of the record of a flow that is in the table. -/
theorem receiveMsg_refines_update (h : Linked m) {p : Packet} {r : Nat} (hk : m.flowTable p.key = some r) (us_now : ustime) :
    Linked (m.receiveMsg (.packet p) us_now).1 ∧ abs (m.receiveMsg (.packet p) us_now).1 =
      (abs m).receive (Q_SIZE - 1) (m.activeExpired us_now) (m.countPacket p us_now) p us_now := by
  simp only [receiveMsg, FlowTable.receive, hk, abs_entries_of_table hk]
  by_cases hlong : m.activeExpired us_now (m.heap r) = true
  · rw [if_pos hlong, if_pos hlong]
    obtain ⟨h₁, habs₁⟩ := h.modify hk (f := (·.expandInterval us_now)) (Flow.expandInterval_key _ _)
    have hrec₁ : (m.modify r (·.expandInterval us_now)).heap r = (m.heap r).expandInterval us_now := Function.update_self ..
    obtain ⟨h₂, habs₂, hrec₂⟩ := h₁.sendCopy (k := p.key) (r := r) hk
    generalize hm₂ : ((m.modify r (·.expandInterval us_now)).alloc ((m.modify r (·.expandInterval us_now)).heap r).clone).sendOut
      (m.modify r (·.expandInterval us_now)).next = m₂ at h₂ habs₂ hrec₂ ⊢
    have hk₂ : m₂.flowTable p.key = some r := by rw [← hm₂]; exact hk
    have hcount : (m₂.modify r Flow.reset).countPacket p us_now = m.countPacket p us_now := by rw [← hm₂]; rfl
    obtain ⟨h₃, habs₃⟩ := h₂.modify hk₂ (f := Flow.reset) rfl
    have hrec₃ : (m₂.modify r Flow.reset).heap r = (m₂.heap r).reset := Function.update_self ..
    obtain ⟨h₄, habs₄⟩ := h₃.modify (k := p.key) hk₂ (f := m.countPacket p us_now) (countPacket_key ..)
    rw [hcount]
    refine ⟨h₄, ?_⟩
    rw [habs₄, habs₃, habs₂, habs₁, hrec₃, hrec₂, hrec₁]
    simp only [Function.update_idem]
  · rw [if_neg hlong, if_neg hlong]
    exact h.modify hk (countPacket_key ..)

/-- The packet handler is `receive` of the flow table. -/
theorem receiveMsg_refines (h : Linked m) (p : Packet) (us_now : ustime) :
    Linked (m.receiveMsg (.packet p) us_now).1 ∧ abs (m.receiveMsg (.packet p) us_now).1 =
      (abs m).receive (Q_SIZE - 1) (m.activeExpired us_now) (m.countPacket p us_now) p us_now := by
  cases hk : m.flowTable p.key with
  | some r => exact receiveMsg_refines_update h hk us_now
  | none =>
    have hkey : (m.countPacket p us_now (Flow.new p.key)).key = p.key := countPacket_key ..
    obtain ⟨h₁, habs₁⟩ := h.insert_alloc hk hkey
    have hlen : (abs m).slots.length = m.slots.length := List.length_map _
    simp only [receiveMsg, FlowTable.receive, hk, abs_entries_eq_none.mpr hk, hlen]
    generalize hm₁ : (m.alloc (m.countPacket p us_now (Flow.new p.key))).insert p.key m.next = m₁ at h₁ habs₁ ⊢
    have hslots₁ : m₁.slots = m.slots := by rw [← hm₁]; rfl
    have hrec₁ : (m₁.heap m.next).key = p.key := by
      rw [← hm₁]
      exact (congrArg Flow.key (Function.update_self ..)).trans hkey
    have htable₁ : m₁.flowTable p.key = some m.next := by
      rw [← hm₁]
      exact Function.update_self ..
    by_cases hroom : m.slots.length + 1 < Q_SIZE
    · have hno : some m.next ∉ m₁.slots.map QueueSlot.flowPtr := by
        rw [hslots₁]
        intro hmem
        obtain ⟨s, hs, hptr⟩ := List.mem_map.mp hmem
        obtain ⟨r, hr, hlt⟩ := h.slot_lt hs
        rw [hptr, Option.some.injEq] at hr
        omega
      obtain ⟨m₂, hpush, h₂, habs₂⟩ := h₁.pushSlot m.next us_now (hslots₁ ▸ hroom) (hrec₁ ▸ htable₁) hno
      rw [hpush, if_pos (by omega)]
      refine ⟨h₂, ?_⟩
      rw [habs₂, habs₁, hrec₁]
    · rw [pushSlot_of_full h₁.inRange _ (hslots₁ ▸ hroom), if_neg (by omega)]
      exact ⟨h₁, habs₁⟩

end

/-- The step of the flow table that an event is. -/
def tableStep (m : FlowMeter) (t : FlowTable) : Input → Option FlowTable
  | .msg .other _ => some t
  | .msg (.packet p) us_now => some (t.receive (Q_SIZE - 1) (m.activeExpired us_now) (m.countPacket p us_now) p us_now)
  | .timer tnow fuel => t.check tnow (m.usLimit tnow) fuel

/-- Every event keeps the pointers linked and is a step of the flow table. -/
theorem step_refines {m m' : FlowMeter} {e : Input} (h : Linked m) (hs : m.step e = some m') :
    Linked m' ∧ m.tableStep (abs m) e = some (abs m') := by
  cases e with
  | msg msg us_now =>
    cases msg with
    | other =>
      cases hs
      exact ⟨h, rfl⟩
    | packet p =>
      cases hs
      obtain ⟨h', habs⟩ := receiveMsg_refines h p us_now
      exact ⟨h', congrArg some habs.symm⟩
  | timer tnow fuel =>
    obtain ⟨habs, hlinked⟩ := handleTimer_refines h tnow fuel
    have hs' : m.handleTimer tnow fuel = some m' := hs
    rw [hs'] at habs
    exact ⟨hlinked m' hs, habs.symm⟩

/-- The block that `_configure` leaves, with the parameters that it accepts. -/
theorem configured_eq_some {n : FlowMeterParams} {m : FlowMeter} : configured n = some m ↔ ∃ idle active,
    timeoutMs n.idleTimeout = .ok idle ∧ timeoutMs n.activeTimeout = .ok active ∧
      m = { new with
            idleTimeoutMs := (idle.map UInt32.toInt32).getD 500, activeTimeoutMs := active.getD 100,
            storePackets := n.storePackets.getD false } := by
  unfold configured configure
  cases timeoutMs n.idleTimeout with
  | error e => simp
  | ok idle =>
    cases timeoutMs n.activeTimeout with
    | error e => simp
    | ok active => simp [new, eq_comm]

/-- A block that was just configured has no flows. -/
theorem configured_linked {n : FlowMeterParams} {m : FlowMeter} (h : configured n = some m) :
    Linked m ∧ abs m = FlowTable.empty := by
  obtain ⟨idle, active, -, -, rfl⟩ := configured_eq_some.mp h
  generalize (idle.map UInt32.toInt32).getD 500 = idle, active.getD 100 = active, n.storePackets.getD false = store
  have hslots : ({ new with idleTimeoutMs := idle, activeTimeoutMs := active, storePackets := store } : FlowMeter).slots = [] :=
    Ring.window_self Q_SIZE_pos
  refine ⟨⟨⟨Q_SIZE_pos, Q_SIZE_pos⟩, ?_, ?_, ?_, ?_⟩, ?_⟩
  · rw [hslots]
    exact fun s hs => by cases hs
  · rw [hslots]
    exact List.nodup_nil
  · exact fun k r hk => by cases hk
  · exact fun r hr => by cases hr
  · rw [abs, hslots]
    rfl

/-! ## The parameters do not change -/

section

variable {m m' : FlowMeter}

/-- What `_configure` sets. -/
def settings (m : FlowMeter) : Int32 × UInt32 × Bool := (m.idleTimeoutMs, m.activeTimeoutMs, m.storePackets)

/-- Popping a slot keeps the settings. -/
theorem popSlot_settings {s : QueueSlot} (h : m.popSlot = some (s, m')) : m'.settings = m.settings := by
  unfold popSlot at h
  split at h <;> cases h
  rfl

/-- Pushing a slot keeps the settings. -/
theorem pushSlot_settings (s : QueueSlot) : (m.pushSlot s).2.settings = m.settings := by
  unfold pushSlot
  dsimp only
  split <;> rfl

/-- The loop of the timer keeps the settings. -/
theorem handleTimerLoop_settings (tnow us_limit : ustime) : ∀ (fuel : Nat) {m m' : FlowMeter},
    handleTimerLoop tnow us_limit fuel m = some m' → m'.settings = m.settings := by
  intro fuel
  induction fuel with
  | zero =>
    intro m m' h
    cases h
  | succ fuel ih =>
    intro m m' h
    rw [handleTimerLoop] at h
    split at h
    · cases h
      rfl
    · rename_i s m₁ hpop
      rw [← popSlot_settings hpop]
      split at h
      · cases h
      · dsimp only at h
        split at h
        · exact (ih h).trans rfl
        · split at h
          · cases h
            exact pushSlot_settings _
          · exact (ih h).trans (pushSlot_settings _)

/-- A message keeps the settings. -/
theorem receiveMsg_settings (msg : Msg) (us_now : ustime) : (m.receiveMsg msg us_now).1.settings = m.settings := by
  unfold receiveMsg
  split
  · rfl
  · split
    · dsimp only
      split
      · rename_i m₁ hpush
        exact (congrArg (fun q => settings q.2) hpush).symm.trans (pushSlot_settings _)
      · rename_i m₁ hpush
        exact (congrArg (fun q => settings q.2) hpush).symm.trans (pushSlot_settings _)
    · dsimp only
      split <;> rfl

/-- Every step keeps the settings. -/
theorem step_settings {e : Input} (h : m.step e = some m') : m'.settings = m.settings := by
  cases e with
  | msg msg us_now =>
    cases h
    exact receiveMsg_settings msg us_now
  | timer tnow fuel => exact handleTimerLoop_settings tnow _ fuel h

end

end FlowMeter

end Blockmon
