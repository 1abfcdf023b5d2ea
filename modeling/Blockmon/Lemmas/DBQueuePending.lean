import Blockmon.Lemmas.DBQueueSteps

/-!
# Nothing accepted gets lost

While nobody gives up on a slot, the messages whose push returned true are, each once, those that were popped and those that
later pops still find. Together with `QueueInv` this is kept by every step (`step_sound`), so it holds after every run
(`after_sound`).
-/

namespace Blockmon

open QueueLog DBQueue Collect

variable {ι T : Type} {Qlen : Nat} {c : QueueConfig ι T} {st : Nat → Nat → Stage ι T} {g : Generations T}

/-- Every message whose push returned true was popped or is pending, and only those are, each once. -/
def Conserved (Qlen : Nat) (c : QueueConfig ι T) : Prop := (returned c.log).Perm (popped c.log ++ c.q.pending Qlen)

/-- A step that changes neither the pending messages nor what was returned and popped. -/
theorem Conserved.congr {c' : QueueConfig ι T} (h : Conserved Qlen c) (hr : returned c'.log = returned c.log)
    (hp : popped c'.log = popped c.log) (hq : c'.q.pending Qlen = c.q.pending Qlen) : Conserved Qlen c' := by
  unfold Conserved
  rw [hr, hp, hq]
  exact h

/-- The messages of the slots of a buffer. -/
def bufMessages (d : DBQueue T) (q : Nat) : Nat → Option T := fun i => (d.queues q i).message?

/-- The pending messages, with the producers' buffer named by the consumer's. -/
theorem QueueInv.pending_eq (h : QueueInv Qlen c st g) :
    c.q.pending Qlen = collect (bufMessages c.q c.q.consumerQ) c.q.read c.q.fullSlots ++
      collect (bufMessages c.q (exchangeQueue c.q.consumerQ)) 0 g.prod.length := by
  rw [DBQueue.pending, h.pointer.curQueue, h.pointer.mySlot, ← h.prod_length]
  rfl

/-- An invalid slot has no message. -/
theorem message?_of_invalid {s : Slot T} (h : s.valid = false) : s.message? = none := by
  rw [Slot.message?, h]
  rfl

/-- A valid slot has its payload. -/
theorem message?_of_valid {s : Slot T} (h : s.valid = true) : s.message? = some s.payload := by
  rw [Slot.message?, h]
  rfl

/-- The messages of a buffer after one slot was overwritten. -/
theorem bufMessages_setSlot (d : DBQueue T) (q i : Nat) (x : Slot T) (q' i' : Nat) :
    bufMessages (d.setSlot q i x) q' i' = if q' = q ∧ i' = i then x.message? else bufMessages d q' i' := by
  unfold bufMessages
  rw [setSlot_queues]
  split <;> rfl

/-- A slot with an unread message lies in the unread part of the consumer's buffer or in the reserved part of the producers'. -/
theorem QueueInv.locate (h : QueueInv Qlen c st g) {q i : Nat} {v : T} (hm : (st q i).message? = some v) :
    (q = c.q.consumerQ ∧ c.q.read ≤ i ∧ i < c.q.fullSlots) ∨ (q = exchangeQueue c.q.consumerQ ∧ i < g.prod.length) := by
  have hfree : st q i ≠ .free := by
    intro hf
    rw [hf] at hm
    cases hm
  have hlt : q < 2 := by
    by_contra hge
    exact hfree (h.outside q i (by omega))
  by_cases hq : q = c.q.consumerQ
  · subst hq
    left
    refine ⟨rfl, ?_, ?_⟩
    · by_contra hlt
      rw [h.cons_consumed i (by omega)] at hm
      cases hm
    · by_contra hge
      exact hfree (h.cons_free i (by omega))
  · right
    have hqe : q = exchangeQueue c.q.consumerQ := by
      have := h.consumerQ_lt
      unfold exchangeQueue
      split <;> omega
    subst hqe
    refine ⟨rfl, ?_⟩
    by_contra hge
    exact hfree (h.prod_free i (by omega))

/-- Overwriting a slot by one that shows the same message, or none as before, keeps the pending messages. -/
theorem pending_setSlot (d : DBQueue T) {q i : Nat} {x : Slot T} (hx : x.message? = (d.queues q i).message?) :
    (d.setSlot q i x).pending Qlen = d.pending Qlen := by
  have hbuf : ∀ q' i', ((d.setSlot q i x).queues q' i').message? = (d.queues q' i').message? := by
    intro q' i'
    rw [setSlot_queues]
    split
    · rename_i hqi
      rw [hx, hqi.1, hqi.2]
    · rfl
  simp only [DBQueue.pending, hbuf, setSlot_consumerQ, setSlot_read, setSlot_fullSlots, setSlot_pointer]

/-- Setting the valid bit of a written slot makes its message pending. -/
theorem pending_publish (h : QueueInv Qlen c st g) {p : ι} {v : T} {q i : Nat} (hst : st q i = .written p v) :
    ((c.q.storeValid q i true).pending Qlen).Perm (v :: c.q.pending Qlen) := by
  have hs := h.slots q i
  rw [hst] at hs
  have hx : ({ c.q.queues q i with valid := true } : Slot T).message? = some v := by
    rw [message?_of_valid rfl, ← hs.2]
  have hold : bufMessages c.q q i = none := message?_of_invalid hs.1
  have hnew : ∀ q' i', bufMessages (c.q.storeValid q i true) q' i' =
      if q' = q ∧ i' = i then some v else bufMessages c.q q' i' := by
    intro q' i'
    rw [storeValid, bufMessages_setSlot, hx]
  have hpend : (c.q.storeValid q i true).pending Qlen =
      collect (bufMessages (c.q.storeValid q i true) c.q.consumerQ) c.q.read c.q.fullSlots ++
        collect (bufMessages (c.q.storeValid q i true) (exchangeQueue c.q.consumerQ)) 0 g.prod.length := by
    rw [DBQueue.pending, h.prod_length]
    simp only [storeValid, setSlot_pointer, h.pointer.curQueue, h.pointer.mySlot]
    rfl
  rw [hpend, h.pending_eq]
  have hne := exchangeQueue_ne c.q.consumerQ
  rcases h.locate (v := v) (by rw [hst]; rfl) with ⟨hq, h1, h2⟩ | ⟨hq, h2⟩
  · have hprod : collect (bufMessages (c.q.storeValid q i true) (exchangeQueue c.q.consumerQ)) 0 g.prod.length =
        collect (bufMessages c.q (exchangeQueue c.q.consumerQ)) 0 g.prod.length := by
      apply collect_congr
      intro j _ _
      rw [hnew, if_neg]
      rintro ⟨hqq, -⟩
      exact hne (hqq.trans hq)
    rw [hprod, ← List.cons_append]
    apply List.Perm.append_right
    subst hq
    refine collect_define_perm h1 h2 hold ?_ ?_
    · rw [hnew, if_pos ⟨rfl, rfl⟩]
    · intro j hj
      rw [hnew, if_neg (fun hc => hj hc.2)]
  · have hcons : collect (bufMessages (c.q.storeValid q i true) c.q.consumerQ) c.q.read c.q.fullSlots =
        collect (bufMessages c.q c.q.consumerQ) c.q.read c.q.fullSlots := by
      apply collect_congr
      intro j _ _
      rw [hnew, if_neg]
      rintro ⟨hqq, -⟩
      exact hne (hq.symm.trans hqq.symm)
    rw [hcons]
    refine List.Perm.trans ?_ List.perm_middle
    apply List.Perm.append_left
    subst hq
    refine collect_define_perm (Nat.zero_le i) h2 hold ?_ ?_
    · rw [hnew, if_pos ⟨rfl, rfl⟩]
    · intro j hj
      rw [hnew, if_neg (fun hc => hj hc.2)]

/-- A reservation brings no message: its slot is free. -/
theorem pending_reserve (h : QueueInv Qlen c st g) (hb : adds c.log + 1 < 2 ^ 30) :
    ({ c.q with pointer := c.q.pointer + 1 } : DBQueue T).pending Qlen = c.q.pending Qlen := by
  have hsucc := h.pointer.succ hb
  simp only [DBQueue.pending, hsucc.curQueue, hsucc.mySlot, h.pointer.curQueue, h.pointer.mySlot]
  congr 1
  by_cases hi : adds c.log < Qlen
  · rw [Nat.min_eq_left (by omega), Nat.min_eq_left (by omega)]
    apply collect_succ_none
    have hlen := h.prod_length
    have hs := h.slots (exchangeQueue c.q.consumerQ) (adds c.log)
    rw [h.prod_free _ (by omega)] at hs
    exact message?_of_invalid hs.1
  · rw [Nat.min_eq_right (by omega), Nat.min_eq_right (by omega)]

/-- Moving the payload out removes the first pending message. -/
theorem pending_take [Inhabited T] (h : QueueInv Qlen c st g) (hlt : c.q.read < c.q.fullSlots)
    (hv : (c.q.queues c.q.consumerQ c.q.read).valid = true) :
    c.q.pending Qlen = c.q.takeSlot.1 :: c.q.takeSlot.2.pending Qlen := by
  have hne := exchangeQueue_ne c.q.consumerQ
  have hnew : ∀ q' i', ¬(q' = c.q.consumerQ ∧ i' = c.q.read) → (c.q.takeSlot.2.queues q' i').message? = bufMessages c.q q' i' := by
    intro q' i' hqi
    have := bufMessages_setSlot c.q c.q.consumerQ c.q.read { c.q.queues c.q.consumerQ c.q.read with payload := default } q' i'
    rw [if_neg hqi] at this
    exact this
  have hprod : collect (fun i => (c.q.takeSlot.2.queues (exchangeQueue c.q.consumerQ) i).message?) 0 g.prod.length =
      collect (bufMessages c.q (exchangeQueue c.q.consumerQ)) 0 g.prod.length :=
    collect_congr fun j _ _ => hnew _ _ fun hc => hne hc.1
  have hcons : collect (fun i => (c.q.takeSlot.2.queues c.q.consumerQ i).message?) (c.q.read + 1) c.q.fullSlots =
      collect (bufMessages c.q c.q.consumerQ) (c.q.read + 1) c.q.fullSlots :=
    collect_congr fun j hj _ => hnew _ _ fun hc => by omega
  have hafter : c.q.takeSlot.2.pending Qlen =
      collect (fun i => (c.q.takeSlot.2.queues c.q.consumerQ i).message?) (c.q.read + 1) c.q.fullSlots ++
        collect (fun i => (c.q.takeSlot.2.queues (exchangeQueue c.q.consumerQ) i).message?) 0 g.prod.length := by
    rw [h.prod_length, DBQueue.pending]
    simp only [takeSlot, storePayload, setSlot_pointer, setSlot_consumerQ, setSlot_fullSlots, h.pointer.curQueue,
      h.pointer.mySlot]
  have hfirst : bufMessages c.q c.q.consumerQ c.q.read = some c.q.takeSlot.1 := message?_of_valid hv
  rw [h.pending_eq, collect_cons hlt hfirst, hafter, hcons, hprod]
  rfl

/-- The exchange of the pointer keeps the pending messages: those of the producers' buffer are now the consumer's. -/
theorem pending_exchange (h : QueueInv Qlen c st g) (hread : c.q.read = c.q.fullSlots) :
    (c.q.exchangePointer Qlen).pending Qlen = c.q.pending Qlen := by
  have hnew := pointsTo_newpoint (d := c.q) h.consumerQ_lt
  have hslots : min (mySlot c.q.pointer) Qlen = g.prod.length := by rw [h.pointer.mySlot, h.prod_length]
  rw [h.pending_eq, collect_of_le (by omega), List.nil_append, DBQueue.pending]
  simp only [exchangePointer, hnew.mySlot, hslots, Nat.zero_min]
  rw [collect_of_le (Nat.le_refl 0), List.append_nil]
  rfl

/-! ## Every step -/

/-- The invariant and the conservation of the messages. -/
def Sound (Qlen : Nat) (c : QueueConfig ι T) : Prop := ∃ st g, QueueInv Qlen c st g ∧ Conserved Qlen c

/-- The history of a run in which nobody gives up on a slot and the pointer does not overflow into its high bits. -/
def Calm (log : List (QueueEvent ι T)) : Prop := NeverAbandoned log ∧ BoundedAdds log

/-- A part of a calm log is calm. -/
theorem Calm.of_earlier {l log : List (QueueEvent ι T)} (hl : l <+: log) (h : Calm log) : Calm l :=
  ⟨h.1.of_earlier hl, h.2.of_earlier hl⟩

/-- The reservation recorded last was not the one too many. -/
theorem Calm.adds_lt {log l : List (QueueEvent ι T)} {p : ι} {v : T} {q i : Nat} {b : Bool}
    (h : Calm (log ++ .fetchAdd p v q i b :: l)) : adds log + 1 < 2 ^ 30 := by
  have hpre : log ++ [.fetchAdd p v q i b] <+: log ++ .fetchAdd p v q i b :: l := ⟨l, by simp⟩
  have := h.2 _ hpre
  rwa [adds_snoc] at this

/-- A new queue is sound. -/
theorem new_sound [Inhabited T] : Sound Qlen (QueueConfig.new : QueueConfig ι T) := by
  refine ⟨fun _ _ => .free, ⟨[], [], []⟩, ?_, ?_⟩
  · exact {
      consumerQ_lt := Nat.one_lt_two
      pointer := pointsTo_zero
      prod_length := (Nat.zero_min Qlen).symm
      cons_length := rfl
      read_le := Nat.le_refl _
      accepted_eq := rfl
      popped_eq := rfl
      slots := fun _ _ => ⟨rfl, rfl⟩
      producers := fun _ => trivial
      consumer := trivial
      prod_message := fun _ _ hv => by cases hv
      prod_free := fun _ _ => rfl
      cons_consumed := fun i hi => absurd hi (Nat.not_lt_zero i)
      cons_message := fun _ _ _ hv => by cases hv
      cons_free := fun _ _ => rfl
      outside := fun _ _ _ => rfl
      clean := fun l p q i hl => by simp [QueueConfig.new] at hl }
  · have hslot : mySlot 0 = 0 := pointsTo_zero.mySlot
    simp [Conserved, QueueConfig.new, DBQueue.new, DBQueue.pending, returned, popped, hslot, collect]

/-- A step of a producer. -/
theorem producerStep_sound [DecidableEq ι] (hQ : 1 ≤ Qlen) {c' : QueueConfig ι T} {p : ι} (h : Sound Qlen c)
    (hs : c.producerStep Qlen p = some c') (hcalm : Calm c'.log) : Sound Qlen c' := by
  obtain ⟨st, g, hinv, hcon⟩ := h
  have hp := hinv.producers p
  unfold QueueConfig.producerStep at hs
  split at hs
  · cases hs
  · rename_i v hpc
    split at hs <;> cases hs
    · refine ⟨st, g, (hinv.goto p .idle trivial).emit (Or.inl ⟨p, v, false, rfl⟩), hcon.congr ?_ ?_ rfl⟩
      · simp [QueueConfig.emit, QueueConfig.goto, returned]
      · simp [QueueConfig.emit, QueueConfig.goto, popped]
    · exact ⟨st, g, hinv.goto p _ trivial, hcon⟩
  · rename_i v hpc
    rw [hinv.pointer.curQueue, hinv.pointer.mySlot] at hs
    dsimp only at hs
    split at hs
    · split at hs <;> cases hs
      · -- the last slot of the buffer
        have hb := hcalm.adds_lt
        refine ⟨_, _, hinv.reserve hb (by omega) p v (Or.inl rfl), hcon.congr ?_ ?_ (pending_reserve hinv hb)⟩
        · simp [QueueConfig.emit, QueueConfig.goto, returned]
        · simp [QueueConfig.emit, QueueConfig.goto, popped]
      · -- beyond the buffer
        have hb : adds c.log + 1 < 2 ^ 30 := by
          have := hcalm
          simp only [QueueConfig.emit, QueueConfig.goto, List.append_assoc, List.singleton_append] at this
          exact this.adds_lt
        refine ⟨st, g, ?_, hcon.congr ?_ ?_ (pending_reserve hinv hb)⟩
        · have := (hinv.overrun hb (by omega) p v (exchangeQueue c.q.consumerQ) (adds c.log)).goto p .idle trivial
          exact this.emit (Or.inl ⟨p, v, false, rfl⟩)
        · simp [QueueConfig.emit, QueueConfig.goto, returned]
        · simp [QueueConfig.emit, QueueConfig.goto, popped]
    · cases hs
      have hb := hcalm.adds_lt
      refine ⟨_, _, hinv.reserve hb (by omega) p v (Or.inr rfl), hcon.congr ?_ ?_ (pending_reserve hinv hb)⟩
      · simp [QueueConfig.emit, QueueConfig.goto, returned]
      · simp [QueueConfig.emit, QueueConfig.goto, popped]
  · rename_i v q i hpc
    cases hs
    rw [hpc] at hp
    exact ⟨st, g, (hinv.storeFull true).goto p _ hp, hcon⟩
  · rename_i v q i hpc
    cases hs
    rw [hpc] at hp
    have hslot := hinv.slots q i
    rw [(hp : st q i = _)] at hslot
    refine ⟨_, g, hinv.write hp, hcon.congr ?_ ?_ ?_⟩
    · simp [QueueConfig.emit, QueueConfig.goto, returned]
    · simp [QueueConfig.emit, QueueConfig.goto, popped]
    · apply pending_setSlot
      rw [message?_of_invalid hslot.1]
      exact message?_of_invalid hslot.1
  · rename_i v q i hpc
    cases hs
    rw [hpc] at hp
    refine ⟨_, g, hinv.publish hp, ?_⟩
    have hpend := pending_publish hinv hp
    simp only [Conserved, QueueConfig.emit, QueueConfig.goto, returned_snoc, popped_snoc]
    have h1 : returned ([.pushed p v true] : List (QueueEvent ι T)) = [v] := rfl
    have h2 : popped ([.pushed p v true] : List (QueueEvent ι T)) = [] := rfl
    rw [h1, h2, List.append_nil]
    calc returned c.log ++ [v]
        _ |>.Perm (v :: returned c.log) := List.perm_append_singleton _ _
        _ |>.Perm (v :: (popped c.log ++ c.q.pending Qlen)) := List.Perm.cons v hcon
        _ |>.Perm (popped c.log ++ v :: c.q.pending Qlen) := List.perm_middle.symm
        _ |>.Perm (popped c.log ++ (c.q.storeValid q i true).pending Qlen) := List.Perm.append_left _ hpend.symm

variable [Inhabited T]

/-- A step of the consumer. -/
theorem consumerStep_sound {c' : QueueConfig ι T} (h : Sound Qlen c) (hs : c.consumerStep Qlen = some c')
    (hcalm : Calm c'.log) : Sound Qlen c' := by
  obtain ⟨st, g, hinv, hcon⟩ := h
  have hc := hinv.consumer
  unfold QueueConfig.consumerStep at hs
  split at hs
  · cases hs
  · rename_i second tries hpc
    split at hs
    · rename_i hlt
      split at hs
      · rename_i hv
        cases hs
        exact ⟨st, g, hinv.atConsumer _ ⟨hlt, hv⟩, hcon⟩
      · split at hs <;> cases hs
        · exact ⟨st, g, hinv.atConsumer _ trivial, hcon⟩
        · -- giving up is what the history excludes
          exact absurd (List.mem_append_right c.log (List.mem_singleton_self _)) (hcalm.1 c.q.consumerQ c.q.read)
    · rename_i hge
      split at hs <;> cases hs
      · refine ⟨st, g, (hinv.atConsumer .idle trivial).emit (Or.inr rfl), hcon.congr ?_ ?_ rfl⟩
        · simp [QueueConfig.emit, returned]
        · simp [QueueConfig.emit, popped]
      · have hread := hinv.read_le
        refine ⟨st, g, hinv.atConsumer _ ⟨by omega, Nat.zero_le _, fun i hi => absurd hi (Nat.not_lt_zero i)⟩, hcon⟩
  · rename_i hpc
    cases hs
    rw [hpc] at hc
    refine ⟨_, g, hinv.take hc.1 hc.2, ?_⟩
    have hpend := pending_take hinv hc.1 hc.2
    have h1 : returned ([.popped c.q.consumerQ c.q.read c.q.takeSlot.1] : List (QueueEvent ι T)) = [] := rfl
    have h2 : popped ([.popped c.q.consumerQ c.q.read c.q.takeSlot.1] : List (QueueEvent ι T)) = [c.q.takeSlot.1] := rfl
    simp only [Conserved, QueueConfig.emit, returned_snoc, popped_snoc, h1, h2, List.append_nil, List.append_assoc,
      List.singleton_append]
    rw [← hpend]
    exact hcon
  · rename_i j hpc
    rw [hpc] at hc
    split at hs
    · rename_i hj
      cases hs
      refine ⟨st, g, hinv.clear hc hj, hcon.congr rfl rfl ?_⟩
      -- neither part of the pending messages has the cleared slot
      have hne := exchangeQueue_ne c.q.consumerQ
      have hread := hc.1
      have hbuf : ∀ i, ((c.q.storeValid c.q.consumerQ j false).queues (exchangeQueue c.q.consumerQ) i).message? =
          (c.q.queues (exchangeQueue c.q.consumerQ) i).message? := by
        intro i
        rw [storeValid, setSlot_queues, if_neg (fun hc => hne hc.1)]
      simp only [DBQueue.pending]
      rw [collect_of_le (f := fun i => (c.q.queues c.q.consumerQ i).message?) (by omega)]
      rw [collect_of_le (by simp only [storeValid, setSlot_read, setSlot_fullSlots]; omega)]
      simp only [storeValid, setSlot_pointer, hinv.pointer.curQueue] at hbuf ⊢
      simp only [hbuf]
    · rename_i hj
      cases hs
      have hj' : c.q.fullSlots = j := by have := hc.2.1; omega
      exact ⟨st, g, hinv.atConsumer _ ⟨hc.1, hj' ▸ hc.2.2⟩, hcon⟩
  · rename_i hpc
    cases hs
    rw [hpc] at hc
    refine ⟨_, _, hinv.exchange hc, hcon.congr ?_ ?_ (pending_exchange hinv hc.1)⟩
    · simp [QueueConfig.emit, returned]
    · simp [QueueConfig.emit, popped]
  · cases hs
    exact ⟨st, g, (hinv.storeFull false).atConsumer _ trivial, hcon⟩

/-- A step keeps the queue sound, as long as the log is calm. -/
theorem step_sound [DecidableEq ι] (hQ : 1 ≤ Qlen) {c' : QueueConfig ι T} {a : QueueAct ι T} (h : Sound Qlen c)
    (hs : c.step Qlen a = some c') (hcalm : Calm c'.log) : Sound Qlen c' := by
  cases a with
  | push p v =>
    obtain ⟨st, g, hinv, hcon⟩ := h
    simp only [QueueConfig.step] at hs
    split at hs <;> cases hs
    exact ⟨st, g, hinv.goto p _ trivial, hcon⟩
  | producer p => exact producerStep_sound hQ h hs hcalm
  | pop =>
    obtain ⟨st, g, hinv, hcon⟩ := h
    simp only [QueueConfig.step] at hs
    split at hs <;> cases hs
    exact ⟨st, g, hinv.atConsumer _ trivial, hcon⟩
  | consumer => exact consumerStep_sound h hs hcalm

/-- Every step only adds to the history. -/
theorem step_log [DecidableEq ι] {c' : QueueConfig ι T} {a : QueueAct ι T} (hs : c.step Qlen a = some c') : c.log <+: c'.log := by
  cases a with
  | push p v =>
    simp only [QueueConfig.step] at hs
    split at hs <;> cases hs
    exact List.prefix_refl _
  | pop =>
    simp only [QueueConfig.step] at hs
    split at hs <;> cases hs
    exact List.prefix_refl _
  | producer p =>
    simp only [QueueConfig.step] at hs
    unfold QueueConfig.producerStep at hs
    dsimp only at hs
    repeat' split at hs
    all_goals cases hs
    all_goals simp [QueueConfig.goto, QueueConfig.emit]
  | consumer =>
    simp only [QueueConfig.step] at hs
    unfold QueueConfig.consumerStep at hs
    repeat' split at hs
    all_goals cases hs
    all_goals simp [QueueConfig.emit]

/-- Every run whose history is calm ends in a sound configuration. -/
theorem after_sound [DecidableEq ι] (hQ : 1 ≤ Qlen) {acts : List (QueueAct ι T)} {c : QueueConfig ι T}
    (hr : QueueConfig.after Qlen acts = some c) (hcalm : Calm c.log) : Sound Qlen c :=
  Lts.run_inv_of_log QueueConfig.log (G := Calm) (fun _ _ _ hs => step_log hs) (fun _ _ hl h => h.of_earlier hl)
    (fun _ _ _ h hs hcalm => step_sound hQ h hs hcalm) new_sound hr hcalm

end Blockmon
