import Blockmon.Lemmas.DBQueueStages

/-!
# The atomic steps keep the stages

One statement for every kind of step, and from them `step_inv`: a step that does not give up on a slot keeps `QueueInv`.
-/

namespace Blockmon

open QueueLog DBQueue

variable {ι T : Type} {Qlen : Nat} {c : QueueConfig ι T} {st : Nat → Nat → Stage ι T} {g : Generations T}

/-- The consumer's position speaks of the slots and of the consumer's own variables only. -/
theorem ConsumerPc.Ok.congr {d d' : DBQueue T} {pc : ConsumerPc} (h : pc.Ok d) (hq : d'.queues = d.queues)
    (hc : d'.consumerQ = d.consumerQ) (hr : d'.read = d.read) (hf : d'.fullSlots = d.fullSlots) : pc.Ok d' := by
  cases pc <;> simp only [ConsumerPc.Ok, hq, hc, hr, hf] at h ⊢ <;> exact h

namespace QueueInv

/-! ## Steps that change no slot -/

/-- A producer that moves without changing the stage of its slot. -/
theorem goto [DecidableEq ι] (h : QueueInv Qlen c st g) (p : ι) (pc : ProducerPc T) (hpc : pc.Ok st p) :
    QueueInv Qlen (c.goto p pc) st g where
  __ := h
  producers := by
    intro p'
    by_cases hp : p' = p
    · subst hp
      simpa [QueueConfig.goto] using hpc
    · simpa [QueueConfig.goto, hp] using h.producers p'

theorem atConsumer (h : QueueInv Qlen c st g) (pc : ConsumerPc) (hpc : pc.Ok c.q) :
    QueueInv Qlen { c with consumer := pc } st g where
  __ := h
  consumer := hpc

/-- The full flag may have any value. -/
theorem storeFull (h : QueueInv Qlen c st g) (b : Bool) : QueueInv Qlen { c with q := { c.q with full := b } } st g where
  __ := h
  consumer := h.consumer.congr rfl rfl rfl rfl

/-- The return of a call is recorded. -/
theorem emit (h : QueueInv Qlen c st g) {e : QueueEvent ι T} (he : (∃ p v b, e = .pushed p v b) ∨ e = .popFalse) :
    QueueInv Qlen (c.emit e) st g := by
  have hacc : accepted (c.log ++ [e]) = accepted c.log := by
    rcases he with ⟨p, v, b, rfl⟩ | rfl <;> simp [accepted]
  have hpop : popped (c.log ++ [e]) = popped c.log := by
    rcases he with ⟨p, v, b, rfl⟩ | rfl <;> simp [popped]
  have hadds : adds (c.log ++ [e]) = adds c.log := by
    rcases he with ⟨p, v, b, rfl⟩ | rfl <;> rw [adds_snoc] <;> rfl
  have hdirty : ∀ q i, dirty (c.log ++ [e]) q i = dirty c.log q i := by
    intro q i
    rcases he with ⟨p, v, b, rfl⟩ | rfl <;> rw [dirty_snoc] <;> rfl
  exact {
    __ := h
    pointer := by rw [QueueConfig.emit, hadds]; exact h.pointer
    prod_length := by rw [QueueConfig.emit, hadds]; exact h.prod_length
    accepted_eq := by rw [QueueConfig.emit, hacc]; exact h.accepted_eq
    popped_eq := by rw [QueueConfig.emit, hpop]; exact h.popped_eq
    slots := by intro q i; rw [QueueConfig.emit, hdirty]; exact h.slots q i
    clean := by
      apply h.clean.snoc
      rintro p q i rfl
      rcases he with ⟨_, _, _, he⟩ | he <;> cases he }

end QueueInv

/-! ## The stage of one slot changes -/

/-- The other producers are not at the slot whose stage changes. -/
theorem ProducerPc.Ok.set {p : ι} {pc : ProducerPc T} {q i : Nat} {s : Stage ι T} (h : pc.Ok st p)
    (hne : ∀ v, st q i ≠ .owned p v ∧ st q i ≠ .written p v) : pc.Ok (Stage.set st q i s) p := by
  have hslot : ∀ q' i' x, st q' i' = x → (∀ v, x = .owned p v ∨ x = .written p v → ¬(q' = q ∧ i' = i)) := by
    rintro q' i' x rfl v hx ⟨rfl, rfl⟩
    rcases hx with hx | hx
    · exact (hne v).1 hx
    · exact (hne v).2 hx
  cases pc with
  | storeFull v q' i' => exact (Stage.set_ne (hslot q' i' _ h v (Or.inl rfl))).trans h
  | write v q' i' => exact (Stage.set_ne (hslot q' i' _ h v (Or.inl rfl))).trans h
  | publish v q' i' => exact (Stage.set_ne (hslot q' i' _ h v (Or.inr rfl))).trans h
  | _ => trivial

/-- A change of stage that keeps the message keeps the messages of all slots. -/
theorem Stage.set_message? {q i : Nat} {s : Stage ι T} (hs : s.message? = (st q i).message?) (q' i' : Nat) :
    (Stage.set st q i s q' i').message? = (st q' i').message? := by
  by_cases h : q' = q ∧ i' = i
  · obtain ⟨rfl, rfl⟩ := h
    rw [Stage.set_self, hs]
  · rw [Stage.set_ne h]

/-- The slots in another stage than the one that changes keep theirs. -/
theorem Stage.set_of_ne {q i q' i' : Nat} {s x : Stage ι T} (h : st q' i' = x) (hne : st q i ≠ x) :
    Stage.set st q i s q' i' = x := by
  rw [Stage.set_ne, h]
  rintro ⟨rfl, rfl⟩
  exact hne h

/-- The slots after one was overwritten and its stage changed. -/
theorem slots_set {d : DBQueue T} {q i : Nat} {s : Stage ι T} {x : Slot T} {b b' : Nat → Nat → Bool}
    (h : ∀ q i, (st q i).Ok (d.queues q i) (b q i)) (hs : s.Ok x (b' q i))
    (hb : ∀ q' i', ¬(q' = q ∧ i' = i) → b' q' i' = b q' i') :
    ∀ q' i', (Stage.set st q i s q' i').Ok ((d.setSlot q i x).queues q' i') (b' q' i') := by
  intro q' i'
  rw [setSlot_queues]
  by_cases hqi : q' = q ∧ i' = i
  · rw [if_pos hqi, hqi.1, hqi.2, Stage.set_self]
    exact hs
  · rw [if_neg hqi, Stage.set_ne hqi, hb q' i' hqi]
    exact h q' i'

/-- The consumer's position survives a store to a slot it has not been through, unless the store clears a valid bit. -/
theorem ConsumerPc.Ok.setSlot {d : DBQueue T} {pc : ConsumerPc} {q i : Nat} {x : Slot T} (h : pc.Ok d)
    (hval : (d.queues q i).valid = true → x.valid = true) (hfar : q = d.consumerQ → d.read ≤ i) : pc.Ok (d.setSlot q i x) := by
  have hother : ∀ j, j < d.read → (d.setSlot q i x).queues d.consumerQ j = d.queues d.consumerQ j := by
    intro j hj
    rw [setSlot_queues, if_neg]
    rintro ⟨rfl, rfl⟩
    have := hfar rfl
    omega
  cases pc with
  | take =>
    refine ⟨h.1, ?_⟩
    rw [setSlot_consumerQ, setSlot_read, setSlot_queues]
    split
    · rename_i hqi
      obtain ⟨hq, hi⟩ := hqi
      exact hval (by rw [← hq, ← hi]; exact h.2)
    · exact h.2
  | clear j =>
    refine ⟨h.1, h.2.1, fun k hk => ?_⟩
    have hread := h.1
    have hj := h.2.1
    rw [setSlot_consumerQ, hother k (by omega)]
    exact h.2.2 k hk
  | exchange =>
    refine ⟨h.1, fun k hk => ?_⟩
    have hread := h.1
    rw [setSlot_fullSlots] at hk
    rw [setSlot_consumerQ, hother k (by omega)]
    exact h.2 k hk
  | _ => trivial

namespace QueueInv

/-- A slot in a stage that is not `consumed` is not one the consumer has been through. -/
theorem read_le_of_stage (h : QueueInv Qlen c st g) {q i : Nat} (hs : st q i ≠ .consumed) : q = c.q.consumerQ → c.q.read ≤ i := by
  intro hq
  by_contra hlt
  apply hs
  rw [hq]
  exact h.cons_consumed i (by omega)

/-- A reservation inside the buffer: the first free slot of the producers' buffer is owned by `p`. -/
theorem reserve [DecidableEq ι] (h : QueueInv Qlen c st g) (hb : adds c.log + 1 < 2 ^ 30) (hi : adds c.log < Qlen) (p : ι) (v : T)
    {pc : ProducerPc T}
    (hpc : pc = .storeFull v (exchangeQueue c.q.consumerQ) (adds c.log) ∨
      pc = .write v (exchangeQueue c.q.consumerQ) (adds c.log)) :
    QueueInv Qlen
      (({ c with q := { c.q with pointer := c.q.pointer + 1 } }.goto p pc).emit
        (.fetchAdd p v (exchangeQueue c.q.consumerQ) (adds c.log) true))
      (Stage.set st (exchangeQueue c.q.consumerQ) (adds c.log) (.owned p v)) { g with prod := g.prod ++ [v] } := by
  have hlen : g.prod.length = adds c.log := by rw [h.prod_length]; omega
  have hfree : st (exchangeQueue c.q.consumerQ) (adds c.log) = .free := h.prod_free _ (by omega)
  have hne : ∀ i, ¬(c.q.consumerQ = exchangeQueue c.q.consumerQ ∧ i = adds c.log) :=
    fun i hc => exchangeQueue_ne _ hc.1.symm
  have hadds : adds (c.log ++ [.fetchAdd p v (exchangeQueue c.q.consumerQ) (adds c.log) true]) = adds c.log + 1 := adds_snoc _ _
  have hdirty : ∀ q i,
      dirty (c.log ++ [.fetchAdd p v (exchangeQueue c.q.consumerQ) (adds c.log) true]) q i = dirty c.log q i :=
    fun q i => dirty_snoc _ _ q i
  refine
    { consumerQ_lt := h.consumerQ_lt
      pointer := hadds ▸ h.pointer.succ hb
      prod_length := ?_
      cons_length := h.cons_length
      read_le := h.read_le
      accepted_eq := ?_
      popped_eq := ?_
      slots := ?_
      producers := ?_
      consumer := h.consumer.congr rfl rfl rfl rfl
      prod_message := ?_
      prod_free := ?_
      cons_consumed := ?_
      cons_message := ?_
      cons_free := ?_
      outside := ?_
      clean := h.clean.snoc _ (by rintro p q i hc; cases hc) }
  · simp only [QueueConfig.emit, QueueConfig.goto, hadds, List.length_append, List.length_singleton]
    omega
  · simp only [QueueConfig.emit, QueueConfig.goto, accepted_snoc, h.accepted_eq]
    simp [accepted]
  · simp only [QueueConfig.emit, QueueConfig.goto, popped_snoc, h.popped_eq]
    simp [popped]
  · intro q i
    simp only [QueueConfig.emit, QueueConfig.goto, hdirty]
    by_cases hqi : q = exchangeQueue c.q.consumerQ ∧ i = adds c.log
    · have hs := h.slots (exchangeQueue c.q.consumerQ) (adds c.log)
      rw [hfree] at hs
      rw [hqi.1, hqi.2, Stage.set_self]
      exact hs
    · rw [Stage.set_ne hqi]
      exact h.slots q i
  · intro p'
    by_cases hp : p' = p
    · subst hp
      simp only [QueueConfig.emit, QueueConfig.goto, Function.update_self]
      rcases hpc with rfl | rfl <;> exact Stage.set_self _ _ _ _
    · simp only [QueueConfig.emit, QueueConfig.goto, Function.update_of_ne hp]
      exact (h.producers p').set fun w => by rw [hfree]; exact ⟨nofun, nofun⟩
  · intro i w hw
    by_cases hi' : i = adds c.log
    · subst hi'
      rw [← hlen, List.getElem?_concat_length] at hw
      simp only [QueueConfig.emit, QueueConfig.goto, Stage.set_self]
      exact hw
    · have hlt : i < g.prod.length := by
        have := (List.getElem?_eq_some_iff.mp hw).1
        simp only [List.length_append, List.length_singleton] at this
        omega
      rw [List.getElem?_append_left hlt] at hw
      simp only [QueueConfig.emit, QueueConfig.goto]
      rw [Stage.set_ne (fun hc => hi' hc.2)]
      exact h.prod_message i w hw
  · intro i hi'
    simp only [List.length_append, List.length_singleton] at hi'
    simp only [QueueConfig.emit, QueueConfig.goto]
    rw [Stage.set_ne (by omega)]
    exact h.prod_free i (by omega)
  · intro i hi'
    exact (Stage.set_ne (hne i)).trans (h.cons_consumed i hi')
  · intro i w hi' hw
    simp only [QueueConfig.emit, QueueConfig.goto]
    rw [Stage.set_ne (hne i)]
    exact h.cons_message i w hi' hw
  · intro i hi'
    exact (Stage.set_ne (hne i)).trans (h.cons_free i hi')
  · intro q i hq
    have := exchangeQueue_lt c.q.consumerQ
    exact (Stage.set_ne (by omega)).trans (h.outside q i hq)

/-- A reservation beyond the end of the buffer changes no slot. -/
theorem overrun (h : QueueInv Qlen c st g) (hb : adds c.log + 1 < 2 ^ 30) (hi : Qlen ≤ adds c.log) (p : ι) (v : T) (q i : Nat) :
    QueueInv Qlen ({ c with q := { c.q with pointer := c.q.pointer + 1 } }.emit (.fetchAdd p v q i false)) st g := by
  have hadds : adds (c.log ++ [.fetchAdd p v q i false]) = adds c.log + 1 := adds_snoc _ _
  exact {
    __ := h
    pointer := hadds ▸ h.pointer.succ hb
    prod_length := by
      have := h.prod_length
      simp only [QueueConfig.emit, hadds]
      omega
    accepted_eq := by
      simp only [QueueConfig.emit, accepted_snoc, h.accepted_eq]
      simp [accepted]
    popped_eq := by
      simp only [QueueConfig.emit, popped_snoc, h.popped_eq]
      simp [popped]
    slots := by
      intro q' i'
      simp only [QueueConfig.emit, dirty_snoc]
      exact h.slots q' i'
    consumer := h.consumer.congr rfl rfl rfl rfl
    clean := h.clean.snoc _ (by rintro p q i hc; cases hc) }

/-- The stage of a producer's slot changes with the message kept: the payload is written, or the valid bit set. -/
theorem setStage [DecidableEq ι] (h : QueueInv Qlen c st g) {p : ι} {v : T} {q i : Nat} {s : Stage ι T} {x : Slot T}
    {pc : ProducerPc T} {e : QueueEvent ι T} (hst : st q i = .owned p v ∨ st q i = .written p v) (hs : s.message? = some v)
    (hok : s.Ok x (dirty (c.log ++ [e]) q i)) (hval : (c.q.queues q i).valid = true → x.valid = true)
    (hpc : pc.Ok (Stage.set st q i s) p) (he : e = .wrote p q i ∧ dirty c.log q i = false ∨ ∃ b, e = .pushed p v b) :
    QueueInv Qlen (({ c with q := c.q.setSlot q i x }.goto p pc).emit e) (Stage.set st q i s) g := by
  have hmsg : s.message? = (st q i).message? := by
    rcases hst with hst | hst <;> rw [hst, hs] <;> rfl
  have hfree : st q i ≠ .free := by rcases hst with hst | hst <;> rw [hst] <;> exact nofun
  have hcons : st q i ≠ .consumed := by rcases hst with hst | hst <;> rw [hst] <;> exact nofun
  have hadds : adds (c.log ++ [e]) = adds c.log := by
    rcases he with ⟨rfl, -⟩ | ⟨b, rfl⟩ <;> exact adds_snoc _ _
  have hacc : accepted (c.log ++ [e]) = accepted c.log := by
    rcases he with ⟨rfl, -⟩ | ⟨b, rfl⟩ <;> simp [accepted]
  have hpop : popped (c.log ++ [e]) = popped c.log := by
    rcases he with ⟨rfl, -⟩ | ⟨b, rfl⟩ <;> simp [popped]
  have hdirty : ∀ q' i', ¬(q' = q ∧ i' = i) → dirty (c.log ++ [e]) q' i' = dirty c.log q' i' := by
    intro q' i' hne
    rw [dirty_snoc]
    rcases he with ⟨rfl, -⟩ | ⟨b, rfl⟩
    · simp only [markDirty]
      rw [if_neg]
      rintro ⟨rfl, rfl⟩
      exact hne ⟨rfl, rfl⟩
    · rfl
  refine
    { consumerQ_lt := h.consumerQ_lt
      pointer := hadds ▸ h.pointer
      prod_length := hadds ▸ h.prod_length
      cons_length := h.cons_length
      read_le := h.read_le
      accepted_eq := hacc ▸ h.accepted_eq
      popped_eq := hpop ▸ h.popped_eq
      slots := slots_set h.slots hok hdirty
      producers := ?_
      consumer := h.consumer.setSlot hval (h.read_le_of_stage hcons)
      prod_message := fun j w hw => (Stage.set_message? hmsg _ _).trans (h.prod_message j w hw)
      prod_free := fun j hj => Stage.set_of_ne (h.prod_free j hj) hfree
      cons_consumed := fun j hj => Stage.set_of_ne (h.cons_consumed j hj) hcons
      cons_message := fun j w hj hw => (Stage.set_message? hmsg _ _).trans (h.cons_message j w hj hw)
      cons_free := fun j hj => Stage.set_of_ne (h.cons_free j hj) hfree
      outside := fun q' j hq => Stage.set_of_ne (h.outside q' j hq) hfree
      clean := ?_ }
  · intro p'
    by_cases hp : p' = p
    · subst hp
      simpa [QueueConfig.emit, QueueConfig.goto] using hpc
    · simp only [QueueConfig.emit, QueueConfig.goto, Function.update_of_ne hp]
      apply (h.producers p').set
      intro w
      rcases hst with hst | hst <;> rw [hst] <;> constructor <;> intro heq <;> cases heq <;> exact hp rfl
  · apply h.clean.snoc
    rintro p' q' i' rfl
    rcases he with ⟨he, hd⟩ | ⟨b, he⟩
    · cases he
      exact hd
    · cases he

/-- Writing the payload of an owned slot. -/
theorem write [DecidableEq ι] (h : QueueInv Qlen c st g) {p : ι} {v : T} {q i : Nat} (hst : st q i = .owned p v) :
    QueueInv Qlen (({ c with q := c.q.storePayload q i v }.goto p (.publish v q i)).emit (.wrote p q i))
      (Stage.set st q i (.written p v)) g := by
  have hs := h.slots q i
  rw [hst] at hs
  exact h.setStage (Or.inl hst) rfl ⟨hs.1, rfl⟩ id (Stage.set_self _ _ _ _) (Or.inl ⟨rfl, hs.2⟩)

/-- Setting the valid bit of a written slot. -/
theorem publish [DecidableEq ι] (h : QueueInv Qlen c st g) {p : ι} {v : T} {q i : Nat} (hst : st q i = .written p v) :
    QueueInv Qlen (({ c with q := c.q.storeValid q i true }.goto p .idle).emit (.pushed p v true))
      (Stage.set st q i (.ready v)) g := by
  have hs := h.slots q i
  rw [hst] at hs
  exact h.setStage (Or.inr hst) rfl ⟨rfl, hs.2⟩ (fun _ => rfl) trivial (Or.inr ⟨true, rfl⟩)

/-- The slot under the read index, when it is valid, is ready with the next message of the consumer's buffer. -/
theorem ready_of_valid (h : QueueInv Qlen c st g) (hlt : c.q.read < c.q.fullSlots)
    (hv : (c.q.queues c.q.consumerQ c.q.read).valid = true) :
    g.cons[c.q.read]? = some (c.q.queues c.q.consumerQ c.q.read).payload ∧
      st c.q.consumerQ c.q.read = .ready (c.q.queues c.q.consumerQ c.q.read).payload := by
  have hlen := h.cons_length
  have hget : g.cons[c.q.read]? = some (g.cons[c.q.read]) := List.getElem?_eq_getElem (by omega)
  obtain ⟨hst, hpay⟩ := (h.slots c.q.consumerQ c.q.read).ready_of_valid hv (h.cons_message _ _ (Nat.le_refl _) hget)
  rw [hpay]
  exact ⟨hget, hst⟩

/-- Moving the payload out of the slot under the read index. -/
theorem take [Inhabited T] (h : QueueInv Qlen c st g) (hlt : c.q.read < c.q.fullSlots)
    (hv : (c.q.queues c.q.consumerQ c.q.read).valid = true) :
    QueueInv Qlen ({ c with q := c.q.takeSlot.2, consumer := .idle }.emit (.popped c.q.consumerQ c.q.read c.q.takeSlot.1))
      (Stage.set st c.q.consumerQ c.q.read .consumed) g := by
  obtain ⟨hget, hst⟩ := h.ready_of_valid hlt hv
  have hne : ∀ i, ¬(exchangeQueue c.q.consumerQ = c.q.consumerQ ∧ i = c.q.read) := fun i hc => exchangeQueue_ne _ hc.1
  refine
    { consumerQ_lt := h.consumerQ_lt
      pointer := (adds_snoc c.log _).symm ▸ h.pointer
      prod_length := (adds_snoc c.log _).symm ▸ h.prod_length
      cons_length := h.cons_length
      read_le := hlt
      accepted_eq := ?_
      popped_eq := ?_
      slots := ?_
      producers := ?_
      consumer := trivial
      prod_message := ?_
      prod_free := fun i hi => (Stage.set_ne (hne i)).trans (h.prod_free i hi)
      cons_consumed := ?_
      cons_message := ?_
      cons_free := ?_
      outside := ?_
      clean := h.clean.snoc _ (by rintro p q i hc; cases hc) }
  · simp only [QueueConfig.emit, accepted_snoc, takeSlot, storePayload, h.accepted_eq]
    simp [accepted]
  · simp only [QueueConfig.emit, popped_snoc, h.popped_eq, takeSlot, storePayload, List.take_add_one, hget]
    simp [popped]
  · apply slots_set h.slots
    · show dirty _ _ _ = false
      rw [QueueConfig.emit, dirty_snoc]
      simp [markDirty]
    · intro q' i' hqi
      rw [QueueConfig.emit, dirty_snoc]
      simp only [markDirty]
      rw [if_neg]
      rintro ⟨rfl, rfl⟩
      exact hqi ⟨rfl, rfl⟩
  · intro p
    exact (h.producers p).set fun w => by rw [hst]; simp
  · intro i w hw
    rw [← h.prod_message i w hw]
    exact congrArg Stage.message? (Stage.set_ne (hne i))
  · intro i hi
    have hi' : i < c.q.read + 1 := hi
    by_cases heq : i = c.q.read
    · subst heq
      exact Stage.set_self _ _ _ _
    · exact (Stage.set_ne (fun hc => heq hc.2)).trans (h.cons_consumed i (by omega))
  · intro i w hi hw
    have hi' : c.q.read + 1 ≤ i := hi
    rw [← h.cons_message i w (by omega) hw]
    exact congrArg Stage.message? (Stage.set_ne (by omega))
  · intro i hi
    have hi' : c.q.fullSlots ≤ i := hi
    exact (Stage.set_ne (by omega)).trans (h.cons_free i hi')
  · intro q i hq
    have := h.consumerQ_lt
    exact (Stage.set_ne (by omega)).trans (h.outside q i hq)

/-- Clearing the valid bit of a slot the consumer has been through. -/
theorem clear (h : QueueInv Qlen c st g) {j : Nat} (hc : (ConsumerPc.clear j).Ok c.q) (hj : j < c.q.fullSlots) :
    QueueInv Qlen { c with q := c.q.storeValid c.q.consumerQ j false, consumer := .clear (j + 1) } st g where
  __ := h
  slots := by
    intro q i
    rw [storeValid, setSlot_queues]
    by_cases hqi : q = c.q.consumerQ ∧ i = j
    · have hs := h.slots q i
      have hcons : st q i = .consumed := by
        rw [hqi.1, hqi.2]
        exact h.cons_consumed j (by have := hc.1; omega)
      rw [hcons] at hs ⊢
      exact hs
    · rw [if_neg hqi]
      exact h.slots q i
  consumer := by
    refine ⟨hc.1, hj, fun i hi => ?_⟩
    rw [storeValid, setSlot_consumerQ, setSlot_queues]
    by_cases hij : i = j
    · rw [if_pos ⟨rfl, hij⟩]
    · rw [if_neg (fun hc => hij hc.2)]
      exact hc.2.2 i (by omega)

/-- The exchange of the pointer: the producers' generation becomes the consumer's, and the consumer's buffer, all of it
consumed and cleared, the producers' free one. -/
theorem exchange (h : QueueInv Qlen c st g) (hc : ConsumerPc.exchange.Ok c.q) :
    QueueInv Qlen ({ c with q := c.q.exchangePointer Qlen, consumer := .clearFull }.emit .swapped)
      (fun q i => if q = c.q.consumerQ then .free else st q i) ⟨g.done ++ g.cons, g.prod, []⟩ := by
  have hlen := h.cons_length
  have hread := hc.1
  have hqq := exchangeQueue_exchangeQueue h.consumerQ_lt
  have hadds : adds (c.log ++ [.swapped]) = 0 := adds_snoc _ _
  have hdirty : ∀ q i, dirty (c.log ++ [.swapped]) q i = dirty c.log q i := fun q i => dirty_snoc _ _ q i
  have hstage : ∀ i, st c.q.consumerQ i = .consumed ∨ st c.q.consumerQ i = .free := by
    intro i
    by_cases hi : i < c.q.read
    · exact Or.inl (h.cons_consumed i hi)
    · exact Or.inr (h.cons_free i (by omega))
  have hslots : min (mySlot c.q.pointer) Qlen = g.prod.length := by rw [h.pointer.mySlot, h.prod_length]
  refine
    { consumerQ_lt := exchangeQueue_lt _
      pointer := ?_
      prod_length := ?_
      cons_length := hslots.symm
      read_le := Nat.zero_le _
      accepted_eq := ?_
      popped_eq := ?_
      slots := ?_
      producers := ?_
      consumer := trivial
      prod_message := fun i v hv => by cases hv
      prod_free := fun i _ => if_pos hqq
      cons_consumed := fun i hi => absurd hi (Nat.not_lt_zero i)
      cons_message := ?_
      cons_free := ?_
      outside := ?_
      clean := h.clean.snoc _ (by rintro p q i hc; cases hc) }
  · simp only [QueueConfig.emit, exchangePointer, hadds, hqq]
    exact pointsTo_newpoint h.consumerQ_lt
  · simp only [QueueConfig.emit, hadds, List.length_nil, Nat.zero_min]
  · simp only [QueueConfig.emit, accepted_snoc, h.accepted_eq]
    simp [accepted]
  · simp only [QueueConfig.emit, popped_snoc, h.popped_eq, exchangePointer, hread, ← hlen, List.take_length]
    simp [popped]
  · intro q i
    simp only [QueueConfig.emit, exchangePointer, hdirty]
    by_cases hq : q = c.q.consumerQ
    · subst hq
      rw [if_pos rfl]
      have hs := h.slots c.q.consumerQ i
      by_cases hi : i < c.q.fullSlots
      · rw [h.cons_consumed i (by omega)] at hs
        exact ⟨hc.2 i hi, hs⟩
      · rw [h.cons_free i (by omega)] at hs
        exact hs
    · rw [if_neg hq]
      exact h.slots q i
  · -- no producer is at a slot of the consumer's buffer any more
    intro p
    have hp := h.producers p
    have hno : ∀ q i x, st q i = x → (∃ v, x = .owned p v ∨ x = .written p v) → q ≠ c.q.consumerQ := by
      rintro q i x hx ⟨v, hv⟩ rfl
      rcases hstage i with hs | hs <;> rw [hs] at hx <;> subst hx <;> rcases hv with hv | hv <;> cases hv
    simp only [QueueConfig.emit]
    cases hpc : c.producers p with
    | storeFull v q i =>
      rw [hpc] at hp
      exact (if_neg (hno q i _ hp ⟨v, Or.inl rfl⟩)).trans hp
    | write v q i =>
      rw [hpc] at hp
      exact (if_neg (hno q i _ hp ⟨v, Or.inl rfl⟩)).trans hp
    | publish v q i =>
      rw [hpc] at hp
      exact (if_neg (hno q i _ hp ⟨v, Or.inr rfl⟩)).trans hp
    | _ => trivial
  · intro i v _ hv
    rw [← h.prod_message i v hv]
    exact congrArg Stage.message? (if_neg (exchangeQueue_ne _))
  · intro i hi
    exact (if_neg (exchangeQueue_ne _)).trans (h.prod_free i (hslots ▸ hi))
  · intro q i hq
    have := h.consumerQ_lt
    exact (if_neg (by omega)).trans (h.outside q i hq)

end QueueInv

end Blockmon
