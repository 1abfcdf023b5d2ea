import Blockmon.DBQueueConc

/-!
# The stages of a slot

While nobody gives up on a slot, the message of every slot goes through the stages `free`, `owned` by a producer, `written`,
`ready` and `consumed`. `Inv` ties the stages of all slots to the member variables, to the positions of the producers and of the
consumer, and to the history: the accepted messages are those of the generations the consumer is through with (`done`), those of
its own buffer (`cons`) and those of the producers' buffer (`prod`).

The reservations of one generation race with the swap, and the full flag may be set late, for a later generation, or cleared
after the new buffer is full already. None of this matters: `Inv` does not speak of the flag, and a producer is always inside the
consumer's unread slots or the producers' reserved ones.
-/

namespace Blockmon

open QueueLog

/-! ## The history after one more event -/

namespace QueueLog

variable {ι T : Type} (log : List (QueueEvent ι T)) (e : QueueEvent ι T)

/-- What is accepted with the last event. -/
theorem accepted_snoc : accepted (log ++ [e]) = accepted log ++ accepted [e] := List.filterMap_append

/-- What is returned with the last event. -/
theorem returned_snoc : returned (log ++ [e]) = returned log ++ returned [e] := List.filterMap_append

/-- What is popped with the last event. -/
theorem popped_snoc : popped (log ++ [e]) = popped log ++ popped [e] := List.filterMap_append

/-- The additions with the last event. -/
theorem adds_snoc : adds (log ++ [e]) = countAdd (adds log) e := by
  rw [adds, List.foldl_append]
  rfl

/-- The dirty slots with the last event. -/
theorem dirty_snoc (q i : Nat) : dirty (log ++ [e]) q i = markDirty q i (dirty log q i) e := by
  rw [dirty, List.foldl_append]
  rfl

variable {log}

/-- In a part of a log no push is given up either. -/
theorem NeverAbandoned.of_earlier {l : List (QueueEvent ι T)} (h : NeverAbandoned log) (hl : l <+: log) : NeverAbandoned l :=
  fun q i hm => h q i (hl.subset hm)

/-- In a part of a log there are not more additions. -/
theorem BoundedAdds.of_earlier {l : List (QueueEvent ι T)} (h : BoundedAdds log) (hl : l <+: log) : BoundedAdds l :=
  fun l' hl' => h l' (hl'.trans hl)

/-- Every write was made to a slot whose last payload had been popped. -/
def CleanWrites (log : List (QueueEvent ι T)) : Prop := ∀ l p q i, l ++ [.wrote p q i] <+: log → dirty l q i = false

/-- One more write to a clean slot. -/
theorem CleanWrites.snoc (h : CleanWrites log) (he : ∀ p q i, e = .wrote p q i → dirty log q i = false) :
    CleanWrites (log ++ [e]) := by
  intro l p q i hl
  rcases List.prefix_concat_iff.mp hl with heq | hpre
  · obtain ⟨h1, h2⟩ := List.append_inj' heq rfl
    rw [h1]
    exact he p q i (List.singleton_inj.mp h2).symm
  · exact h l p q i hpre

/-- A slot stays dirty as long as it is not popped. -/
theorem foldl_markDirty {q i : Nat} {l : List (QueueEvent ι T)} (h : ∀ v, .popped q i v ∉ l) :
    l.foldl (markDirty q i) true = true := by
  induction l with
  | nil => rfl
  | cons e l ih =>
    have he : markDirty q i true e = true := by
      cases e with
      | popped q' i' v =>
        simp only [markDirty]
        rw [if_neg]
        rintro ⟨rfl, rfl⟩
        exact h v List.mem_cons_self
      | _ => simp [markDirty]
    rw [List.foldl_cons, he]
    exact ih fun v hv => h v (List.mem_cons_of_mem _ hv)

/-- Clean writes are no double ones. -/
theorem CleanWrites.noDoubleWrite (h : CleanWrites log) : NoDoubleWrite log := by
  intro l₁ l₂ l₃ p p' q i heq
  by_contra hno
  have hclean : dirty (l₁ ++ .wrote p q i :: l₂) q i = false := by
    apply h _ p'
    rw [heq, List.append_cons _ _ l₃]
    exact List.prefix_append _ _
  have hdirty : dirty (l₁ ++ .wrote p q i :: l₂) q i = true := by
    rw [dirty, List.foldl_append, List.foldl_cons]
    have hset : ∀ b, markDirty q i b (.wrote p q i : QueueEvent ι T) = true := by simp [markDirty]
    rw [hset]
    exact foldl_markDirty fun v hv => hno ⟨v, hv⟩
  rw [hclean] at hdirty
  cases hdirty

end QueueLog

/-! ## Stages -/

/-- How far the message of a slot has come. -/
inductive Stage (ι T : Type) where
  | free
  /-- Reserved for the message `v` of producer `p`. -/
  | owned (p : ι) (v : T)
  /-- The payload is written, the valid bit not set. -/
  | written (p : ι) (v : T)
  | ready (v : T)
  | consumed

namespace Stage

variable {ι T : Type}

/-- The message that was reserved and not popped. -/
def message? : Stage ι T → Option T
  | .owned _ v | .written _ v | .ready v => some v
  | .free | .consumed => none

/-- What a stage says about the slot and about whether it is dirty. -/
def Ok (s : Slot T) (dirty : Bool) : Stage ι T → Prop
  | .free | .owned _ _ => s.valid = false ∧ dirty = false
  | .written _ v => s.valid = false ∧ s.payload = v
  | .ready v => s.valid = true ∧ s.payload = v
  | .consumed => dirty = false

/-- A valid slot with an unread message is ready. -/
theorem Ok.ready_of_valid {s : Slot T} {b : Bool} {st : Stage ι T} {v : T} (h : st.Ok s b) (hv : s.valid = true)
    (hm : st.message? = some v) : st = .ready v ∧ s.payload = v := by
  cases st with
  | free => cases hm
  | consumed => cases hm
  | owned p w => rw [h.1] at hv; cases hv
  | written p w => rw [h.1] at hv; cases hv
  | ready w =>
    cases Option.some.inj hm
    exact ⟨rfl, h.2⟩

/-- Where a stage has an unread message, the slot shows that message or is not valid. -/
theorem Ok.message?_slot {s : Slot T} {b : Bool} {st : Stage ι T} {v w : T} (h : st.Ok s b) (hm : st.message? = some v)
    (hw : s.message? = some w) : w = v := by
  have hval : s.valid = true := by
    by_contra hn
    rw [Slot.message?, if_neg hn] at hw
    cases hw
  rw [Slot.message?, if_pos hval] at hw
  rw [← Option.some.inj hw]
  exact (h.ready_of_valid hval hm).2

/-- Overwrite the stage of one slot. -/
def set (st : Nat → Nat → Stage ι T) (q i : Nat) (s : Stage ι T) : Nat → Nat → Stage ι T :=
  fun q' i' => if q' = q ∧ i' = i then s else st q' i'

/-- The slot that was set. -/
theorem set_self (st : Nat → Nat → Stage ι T) (q i : Nat) (s : Stage ι T) : set st q i s q i = s := if_pos ⟨rfl, rfl⟩

/-- The other slots. -/
theorem set_ne {st : Nat → Nat → Stage ι T} {q i q' i' : Nat} {s : Stage ι T} (h : ¬(q' = q ∧ i' = i)) :
    set st q i s q' i' = st q' i' := if_neg h

end Stage

/-- What a producer's position says about the stage of its slot. -/
def ProducerPc.Ok {ι T : Type} (st : Nat → Nat → Stage ι T) (p : ι) : ProducerPc T → Prop
  | .storeFull v q i | .write v q i => st q i = .owned p v
  | .publish v q i => st q i = .written p v
  | .idle | .loadFull _ | .fetchAdd _ => True

/-- What the consumer's position says about its buffer. -/
def ConsumerPc.Ok {T : Type} (d : DBQueue T) : ConsumerPc → Prop
  | .take => d.read < d.fullSlots ∧ (d.queues d.consumerQ d.read).valid = true
  | .clear j => d.read = d.fullSlots ∧ j ≤ d.fullSlots ∧ ∀ i, i < j → (d.queues d.consumerQ i).valid = false
  | .exchange => d.read = d.fullSlots ∧ ∀ i, i < d.fullSlots → (d.queues d.consumerQ i).valid = false
  | .idle | .load _ _ | .clearFull => True

/-- The messages of the three kinds of generation. -/
structure Generations (T : Type) where
  done : List T
  cons : List T
  prod : List T

open DBQueue in
/-- The invariant of a run in which nobody gives up on a slot. -/
structure QueueInv {ι T : Type} (Qlen : Nat) (c : QueueConfig ι T) (st : Nat → Nat → Stage ι T) (g : Generations T) : Prop where
  consumerQ_lt : c.q.consumerQ < 2
  pointer : PointsTo c.q.pointer (exchangeQueue c.q.consumerQ) (adds c.log)
  prod_length : g.prod.length = min (adds c.log) Qlen
  cons_length : g.cons.length = c.q.fullSlots
  read_le : c.q.read ≤ c.q.fullSlots
  accepted_eq : accepted c.log = g.done ++ g.cons ++ g.prod
  popped_eq : popped c.log = g.done ++ g.cons.take c.q.read
  slots : ∀ q i, (st q i).Ok (c.q.queues q i) (dirty c.log q i)
  producers : ∀ p, (c.producers p).Ok st p
  consumer : c.consumer.Ok c.q
  prod_message : ∀ i v, g.prod[i]? = some v → (st (exchangeQueue c.q.consumerQ) i).message? = some v
  prod_free : ∀ i, g.prod.length ≤ i → st (exchangeQueue c.q.consumerQ) i = .free
  cons_consumed : ∀ i, i < c.q.read → st c.q.consumerQ i = .consumed
  cons_message : ∀ i v, c.q.read ≤ i → g.cons[i]? = some v → (st c.q.consumerQ i).message? = some v
  cons_free : ∀ i, c.q.fullSlots ≤ i → st c.q.consumerQ i = .free
  outside : ∀ q i, 2 ≤ q → st q i = .free
  clean : CleanWrites c.log

end Blockmon
