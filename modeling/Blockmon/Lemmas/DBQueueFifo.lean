import Blockmon.DBQueue

/-!
# The double-buffered queue refines a bounded FIFO

`Fifo` is what the queue is for: the messages the consumer has taken over, and behind them the at most `Qlen` messages accepted
since. `Refines Qlen d f` says that the member variables of `d` represent `f`; `push`, `pop` and `reset` keep it and give the
answers of `f`.
-/

namespace Blockmon

/-- A bounded FIFO in two parts. -/
structure Fifo (T : Type) where
  front : List T
  back : List T

namespace Fifo

variable {T : Type}

/-- The messages that are pending, in order. -/
def pending (f : Fifo T) : List T := f.front ++ f.back

/-- An empty queue. -/
def empty : Fifo T := ⟨[], []⟩

/-- A value is pushed unless the back is full. -/
def push (Qlen : Nat) (f : Fifo T) (v : T) : Bool × Fifo T :=
  if f.back.length = Qlen then (false, f) else (true, { f with back := f.back ++ [v] })

/-- The head of the first part, or, when that is empty, of the second one, which then becomes the first. -/
def pop (f : Fifo T) : Option T × Fifo T :=
  match f.front, f.back with
  | v :: vs, ws => (some v, ⟨vs, ws⟩)
  | [], v :: vs => (some v, ⟨vs, []⟩)
  | [], [] => (none, ⟨[], []⟩)

end Fifo

namespace DBQueue

variable {T : Type}

/-- The slots from `lo` on of a buffer hold the messages `vs`, valid, and those after them are not valid. -/
def Holds (buf : Nat → Slot T) (lo : Nat) (vs : List T) : Prop :=
  (∀ i v, vs[i]? = some v → buf (lo + i) = ⟨true, v⟩) ∧ ∀ i, lo + vs.length ≤ i → (buf i).valid = false

/-- The member variables of `d` represent `f`. -/
structure Refines (Qlen : Nat) (d : DBQueue T) (f : Fifo T) : Prop where
  consumerQ_lt : d.consumerQ < 2
  pointer : PointsTo d.pointer (exchangeQueue d.consumerQ) f.back.length
  back_le : f.back.length ≤ Qlen
  full_iff : d.full = true ↔ f.back.length = Qlen
  back : Holds (d.queues (exchangeQueue d.consumerQ)) 0 f.back
  fullSlots_le : d.fullSlots ≤ Qlen
  front_length : d.read + f.front.length = d.fullSlots
  front : Holds (d.queues d.consumerQ) d.read f.front

/-- No valid slot holds nothing. -/
theorem holds_nil {buf : Nat → Slot T} (h : ∀ i, (buf i).valid = false) : Holds buf 0 [] :=
  ⟨by simp, fun i _ => h i⟩

/-- A message published behind the others. -/
theorem Holds.snoc {buf : Nat → Slot T} {vs : List T} (h : Holds buf 0 vs) (v : T) :
    Holds (Function.update buf vs.length ⟨true, v⟩) 0 (vs ++ [v]) := by
  obtain ⟨h1, h2⟩ := h
  refine ⟨?_, ?_⟩
  · intro i w hw
    rw [Nat.zero_add]
    rcases Nat.lt_trichotomy i vs.length with hi | hi | hi
    · rw [List.getElem?_append_left hi] at hw
      rw [Function.update_of_ne (by omega), ← h1 i w hw, Nat.zero_add]
    · subst hi
      rw [List.getElem?_concat_length] at hw
      rw [Function.update_self, Option.some.inj hw]
    · rw [List.getElem?_eq_none (by simp; omega)] at hw
      cases hw
  · intro i hi
    rw [List.length_append, List.length_singleton] at hi
    rw [Function.update_of_ne (by omega)]
    exact h2 i (by omega)

/-- The first message taken out: what the slot holds afterwards does not matter. -/
theorem Holds.tail {buf : Nat → Slot T} {lo : Nat} {v : T} {vs : List T} (h : Holds buf lo (v :: vs)) (s : Slot T) :
    Holds (Function.update buf lo s) (lo + 1) vs := by
  obtain ⟨h1, h2⟩ := h
  refine ⟨?_, ?_⟩
  · intro i w hw
    rw [Function.update_of_ne (by omega), ← h1 (i + 1) w (by simpa using hw)]
    congr 1
    omega
  · intro i hi
    rw [Function.update_of_ne (by omega)]
    exact h2 i (by simp only [List.length_cons]; omega)

/-! ## The loops -/

/-- The fold that clears `n` valid bits of buffer `q`, slot by slot. -/
theorem foldl_storeValid (d : DBQueue T) (q n : Nat) :
    (List.range n).foldl (fun d' i => d'.storeValid q i false) d =
      { d with queues := fun q' i => if q' = q ∧ i < n then { d.queues q' i with valid := false } else d.queues q' i } := by
  induction n with
  | zero => simp
  | succ n ih =>
    rw [List.range_succ, List.foldl_append, ih]
    simp only [List.foldl_cons, List.foldl_nil, storeValid, setSlot]
    congr 1
    funext q' i
    by_cases hq : q' = q
    · subst hq
      by_cases hi : i = n
      · subst hi; simp
      · simp only [Function.update_self, Function.update_of_ne hi, true_and]
        have hlt : i < n + 1 ↔ i < n := by omega
        simp only [hlt]
    · simp [hq]

/-- The slots that the consumer had are cleared. -/
theorem clearValid_eq (d : DBQueue T) :
    d.clearValid = { d with queues := fun q i =>
      if q = d.consumerQ ∧ i < d.fullSlots then { d.queues q i with valid := false } else d.queues q i } :=
  foldl_storeValid d d.consumerQ d.fullSlots

/-- `takeSlot` gives the payload and leaves the slot to be cleared. -/
theorem takeSlot_eq [Inhabited T] {d : DBQueue T} {v : T} (h : d.queues d.consumerQ d.read = ⟨true, v⟩) :
    d.takeSlot = (v, { d.setSlot d.consumerQ d.read ⟨true, default⟩ with read := d.read + 1 }) := by
  simp [takeSlot, storePayload, h]

/-! ## The operations -/

variable {Qlen : Nat}

/-- A new queue is empty. -/
theorem new_refines [Inhabited T] (h : 1 ≤ Qlen) : Refines Qlen (DBQueue.new : DBQueue T) Fifo.empty where
  consumerQ_lt := Nat.one_lt_two
  pointer := pointsTo_zero
  back_le := Nat.zero_le _
  full_iff := by simp [DBQueue.new, Fifo.empty]; omega
  back := holds_nil fun _ => rfl
  fullSlots_le := Nat.zero_le _
  front_length := rfl
  front := holds_nil fun _ => rfl

/-- The reservation of `push`: the pointer has moved by one and the message stands in the slot it selected. -/
theorem Refines.accept {d : DBQueue T} {f : Fifo T} (h : Refines Qlen d f) (hQ : Qlen < 2 ^ 30) (hlt : f.back.length < Qlen)
    (v : T) {b : Bool} (hb : b = true ↔ f.back.length + 1 = Qlen) :
    Refines Qlen (({ d with pointer := d.pointer + 1, full := b } : DBQueue T).setSlot (exchangeQueue d.consumerQ)
      f.back.length ⟨true, v⟩) { f with back := f.back ++ [v] } where
  consumerQ_lt := h.consumerQ_lt
  pointer := by
    simp only [List.length_append, List.length_singleton]
    exact h.pointer.succ (by omega)
  back_le := by simp only [List.length_append, List.length_singleton]; omega
  full_iff := by simp only [List.length_append, List.length_singleton]; exact hb
  back := by
    have := h.back.snoc v
    simpa [setSlot] using this
  fullSlots_le := h.fullSlots_le
  front_length := h.front_length
  front := by
    have hne : d.consumerQ ≠ exchangeQueue d.consumerQ := fun e => exchangeQueue_ne _ e.symm
    simpa [setSlot, Function.update_of_ne hne] using h.front

/-- A push refines that of the queue. -/
theorem push_refines {d : DBQueue T} {f : Fifo T} (h : Refines Qlen d f) (hQ : Qlen < 2 ^ 30) (v : T) :
    (d.push Qlen v).1 = (f.push Qlen v).1 ∧ Refines Qlen (d.push Qlen v).2 (f.push Qlen v).2 := by
  have hle := h.back_le
  by_cases hf : d.full = true
  · have hlen := h.full_iff.mp hf
    simp only [push, Fifo.push, hf, hlen, if_true]
    exact ⟨trivial, h⟩
  · have hlen : f.back.length ≠ Qlen := fun e => hf (h.full_iff.mpr e)
    have hfalse : d.full = false := by simpa using hf
    simp only [push, Fifo.push, hlen, hfalse, if_false, h.pointer.mySlot, h.pointer.curQueue, publish_eq]
    -- the last slot also sets the full flag
    by_cases hlast : f.back.length = Qlen - 1
    · rw [if_neg Bool.false_ne_true, if_pos (by omega), if_pos hlast]
      exact ⟨rfl, h.accept hQ (by omega) v (by simp; omega)⟩
    · rw [if_neg Bool.false_ne_true, if_neg (by omega)]
      have key := h.accept hQ (by omega) v (b := false) (by simp; omega)
      exact ⟨rfl, key⟩

/-- `consume` on a consumer's buffer that still holds a message takes the first one. -/
theorem consume_cons [Inhabited T] {d : DBQueue T} {f : Fifo T} (h : Refines Qlen d f) {v : T} {vs : List T}
    (hf : f.front = v :: vs) :
    (d.consume).1 = some v ∧ Refines Qlen (d.consume).2 { f with front := vs } := by
  have hlen := h.front_length
  rw [hf, List.length_cons] at hlen
  have hslot : d.queues d.consumerQ d.read = ⟨true, v⟩ := by
    have := h.front.1 0 v (by rw [hf]; rfl)
    simpa using this
  obtain ⟨n, hn⟩ : ∃ n, d.fullSlots - d.read = n + 1 := ⟨vs.length, by omega⟩
  have hval : (d.queues d.consumerQ d.read).valid = true := by rw [hslot]
  have heq : d.consume = (some v, { d.setSlot d.consumerQ d.read ⟨true, default⟩ with read := d.read + 1 }) := by
    simp only [consume, hn, consumeLoop, awaitValid_eq, hval, takeSlot_eq hslot, if_true]
    rw [if_pos (by omega)]
  rw [heq]
  refine ⟨rfl, h.consumerQ_lt, h.pointer, h.back_le, h.full_iff, ?_, h.fullSlots_le, ?_, ?_⟩
  · simpa [setSlot, Function.update_of_ne (exchangeQueue_ne _)] using h.back
  · show d.read + 1 + vs.length = d.fullSlots
    omega
  · have := h.front
    rw [hf] at this
    simpa [setSlot] using this.tail ⟨true, default⟩

/-- `consume` on a consumer's buffer that is used up changes nothing. -/
theorem consume_nil [Inhabited T] {d : DBQueue T} {f : Fifo T} (h : Refines Qlen d f) (hf : f.front = []) :
    d.consume = (none, d) := by
  have hlen := h.front_length
  rw [hf, List.length_nil] at hlen
  have h0 : d.fullSlots - d.read = 0 := by omega
  simp only [consume, h0, consumeLoop]

/-- Swapping hands the producers' messages to the consumer, and the cleared buffer to the producers. -/
theorem swapQueues_refines {d : DBQueue T} {f : Fifo T} (h : Refines Qlen d f) (hQ : 1 ≤ Qlen) (hf : f.front = []) :
    Refines Qlen (d.swapQueues Qlen) ⟨f.back, []⟩ := by
  have hlen := h.front_length
  rw [hf, List.length_nil, Nat.add_zero] at hlen
  have hslots : min (mySlot d.pointer) Qlen = f.back.length := by
    rw [h.pointer.mySlot, Nat.min_eq_left h.back_le]
  have hqq := exchangeQueue_exchangeQueue h.consumerQ_lt
  rw [swapQueues_eq, clearValid_eq]
  refine ⟨exchangeQueue_lt _, ?_, Nat.zero_le _, ?_, ?_, Nat.min_le_right _ _, ?_, ?_⟩
  · simp only [exchangePointer, hqq]
    exact pointsTo_newpoint h.consumerQ_lt
  · simp only [List.length_nil]
    constructor
    · intro hc; cases hc
    · intro hc; omega
  · -- every slot of the old consumer's buffer is cleared, or was never filled
    simp only [exchangePointer, hqq]
    apply holds_nil
    intro i
    by_cases hi : i < d.fullSlots
    · rw [if_pos ⟨trivial, hi⟩]
    · rw [if_neg (fun hc => hi hc.2)]
      exact h.front.2 i (by rw [hf, List.length_nil]; omega)
  · simp only [exchangePointer, hslots, Nat.zero_add]
  · simp only [exchangePointer]
    have hne : ∀ i, ¬(exchangeQueue d.consumerQ = d.consumerQ ∧ i < d.fullSlots) :=
      fun i hc => exchangeQueue_ne _ hc.1
    simp only [hne, if_false]
    exact h.back

/-- A pop refines that of the queue. -/
theorem pop_refines [Inhabited T] {d : DBQueue T} {f : Fifo T} (h : Refines Qlen d f) (hQ : 1 ≤ Qlen) :
    (d.pop Qlen).1 = f.pop.1 ∧ Refines Qlen (d.pop Qlen).2 f.pop.2 := by
  cases hfr : f.front with
  | cons v vs =>
    obtain ⟨h1, h2⟩ := consume_cons h hfr
    have hpop : d.pop Qlen = (some v, (d.consume).2) := by
      unfold pop
      split
      · rename_i w d' hd
        rw [hd] at h1
        rw [hd, Option.some.inj h1]
      · rename_i d' hd
        rw [hd] at h1
        cases h1
    rw [hpop]
    simp only [Fifo.pop, hfr]
    exact ⟨trivial, h2⟩
  | nil =>
    have hpop : d.pop Qlen = (d.swapQueues Qlen).consume := by
      simp only [pop, consume_nil h hfr]
    rw [hpop]
    have hs := swapQueues_refines h hQ hfr
    cases hbk : f.back with
    | cons v vs =>
      obtain ⟨h1, h2⟩ := consume_cons hs hbk
      simp only [Fifo.pop, hfr, hbk]
      exact ⟨h1, h2⟩
    | nil =>
      rw [consume_nil hs hbk]
      simp only [Fifo.pop, hfr, hbk]
      exact ⟨trivial, hbk ▸ hs⟩

/-- A reset slot is not valid. -/
theorem resetSlot_valid [Inhabited T] (s : Slot T) : (resetSlot s).valid = false := by
  unfold resetSlot
  split
  · rfl
  · rename_i h
    simpa using h

/-- After `reset` no slot is valid: a slot beyond the `Qlen` that the loops visit never was. -/
theorem reset_invalid [Inhabited T] {d : DBQueue T} {f : Fifo T} (h : Refines Qlen d f) {q : Nat} (hq : q < 2)
    (i : Nat) : ((d.reset Qlen).queues q i).valid = false := by
  simp only [reset]
  by_cases hi : i < Qlen
  · rw [if_pos ⟨hq, hi⟩]
    exact resetSlot_valid _
  · rw [if_neg (fun hc => hi hc.2)]
    have hcq := h.consumerQ_lt
    have hlen := h.front_length
    have hback := h.back_le
    have hfull := h.fullSlots_le
    by_cases hqc : q = d.consumerQ
    · subst hqc
      exact h.front.2 i (by omega)
    · have hqe : q = exchangeQueue d.consumerQ := by
        unfold exchangeQueue
        split <;> omega
      subst hqe
      exact h.back.2 i (by omega)

/-- A reset empties the queue. -/
theorem reset_refines [Inhabited T] {d : DBQueue T} {f : Fifo T} (h : Refines Qlen d f) (hQ : 1 ≤ Qlen) :
    Refines Qlen (d.reset Qlen) Fifo.empty where
  consumerQ_lt := Nat.one_lt_two
  pointer := pointsTo_zero
  back_le := Nat.zero_le _
  full_iff := by simp [reset, Fifo.empty]; omega
  back := holds_nil fun i => reset_invalid h (exchangeQueue_lt _) i
  fullSlots_le := Nat.zero_le _
  front_length := rfl
  front := holds_nil fun i => reset_invalid h Nat.one_lt_two i

end DBQueue

end Blockmon
