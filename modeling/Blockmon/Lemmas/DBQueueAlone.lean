import Blockmon.Lemmas.DBQueueFifo
import Blockmon.Lemmas.DBQueueStages

/-!
# Calls that are not interrupted

A party that makes all the steps of a call while no other party moves computes what the function of the complete call computes,
and the call ends with the same result.
-/

namespace Blockmon

open DBQueue QueueConfig QueueLog Lts

variable {ι T : Type} [DecidableEq ι] [Inhabited T] {Qlen : Nat} {c : QueueConfig ι T}

/-- Two histories have the same results of pushes and pops. -/
def QueueLog.SameResults (l l' : List (QueueEvent ι T)) : Prop := returned l = returned l' ∧ popped l = popped l'

omit [DecidableEq ι] [Inhabited T] in
theorem QueueLog.SameResults.trans {l₁ l₂ l₃ : List (QueueEvent ι T)} (h : SameResults l₁ l₂) (h' : SameResults l₂ l₃) :
    SameResults l₁ l₃ :=
  ⟨h.1.trans h'.1, h.2.trans h'.2⟩

omit [DecidableEq ι] [Inhabited T] in
/-- One event less that is no result. -/
theorem QueueLog.SameResults.snoc {l l' : List (QueueEvent ι T)} {e : QueueEvent ι T} (h : SameResults l (l' ++ [e])) (hret : returned [e] = [])
    (hpop : popped [e] = []) : SameResults l l' := by
  obtain ⟨h1, h2⟩ := h
  rw [returned_snoc, hret, List.append_nil] at h1
  rw [popped_snoc, hpop, List.append_nil] at h2
  exact ⟨h1, h2⟩

/-! ## A producer -/

/-- The configuration at the end of a `push` of `p`. -/
def QueueConfig.afterPush (c : QueueConfig ι T) (p : ι) (v : T) (past : List (QueueEvent ι T)) (r : Bool × DBQueue T) : QueueConfig ι T :=
  ({ c with q := r.2, log := past }.goto p .idle).emit (.pushed p v r.1)

/-- The steps of a producer that holds a slot. -/
theorem publish_alone {p : ι} {v : T} {q i : Nat} (hpc : c.producers p = .write v q i) :
    ∃ past, SameResults past c.log ∧ Repeats (step Qlen) (.producer p) c (afterPush c p v past (true, c.q.publish q i v)) := by
  refine ⟨c.log ++ [.wrote p q i], by simp [SameResults, returned, popped],
    Repeats.head (m := ({ c with q := c.q.storePayload q i v }.goto p (.publish v q i)).emit (.wrote p q i)) ?_
      (Repeats.head ?_ (Repeats.refl _ _))⟩
  · simp [step, producerStep, hpc]
  · simp [step, producerStep, afterPush, QueueConfig.goto, QueueConfig.emit, DBQueue.publish]

omit [Inhabited T] in
/-- Where a producer was does not matter at the end of its `push`. -/
theorem afterPush_goto (c : QueueConfig ι T) (p : ι) (v : T) (pc : ProducerPc T) (past : List (QueueEvent ι T)) (r : Bool × DBQueue T) :
    afterPush (c.goto p pc) p v past r = afterPush c p v past r := by
  simp [afterPush, QueueConfig.goto]

/-- The steps of a producer that found the queue not full. -/
theorem reserve_alone {p : ι} {v : T} (hpc : c.producers p = .fetchAdd v) (hfull : c.q.full = false) :
    ∃ past, SameResults past c.log ∧ Repeats (step Qlen) (.producer p) c (afterPush c p v past (c.q.push Qlen v)) := by
  let q := curQueue c.q.pointer
  let i := mySlot c.q.pointer
  let d : DBQueue T := { c.q with pointer := c.q.pointer + 1 }
  rw [DBQueue.push, if_neg (by rw [hfull]; exact Bool.false_ne_true)]
  by_cases hlast : i ≥ Qlen - 1
  · by_cases heq : i = Qlen - 1
    · -- the last slot: the full flag is set first
      let c₁ := ({ c with q := d }.goto p (.storeFull v q i)).emit (.fetchAdd p v q i true)
      let c₂ := { c₁ with q := { d with full := true } }.goto p (.write v q i)
      have hadd : step Qlen c (.producer p) = some c₁ := by
        simp only [step, producerStep, hpc]
        rw [if_pos hlast, if_pos heq]
      have hset : step Qlen c₁ (.producer p) = some c₂ := by
        simp [step, producerStep, c₁, c₂, QueueConfig.goto, QueueConfig.emit]
      obtain ⟨past, hsame, hrest⟩ : ∃ past, SameResults past c₂.log ∧
          Repeats (step Qlen) (.producer p) c₂ (afterPush c₂ p v past (true, c₂.q.publish q i v)) :=
        publish_alone (Function.update_self ..)
      have hend : afterPush c₂ p v past (true, c₂.q.publish q i v) = afterPush c p v past (true, c₂.q.publish q i v) :=
        (afterPush_goto ..).trans (afterPush_goto ..)
      rw [hend] at hrest
      refine ⟨past, hsame.snoc rfl rfl, ?_⟩
      dsimp only
      rw [if_pos hlast, if_pos heq]
      exact Repeats.head hadd (Repeats.head hset hrest)
    · refine ⟨c.log ++ [.fetchAdd p v q i false], by simp [SameResults, returned, popped], Repeats.head ?_ (Repeats.refl _ _)⟩
      dsimp only
      rw [if_pos hlast, if_neg heq]
      simp only [step, producerStep, hpc]
      rw [if_pos hlast, if_neg heq]
      rfl
  · let c₁ := ({ c with q := d }.goto p (.write v q i)).emit (.fetchAdd p v q i true)
    have hadd : step Qlen c (.producer p) = some c₁ := by
      simp only [step, producerStep, hpc]
      rw [if_neg hlast]
    obtain ⟨past, hsame, hrest⟩ : ∃ past, SameResults past c₁.log ∧
        Repeats (step Qlen) (.producer p) c₁ (afterPush c₁ p v past (true, d.publish q i v)) := publish_alone (Function.update_self ..)
    have hend : afterPush c₁ p v past (true, d.publish q i v) = afterPush c p v past (true, d.publish q i v) := afterPush_goto ..
    rw [hend] at hrest
    refine ⟨past, hsame.snoc rfl rfl, ?_⟩
    dsimp only
    rw [if_neg hlast]
    exact Repeats.head hadd hrest

/-- A producer that moves alone goes through `push`. -/
theorem producer_alone {p : ι} {v : T} (hpc : c.producers p = .loadFull v) :
    ∃ past, SameResults past c.log ∧ Repeats (step Qlen) (.producer p) c (afterPush c p v past (c.q.push Qlen v)) := by
  cases hfull : c.q.full with
  | true =>
    refine ⟨c.log, ⟨rfl, rfl⟩, Repeats.head ?_ (Repeats.refl _ _)⟩
    simp [step, producerStep, hpc, DBQueue.push, afterPush, hfull]
  | false =>
    have hload : step Qlen c (.producer p) = some (c.goto p (.fetchAdd v)) := by simp [step, producerStep, hpc, hfull]
    let c₁ := c.goto p (.fetchAdd v)
    obtain ⟨past, hsame, hrest⟩ : ∃ past, SameResults past c₁.log ∧
        Repeats (step Qlen) (.producer p) c₁ (afterPush c₁ p v past (c₁.q.push Qlen v)) := reserve_alone (Function.update_self ..) hfull
    rw [afterPush_goto] at hrest
    exact ⟨past, hsame, Repeats.head hload hrest⟩

/-! ## The consumer -/

/-- The attempts on a slot that is not valid end with the next slot. -/
theorem attempts_alone (Qlen : Nat) {second : Bool} (hpc : c.consumer = .load second 0) (hlt : c.q.read < c.q.fullSlots)
    (hinvalid : (c.q.queues c.q.consumerQ c.q.read).valid = false) : Repeats (step Qlen) .consumer c
      ({ c with q := { c.q with read := c.q.read + 1 } }.emit (.abandoned c.q.consumerQ c.q.read)) := by
  have hleft : ∀ (left tries : Nat), tries + left + 1 = 100 → Repeats (step Qlen) .consumer { c with consumer := .load second tries }
      ({ c with q := { c.q with read := c.q.read + 1 }, consumer := .load second 0 }.emit (.abandoned c.q.consumerQ c.q.read)) := by
    intro left
    induction left with
    | zero =>
      intro tries htries
      refine Repeats.head ?_ (Repeats.refl _ _)
      simp [step, consumerStep, hlt, hinvalid]
      omega
    | succ left ih =>
      intro tries htries
      refine Repeats.head ?_ (ih (tries + 1) (by omega))
      simp [step, consumerStep, hlt, hinvalid]
      omega
  have hall := hleft 99 0 rfl
  rwa [← hpc] at hall

/-- The event at the end of a `pop`; the slot of a message is the one before the read index. -/
def QueueConfig.popEvent : Option T × DBQueue T → QueueEvent ι T
  | (some v, d) => .popped d.consumerQ (d.read - 1) v
  | (none, _) => .popFalse

/-- The configuration at the end of a `consume`: the call returned true, or it is about to find that there is no slot left. -/
def QueueConfig.afterConsume (second : Bool) (c : QueueConfig ι T) (past : List (QueueEvent ι T)) (r : Option T × DBQueue T) :
    QueueConfig ι T :=
  match r.1 with
  | some _ => { c with q := r.2, consumer := .idle, log := past ++ [popEvent r] }
  | none => { c with q := r.2, consumer := .load second 0, log := past }

/-- The consumer that moves alone goes through the loop of `consume`. -/
theorem consumeLoop_alone {second : Bool} : ∀ (n : Nat) {c : QueueConfig ι T}, c.q.fullSlots - c.q.read = n →
    c.consumer = .load second 0 →
    ∃ past, SameResults past c.log ∧ Repeats (step Qlen) .consumer c (afterConsume second c past (consumeLoop n c.q)) := by
  intro n
  induction n with
  | zero =>
    intro c hn hpc
    refine ⟨c.log, ⟨rfl, rfl⟩, ?_⟩
    rw [consumeLoop, afterConsume, ← hpc]
    exact Repeats.refl _ _
  | succ n ih =>
    intro c hn hpc
    have hlt : c.q.read < c.q.fullSlots := by omega
    rw [consumeLoop, if_pos hlt, awaitValid_eq]
    cases hvalid : (c.q.queues c.q.consumerQ c.q.read).valid with
    | true =>
      refine ⟨c.log, ⟨rfl, rfl⟩, Repeats.head (m := { c with consumer := .take }) ?_ (Repeats.head ?_ (Repeats.refl _ _))⟩
      · simp [step, consumerStep, hpc, hlt, hvalid]
      · simp [step, consumerStep, afterConsume, popEvent, QueueConfig.emit, takeSlot, storePayload]
    | false =>
      have hskip := attempts_alone Qlen hpc hlt hvalid
      obtain ⟨past, hsame, hrest⟩ := ih (c := { c with q := { c.q with read := c.q.read + 1 } }.emit
        (.abandoned c.q.consumerQ c.q.read)) (by simp only [QueueConfig.emit]; omega) hpc
      exact ⟨past, hsame.snoc rfl rfl, hskip.trans hrest⟩

/-- The loop of `swap_queues`. -/
theorem clear_alone : ∀ (left i : Nat), i + left = c.q.fullSlots → Repeats (step Qlen) .consumer
    { c with q := (List.range i).foldl (fun d j => d.storeValid c.q.consumerQ j false) c.q, consumer := .clear i }
    { c with q := c.q.clearValid, consumer := .exchange } := by
  intro left
  induction left with
  | zero =>
    intro i hi
    refine Repeats.head ?_ (Repeats.refl _ _)
    rw [Nat.add_zero] at hi
    simp [step, consumerStep, foldl_storeValid, clearValid, hi]
  | succ left ih =>
    intro i hi
    refine Repeats.head ?_ (ih (i + 1) (by omega))
    have hlt : i < c.q.fullSlots := by omega
    rw [List.range_succ, List.foldl_append]
    simp [step, consumerStep, foldl_storeValid, hlt]

/-- `consume` stops without a message at the end of the buffer. -/
theorem consumeLoop_none : ∀ (n : Nat) {d d' : DBQueue T}, d.fullSlots - d.read = n → consumeLoop n d = (none, d') →
    ¬d'.read < d'.fullSlots := by
  intro n
  induction n with
  | zero =>
    intro d d' hn hres
    cases hres
    omega
  | succ n ih =>
    intro d d' hn hres
    rw [consumeLoop, if_pos (by omega)] at hres
    split at hres
    · cases hres
    · exact ih (by simp only; omega) hres

/-- The consumer that moves alone goes through `swap_queues`. -/
theorem swap_alone (hpc : c.consumer = .load false 0) (hend : ¬c.q.read < c.q.fullSlots) :
    ∃ past, SameResults past c.log ∧ Repeats (step Qlen) .consumer c
      { c with q := c.q.swapQueues Qlen, consumer := .load true 0, log := past } := by
  have hstart : step Qlen c .consumer = some { c with consumer := .clear 0 } := by simp [step, consumerStep, hpc, hend]
  have hclear : Repeats (step Qlen) .consumer { c with consumer := .clear 0 } { c with q := c.q.clearValid, consumer := .exchange } :=
    clear_alone c.q.fullSlots 0 (Nat.zero_add _)
  refine ⟨c.log ++ [.swapped], by simp [SameResults, returned, popped], ?_⟩
  exact Repeats.head hstart (hclear.trans (Repeats.head rfl (Repeats.head rfl (Repeats.refl _ _))))

/-- The consumer that moves alone goes through `pop`. -/
theorem consumer_alone (hpc : c.consumer = .load false 0) : ∃ past, SameResults past c.log ∧ Repeats (step Qlen) .consumer c
    { c with q := (c.q.pop Qlen).2, consumer := .idle, log := past ++ [popEvent (c.q.pop Qlen)] } := by
  obtain ⟨past, hsame, hfirst⟩ : ∃ past, SameResults past c.log ∧
      Repeats (step Qlen) .consumer c (afterConsume false c past c.q.consume) := consumeLoop_alone _ rfl hpc
  cases hres : c.q.consume with
  | mk r d =>
    rw [hres] at hfirst
    cases r with
    | some v =>
      have hpop : c.q.pop Qlen = (some v, d) := by rw [DBQueue.pop, hres]
      rw [hpop]
      exact ⟨past, hsame, hfirst⟩
    | none =>
      have hpop : c.q.pop Qlen = (d.swapQueues Qlen).consume := by rw [DBQueue.pop, hres]
      let c₁ : QueueConfig ι T := { c with q := d, consumer := .load false 0, log := past }
      obtain ⟨past₁, hsame₁, hswap⟩ : ∃ past₁, SameResults past₁ c₁.log ∧ Repeats (step Qlen) .consumer c₁
          { c₁ with q := d.swapQueues Qlen, consumer := .load true 0, log := past₁ } := swap_alone rfl (consumeLoop_none _ rfl hres)
      let c₂ : QueueConfig ι T := { c₁ with q := d.swapQueues Qlen, consumer := .load true 0, log := past₁ }
      obtain ⟨past₂, hsame₂, hsecond⟩ : ∃ past₂, SameResults past₂ c₂.log ∧
          Repeats (step Qlen) .consumer c₂ (afterConsume true c₂ past₂ (d.swapQueues Qlen).consume) := consumeLoop_alone _ rfl rfl
      have hresults : SameResults past₂ c.log := hsame₂.trans (hsame₁.trans hsame)
      have hall := hfirst.trans (hswap.trans hsecond)
      rw [hpop]
      cases hres₂ : (d.swapQueues Qlen).consume with
      | mk r₂ d₂ =>
        rw [hres₂] at hall
        cases r₂ with
        | some v => exact ⟨past₂, hresults, hall⟩
        | none =>
          have hlast : ¬d₂.read < d₂.fullSlots := consumeLoop_none _ rfl hres₂
          refine ⟨past₂, hresults, hall.trans (Repeats.head ?_ (Repeats.refl _ _))⟩
          simp [step, consumerStep, afterConsume, popEvent, QueueConfig.emit, hlast, c₂, c₁]

end Blockmon
