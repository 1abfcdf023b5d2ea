import Mathlib.Data.List.Induction
import Blockmon.Lemmas.DBQueueFifo
import Blockmon.Lemmas.DBQueueAlone
import Blockmon.Lemmas.DBQueuePending

/-!
# Complete calls on the double-buffered queue

A session is a sequence of complete calls, none overlapping, on a freshly constructed queue, together with the history that
the statements speak of: the values of the successful pushes and of the successful pops since the last reset, and the values accepted
since the last swap.
-/

namespace Blockmon

/-- A call on the queue. -/
inductive QueueOp (T : Type) where
  | push (v : T)
  | pop
  | reset

/-- The queue and its history. -/
structure Session (T : Type) where
  q : DBQueue T
  accepted : List T
  popped : List T
  sinceSwap : List T

namespace Session

variable {T : Type} [Inhabited T]

/-- A queue after its constructor. -/
def new : Session T := { q := DBQueue.new, accepted := [], popped := [], sinceSwap := [] }

/-- One complete call. `pop` swaps the queues exactly when its first `consume` finds nothing. -/
def exec (Qlen : Nat) (s : Session T) : QueueOp T → Session T
  | .push v =>
    let r := s.q.push Qlen v
    if r.1 then { s with q := r.2, accepted := s.accepted ++ [v], sinceSwap := s.sinceSwap ++ [v] } else { s with q := r.2 }
  | .pop =>
    let r := s.q.pop Qlen
    { s with
      q := r.2, popped := s.popped ++ r.1.toList
      sinceSwap := if (s.q.consume).1.isNone then [] else s.sinceSwap }
  | .reset => { q := s.q.reset Qlen, accepted := [], popped := [], sinceSwap := [] }

/-- The session after a sequence of calls. -/
def after (Qlen : Nat) (ops : List (QueueOp T)) : Session T := ops.foldl (exec Qlen) new

/-- The history fits the FIFO that the queue represents: what was accepted is what was popped and what is pending. -/
structure Consistent (Qlen : Nat) (s : Session T) (f : Fifo T) : Prop where
  refines : s.q.Refines Qlen f
  accepted : s.accepted = s.popped ++ f.pending
  sinceSwap : s.sinceSwap = f.back

/-- One call keeps the history consistent. -/
theorem exec_consistent {Qlen : Nat} (h1 : 1 ≤ Qlen) (h2 : Qlen < 2 ^ 30) {s : Session T} {f : Fifo T}
    (h : Consistent Qlen s f) (op : QueueOp T) : ∃ f', Consistent Qlen (s.exec Qlen op) f' := by
  obtain ⟨hr, ha, hs⟩ := h
  cases op with
  | push v =>
    obtain ⟨hres, href⟩ := DBQueue.push_refines hr h2 v
    refine ⟨(f.push Qlen v).2, ?_⟩
    simp only [exec, hres]
    by_cases hlen : f.back.length = Qlen
    · simp only [Fifo.push, hlen, if_true] at href ⊢
      exact ⟨href, ha, hs⟩
    · simp only [Fifo.push, hlen, if_false, if_true] at href ⊢
      refine ⟨href, ?_, ?_⟩
      · simp only [ha, Fifo.pending, List.append_assoc]
      · simp only [hs]
  | pop =>
    obtain ⟨hres, href⟩ := DBQueue.pop_refines hr h1
    refine ⟨f.pop.2, ?_⟩
    simp only [exec, hres]
    cases hfr : f.front with
    | cons v vs =>
      have hc := (DBQueue.consume_cons hr hfr).1
      simp only [Fifo.pop, hfr, hc, Option.isNone_some, Bool.false_eq_true, if_false] at href ⊢
      exact ⟨href, by simp [ha, Fifo.pending, hfr], hs⟩
    | nil =>
      have hc : (s.q.consume).1 = none := by rw [DBQueue.consume_nil hr hfr]
      cases hbk : f.back with
      | cons v vs =>
        simp only [Fifo.pop, hfr, hbk, hc, Option.isNone_none, if_true] at href ⊢
        exact ⟨href, by simp [ha, Fifo.pending, hfr, hbk], rfl⟩
      | nil =>
        simp only [Fifo.pop, hfr, hbk, hc, Option.isNone_none, if_true] at href ⊢
        exact ⟨href, by simp [ha, Fifo.pending, hfr, hbk], rfl⟩
  | reset => exact ⟨Fifo.empty, DBQueue.reset_refines hr h1, rfl, rfl⟩

/-- The history is consistent after every sequence of calls. -/
theorem after_consistent {Qlen : Nat} (h1 : 1 ≤ Qlen) (h2 : Qlen < 2 ^ 30) (ops : List (QueueOp T)) :
    ∃ f, Consistent Qlen (after Qlen ops) f := by
  induction ops using List.reverseRecOn with
  | nil => exact ⟨Fifo.empty, DBQueue.new_refines h1, rfl, rfl⟩
  | append_singleton ops op ih =>
    obtain ⟨f, hf⟩ := ih
    simp only [after, List.foldl_append, List.foldl_cons, List.foldl_nil]
    exact exec_consistent h1 h2 hf op

end Session

/-- The first pending value is the one `Fifo.pop` gives. -/
theorem Fifo.pop_eq_head? {T : Type} (f : Fifo T) : f.pop.1 = f.pending.head? := by
  obtain ⟨front, back⟩ := f
  cases front with
  | cons v vs => rfl
  | nil => cases back <;> rfl

/-- The double-buffered queue is a bounded FIFO, for every capacity below the 30 bits of the packed pointer. After any sequence
of complete calls, with the history since the last reset:
1. the values popped are the first of the values accepted, in order;
2. the next pop returns the first accepted value that was not popped yet, and
3. returns false exactly when there is none;
4. the next push returns false exactly when the producers' buffer already holds `Qlen` values accepted since the last swap. -/
theorem dbqueue_bounded_fifo {T : Type} [Inhabited T] (Qlen : Nat) (h1 : 1 ≤ Qlen) (h2 : Qlen < 2 ^ 30)
    (ops : List (QueueOp T)) :
    let s := Session.after Qlen ops
    s.popped <+: s.accepted ∧
    (s.q.pop Qlen).1 = s.accepted[s.popped.length]? ∧
    ((s.q.pop Qlen).1 = none ↔ s.popped = s.accepted) ∧
    ∀ v, (s.q.push Qlen v).1 = false ↔ s.sinceSwap.length = Qlen := by
  intro s
  obtain ⟨f, hr, ha, hs⟩ := Session.after_consistent h1 h2 ops
  have hpop : (s.q.pop Qlen).1 = f.pending.head? := by
    rw [(DBQueue.pop_refines hr h1).1, Fifo.pop_eq_head?]
  refine ⟨?_, ?_, ?_, ?_⟩
  · rw [ha]
    exact List.prefix_append _ _
  · rw [hpop, ha, List.getElem?_append_right (Nat.le_refl _), Nat.sub_self, List.head?_eq_getElem?]
  · rw [hpop, ha, List.head?_eq_none_iff]
    constructor
    · intro hn; rw [hn, List.append_nil]
    · intro he; exact List.self_eq_append_right.mp he
  · intro v
    rw [(DBQueue.push_refines hr h2 v).1, hs, Fifo.push]
    split <;> simp_all

/-- A queue of capacity one: a pop swaps the buffers, so that another push is accepted and a third one is not; the next pop returns the
second value, and a reset forgets it. -/
theorem dbqueue_bounded_fifo_one :
    (Session.after (T := Nat) 1 [.push 7, .pop, .push 8]).popped = [7] ∧
    ((Session.after (T := Nat) 1 [.push 7, .pop, .push 8]).q.push 1 9).1 = false ∧
    ((Session.after (T := Nat) 1 [.push 7, .pop, .push 8]).q.pop 1).1 = some 8 ∧
    (Session.after (T := Nat) 1 [.push 7, .pop, .push 8, .reset, .push 9, .pop]).popped <+: [9] := by
  obtain ⟨-, hpop, -, hpush⟩ := dbqueue_bounded_fifo (T := Nat) 1 (by decide) (by decide) [.push 7, .pop, .push 8]
  exact ⟨by decide, (hpush 9).mpr (by decide), hpop.trans (by decide),
    (dbqueue_bounded_fifo (T := Nat) 1 (by decide) (by decide) [.push 7, .pop, .push 8, .reset, .push 9, .pop]).1⟩

end Blockmon

/-!
## Overlapping calls on the double-buffered queue

The statements are about every interleaving of the atomic steps of any number of producers with those of the consumer.
-/

namespace Blockmon

open QueueLog DBQueue Collect

variable {ι T : Type}

/-- The pending messages are accepted messages that were not popped, in the order of their reservations. -/
theorem pending_sublist {Qlen : Nat} {c : QueueConfig ι T} {st : Nat → Nat → Stage ι T} {g : Generations T}
    (h : QueueInv Qlen c st g) : (c.q.pending Qlen).Sublist (g.cons.drop c.q.read ++ g.prod) := by
  have hlen := h.cons_length
  rw [h.pending_eq]
  apply List.Sublist.append
  · apply collect_sublist
    · intro i v h1 h2 hv
      have hget : g.cons[i]? = some g.cons[i] := List.getElem?_eq_getElem (by omega)
      rw [List.getElem?_drop, Nat.add_sub_cancel' h1, hget]
      rw [(h.slots c.q.consumerQ i).message?_slot (h.cons_message i _ h1 hget) hv]
    · rw [List.length_drop, hlen]
  · apply collect_sublist
    · intro i v _ h2 hv
      have hget : g.prod[i]? = some g.prod[i] := List.getElem?_eq_getElem h2
      rw [Nat.sub_zero, hget]
      rw [(h.slots (exchangeQueue c.q.consumerQ) i).message?_slot (h.prod_message i _ hget) hv]
    · rw [Nat.sub_zero]

/-- The queue is a linearizable multi-producer FIFO as long as the consumer never gives up on a slot and fewer than `2 ^ 30`
reservations are made between two swaps. In every interleaving:
1. the popped messages are the first of the accepted ones, in the order of their reservations, each once;
2. no payload is written over one that was not popped;
3. a push returns true only for an accepted message. -/
theorem dbqueue_linearizable [DecidableEq ι] [Inhabited T] (Qlen : Nat) (hQ : 1 ≤ Qlen) (acts : List (QueueAct ι T))
    (c : QueueConfig ι T) (hr : QueueConfig.after Qlen acts = some c) (hno : NeverAbandoned c.log) (hb : BoundedAdds c.log) :
    popped c.log <+: accepted c.log ∧ NoDoubleWrite c.log ∧ (returned c.log).Subperm (accepted c.log) := by
  obtain ⟨st, g, hinv, hcon⟩ := after_sound hQ hr ⟨hno, hb⟩
  have hacc : accepted c.log = popped c.log ++ (g.cons.drop c.q.read ++ g.prod) := by
    rw [hinv.accepted_eq, hinv.popped_eq]
    simp only [List.append_assoc, List.append_cancel_left_eq]
    rw [← List.append_assoc, List.take_append_drop]
  refine ⟨?_, hinv.clean.noDoubleWrite, ?_⟩
  · rw [hacc]
    exact List.prefix_append _ _
  · rw [hacc]
    exact hcon.subperm.trans ((List.Sublist.refl _).append (pending_sublist hinv)).subperm

/-- Two producers race for a queue of two slots with the consumer. -/
def raceActs : List (QueueAct Bool Nat) :=
  [.push true 1, .producer true, .push false 2, .producer false, .producer true, .producer false, .pop, .consumer, .consumer,
    .consumer, .producer false, .producer true, .producer true, .consumer, .consumer, .consumer, .producer false, .producer false,
    .pop, .consumer, .consumer]

/-- What happens in the race: the swap comes before either payload is written. -/
def raceLog : List (QueueEvent Bool Nat) :=
  [.fetchAdd true 1 0 0 true, .fetchAdd false 2 0 1 true, .swapped, .wrote true 0 0, .pushed true 1 true, .popped 0 0 1,
    .wrote false 0 1, .pushed false 2 true, .popped 0 1 2]

/-- The log of the race. -/
theorem raceLog_eq : (QueueConfig.after 2 raceActs).map QueueConfig.log = some raceLog := by decide +kernel

/-- No push of the race is given up. -/
theorem raceLog_neverAbandoned : NeverAbandoned raceLog := by
  intro q i hm
  simp [raceLog] at hm

/-- The race adds to the positions a few times only. -/
theorem raceLog_boundedAdds : BoundedAdds raceLog := by
  have hall : ∀ l ∈ raceLog.inits, adds l < 2 ^ 30 := by decide +kernel
  intro l hl
  exact hall l ((List.mem_inits l raceLog).mpr hl)

/-- In the race both messages are popped, in the order of the reservations. -/
theorem dbqueue_linearizable_race : ∃ c, QueueConfig.after 2 raceActs = some c ∧ popped c.log = [1, 2] ∧
    popped c.log <+: accepted c.log := by
  obtain ⟨c, hc, hlog⟩ := Option.map_eq_some_iff.mp raceLog_eq
  have key := dbqueue_linearizable 2 (by decide) raceActs c hc (hlog ▸ raceLog_neverAbandoned) (hlog ▸ raceLog_boundedAdds)
  refine ⟨c, hc, ?_, key.1⟩
  rw [hlog]
  rfl

/-! ## Messages that were accepted -/

/-- As long as the consumer never gives up on a slot and fewer than `2 ^ 30` reservations are made between two swaps, nothing
accepted is discarded: in every configuration of every interleaving the messages whose push returned true are, each once, those
that one pop returned and those that are pending. -/
theorem dbqueue_keeps_accepted [DecidableEq ι] [Inhabited T] (Qlen : Nat) (hQ : 1 ≤ Qlen) (acts : List (QueueAct ι T))
    (c : QueueConfig ι T) (hr : QueueConfig.after Qlen acts = some c) (hno : NeverAbandoned c.log) (hb : BoundedAdds c.log) :
    (returned c.log).Perm (popped c.log ++ c.q.pending Qlen) := by
  obtain ⟨_, _, _, hcon⟩ := after_sound hQ hr ⟨hno, hb⟩
  exact hcon

/-- The race loses nothing. -/
theorem dbqueue_keeps_accepted_race : ∃ c, QueueConfig.after 2 raceActs = some c ∧
    (returned c.log).Perm (popped c.log ++ c.q.pending 2) := by
  obtain ⟨c, hc, hlog⟩ := Option.map_eq_some_iff.mp raceLog_eq
  exact ⟨c, hc, dbqueue_keeps_accepted 2 (by decide) raceActs c hc (hlog ▸ raceLog_neverAbandoned) (hlog ▸ raceLog_boundedAdds)⟩

/-- A producer is suspended between its reservation and its two stores. The consumer swaps, tries the slot a hundred times and
moves on; the producer completes its push, which returns true; the next pop clears the slot and swaps again. -/
def lostActs : List (QueueAct Unit Nat) :=
  [.push () 7, .producer (), .producer (), .pop, .consumer, .consumer, .consumer, .consumer] ++ List.replicate 100 .consumer ++
    [.consumer, .producer (), .producer (), .pop, .consumer, .consumer, .consumer, .consumer]

/-- In a queue of the size the input gates use, an accepted message is discarded: it was not popped and is not pending. -/
theorem dbqueue_discards_accepted : ¬∀ (acts : List (QueueAct Unit Nat)) (c : QueueConfig Unit Nat),
    QueueConfig.after 1024 acts = some c → (returned c.log).Perm (popped c.log ++ c.q.pending 1024) := by
  intro hall
  have hrun : (QueueConfig.after 1024 lostActs).map (fun c => (returned c.log, popped c.log, c.q.pending 1024)) =
      some ([7], [], []) := by decide +kernel
  obtain ⟨c, hc, hres⟩ := Option.map_eq_some_iff.mp hrun
  simp only [Prod.mk.injEq] at hres
  obtain ⟨h1, h2, h3⟩ := hres
  have hperm := hall lostActs c hc
  rw [h1, h2, h3] at hperm
  exact absurd hperm.length_eq (by decide)

/-! ## Complete calls -/

/-- No call is under way, and the queue and the results are those of a session. -/
structure AtRest (c : QueueConfig ι T) (s : Session T) : Prop where
  queue : c.q = s.q
  accepted : returned c.log = s.accepted
  popped : popped c.log = s.popped
  producers : ∀ p, c.producers p = .idle
  consumer : c.consumer = .idle

section

variable [DecidableEq ι] [Inhabited T] {Qlen : Nat} {c : QueueConfig ι T} {s : Session T} {past : List (QueueEvent ι T)}

/-- The end of a `push`. -/
theorem AtRest.afterPush (h : AtRest c s) (hsame : SameResults past c.log) (p : ι) (v : T) :
    AtRest (QueueConfig.afterPush c p v past (c.q.push Qlen v)) (s.exec Qlen (.push v)) := by
  obtain ⟨hret, hpop⟩ := hsame
  rw [h.accepted] at hret
  rw [h.popped] at hpop
  have hidle : ∀ p', (QueueConfig.afterPush c p v past (c.q.push Qlen v)).producers p' = .idle := by
    intro p'
    by_cases hp : p' = p
    · rw [hp]
      exact Function.update_self ..
    · exact (Function.update_of_ne hp ..).trans (h.producers p')
  have hlog : (QueueConfig.afterPush c p v past (c.q.push Qlen v)).log = past ++ [.pushed p v (s.q.push Qlen v).1] := by
    rw [← h.queue]
    rfl
  cases hres : (s.q.push Qlen v).1 with
  | true =>
    rw [Session.exec, if_pos hres]
    refine ⟨by rw [← h.queue]; rfl, ?_, ?_, hidle, h.consumer⟩
    · rw [hlog, hres, returned_snoc, hret]
      rfl
    · rw [hlog, popped_snoc, hpop]
      exact List.append_nil _
  | false =>
    rw [Session.exec, if_neg (by rw [hres]; exact Bool.false_ne_true)]
    refine ⟨by rw [← h.queue]; rfl, ?_, ?_, hidle, h.consumer⟩
    · rw [hlog, hres, returned_snoc, hret]
      exact List.append_nil _
    · rw [hlog, popped_snoc, hpop]
      exact List.append_nil _

omit [DecidableEq ι] in
/-- The end of a `pop`. -/
theorem AtRest.afterPop (h : AtRest c s) (hsame : SameResults past c.log) :
    AtRest { c with q := (c.q.pop Qlen).2, consumer := .idle, log := past ++ [QueueConfig.popEvent (c.q.pop Qlen)] } (s.exec Qlen .pop) := by
  obtain ⟨hret, hpop⟩ := hsame
  rw [h.accepted] at hret
  rw [h.popped] at hpop
  rw [h.queue]
  cases hres : s.q.pop Qlen with
  | mk r d =>
    refine ⟨by simp [Session.exec, hres], ?_, ?_, h.producers, rfl⟩
    · rw [returned_snoc, hret]
      cases r <;> exact List.append_nil _
    · rw [popped_snoc, hpop, Session.exec, hres]
      cases r <;> rfl

/-- A complete call is made by one party that moves alone. -/
theorem AtRest.exec (Qlen : Nat) (h : AtRest c s) (p : ι) {op : QueueOp T} (hop : op ≠ .reset) :
    ∃ acts c', Lts.run (QueueConfig.step Qlen) c acts = some c' ∧ AtRest c' (s.exec Qlen op) := by
  cases op with
  | reset => exact absurd rfl hop
  | push v =>
    let c₁ := c.goto p (.loadFull v)
    have hstart : c.step Qlen (.push p v) = some c₁ := by simp [QueueConfig.step, h.producers p, c₁]
    obtain ⟨past, hsame, n, hn⟩ : ∃ past, SameResults past c₁.log ∧ Lts.Repeats (QueueConfig.step Qlen) (.producer p) c₁
        (QueueConfig.afterPush c₁ p v past (c₁.q.push Qlen v)) := producer_alone (Function.update_self ..)
    rw [afterPush_goto] at hn
    refine ⟨.push p v :: List.replicate n (.producer p), QueueConfig.afterPush c p v past (c.q.push Qlen v), ?_, h.afterPush hsame p v⟩
    rw [Lts.run_cons, hstart]
    exact hn
  | pop =>
    let c₁ : QueueConfig ι T := { c with consumer := .load false 0 }
    have hstart : c.step Qlen .pop = some c₁ := by simp [QueueConfig.step, h.consumer, c₁]
    obtain ⟨past, hsame, n, hn⟩ : ∃ past, SameResults past c₁.log ∧ Lts.Repeats (QueueConfig.step Qlen) .consumer c₁
        { c₁ with q := (c₁.q.pop Qlen).2, consumer := .idle, log := past ++ [QueueConfig.popEvent (c₁.q.pop Qlen)] } := consumer_alone rfl
    refine ⟨.pop :: List.replicate n .consumer, _, ?_, h.afterPop hsame⟩
    rw [Lts.run_cons, hstart]
    exact hn

end

/-- Every sequence of complete calls without a reset is one of the interleavings, with the same queue and the same results. -/
theorem session_interleaving [DecidableEq ι] [Inhabited T] (Qlen : Nat) (p : ι) (ops : List (QueueOp T))
    (hops : ∀ op ∈ ops, op ≠ .reset) : ∃ (acts : List (QueueAct ι T)) (c : QueueConfig ι T),
      QueueConfig.after Qlen acts = some c ∧ AtRest c (Session.after Qlen ops) := by
  induction ops using List.reverseRecOn with
  | nil => exact ⟨[], QueueConfig.new, rfl, rfl, rfl, rfl, fun _ => rfl, rfl⟩
  | append_singleton ops op ih =>
    obtain ⟨acts, c, hc, hrest⟩ := ih fun op hop => hops op (List.mem_append_left _ hop)
    obtain ⟨acts', c', hc', hrest'⟩ := hrest.exec Qlen p (hops op (List.mem_append_right _ (List.mem_singleton_self op)))
    refine ⟨acts ++ acts', c', ?_, ?_⟩
    · rw [QueueConfig.after, Lts.run_append, ← QueueConfig.after, hc]
      exact hc'
    · rw [Session.after, List.foldl_append]
      exact hrest'

end Blockmon
