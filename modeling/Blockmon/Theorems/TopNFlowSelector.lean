import Blockmon.TopNFlowSelector
import Blockmon.Lib.PriorityQueue
import Blockmon.Lib.Exn

/-!
# What the selector reports

Between two timer events the heap holds the heaviest of the flows that have come, as many as there is room for; the timer event sends them,
the lightest first, and leaves the heap empty.
-/

namespace Blockmon.Filtering

open Exn (except_bind_of_ok)

namespace TopNFlowSelector

variable {P : FlowHeap}

/-- The flows since the last timer event, after one more event. -/
def since (flows : Multiset Flow) : SelectorEvent → Multiset Flow
  | .flow m => m ::ₘ flows
  | .timer => 0

/-- The flows since the last timer event. -/
def received (events : List SelectorEvent) : Multiset Flow := events.foldl since 0

/-- The heaviest `n` of the flows, or all of them, the lightest first. -/
structure Reports (n : Nat) (flows : Multiset Flow) (report : List Flow) : Prop where
  sorted : report.Pairwise fun a b => (npackets a).toNat ≤ (npackets b).toNat
  heaviest : Heaviest (fun m => (npackets m).toNat) n flows (report : Multiset Flow)

/-- The invariant: what the heap holds of the flows since the last timer event. -/
structure Keeps (N : UInt32) (flows : Multiset Flow) (b : TopNFlowSelector P) : Prop where
  len : b.len = N
  heaviest : Heaviest (fun m => (npackets m).toNat) N.toNat flows (P.elems b.heap)

section Steps

variable {N : UInt32} {flows : Multiset Flow} {b : TopNFlowSelector P}

/-- A flow is one more to choose from. -/
theorem keeps_receiveMsg (hN : 0 < N) (h : Keeps N flows b) (m : Flow) :
    ∃ b', b.receiveMsg m = .ok b' ∧ Keeps N (m ::ₘ flows) b' := by
  obtain ⟨rfl, hheap⟩ := h
  rw [receiveMsg, size]
  by_cases hroom : (P.elems b.heap).card < b.len.toNat
  · refine ⟨_, if_pos hroom, rfl, ?_⟩
    have hkeep := hheap.keep hroom m
    rwa [← P.elems_push] at hkeep
  · have hfull : b.len.toNat ≤ (P.elems b.heap).card := by omega
    have hpos : 0 < b.len.toNat := UInt32.lt_iff_toNat_lt.mp hN
    have hsome : P.elems b.heap ≠ 0 := by
      intro hzero
      rw [hzero, Multiset.card_zero] at hfull
      omega
    obtain ⟨top, rest, hpop⟩ := PriorityQueue.exists_pop hsome
    obtain ⟨helems, hmin⟩ := P.pop_some _ _ _ hpop
    rw [helems] at hheap hfull
    rw [if_neg hroom, hpop]
    by_cases hgt : npackets m > npackets top
    · refine ⟨_, if_pos hgt, rfl, ?_⟩
      have hreplace := hheap.replace hfull hmin (UInt64.lt_iff_toNat_lt.mp hgt)
      rwa [← P.elems_push] at hreplace
    · refine ⟨b, if_neg hgt, rfl, ?_⟩
      rw [helems]
      exact hheap.skip hfull hmin (Nat.le_of_not_lt fun hlt => hgt (UInt64.lt_iff_toNat_lt.mpr hlt))

/-- The report of a timer event. -/
theorem reports_handleTimer (h : Keeps N flows b) : Reports N.toNat flows b.handleTimer.1 ∧ P.elems b.handleTimer.2.heap = 0 := by
  obtain ⟨hsorted, hall, hempty⟩ := PriorityQueue.drain_spec b.heap
  refine ⟨⟨hsorted, ?_⟩, hempty⟩
  rw [handleTimer, hall]
  exact h.heaviest

/-- After the timer event there is nothing to choose from. -/
theorem keeps_handleTimer (h : Keeps N flows b) : Keeps N 0 b.handleTimer.2 := by
  refine ⟨h.len, ?_⟩
  rw [(reports_handleTimer h).2]
  exact Heaviest.zero _ _

/-- An event keeps the best of the flows since the timer event. -/
theorem keeps_step (hN : 0 < N) (h : Keeps N flows b) (e : SelectorEvent) :
    ∃ sent b', b.step e = .ok (sent, b') ∧ Keeps N (since flows e) b' := by
  cases e with
  | flow m =>
    obtain ⟨b', hb', hkeeps⟩ := keeps_receiveMsg hN h m
    refine ⟨[], b', ?_, hkeeps⟩
    rw [step, hb']
    rfl
  | timer => exact ⟨_, _, rfl, keeps_handleTimer h⟩

/-- The first event is the first step. -/
theorem run_cons {e : SelectorEvent} {events : List SelectorEvent} {b' b'' : TopNFlowSelector P} {sent : List Flow} {rest : List (List Flow)}
    (hstep : b.step e = .ok (sent, b')) (hrun : b'.run events = .ok (rest, b'')) : b.run (e :: events) = .ok (sent :: rest, b'') :=
  (except_bind_of_ok hstep).trans (except_bind_of_ok hrun)

/-- So do the events. -/
theorem keeps_run (hN : 0 < N) (events : List SelectorEvent) (h : Keeps N flows b) :
    ∃ sent b', b.run events = .ok (sent, b') ∧ sent.length = events.length ∧ Keeps N (events.foldl since flows) b' := by
  induction events generalizing flows b with
  | nil => exact ⟨[], b, rfl, rfl, h⟩
  | cons e events ih =>
    obtain ⟨sent, b', hstep, hkeeps⟩ := keeps_step hN h e
    obtain ⟨rest, b'', hrun, hlen, hkeeps⟩ := ih hkeeps
    exact ⟨sent :: rest, b'', run_cons hstep hrun, by simp [hlen], hkeeps⟩

/-- The events in two parts. -/
theorem run_append {before after : List SelectorEvent} {b' b'' : TopNFlowSelector P} {sent rest : List (List Flow)}
    (hbefore : b.run before = .ok (sent, b')) (hafter : b'.run after = .ok (rest, b'')) :
    b.run (before ++ after) = .ok (sent ++ rest, b'') := by
  induction before generalizing b sent with
  | nil =>
    cases hbefore
    exact hafter
  | cons e before ih =>
    rw [run] at hbefore
    obtain ⟨⟨first, b₁⟩, hstep, hbefore⟩ := Exn.except_bind_eq_ok.mp hbefore
    obtain ⟨⟨next, b₂⟩, hrun, hbefore⟩ := Exn.except_bind_eq_ok.mp hbefore
    cases hbefore
    exact run_cons hstep (ih hrun)

end Steps

end TopNFlowSelector

open TopNFlowSelector

/-- A timer event anywhere among the events. -/
theorem topNFlowSelector_reports (P : FlowHeap) {N : UInt32} (hN : 0 < N) (before after : List SelectorEvent) :
    ∃ sent report rest b b', run { new P with len := N } (before ++ [.timer]) = .ok (sent ++ [report], b) ∧
      run { new P with len := N } (before ++ .timer :: after) = .ok (sent ++ report :: rest, b') ∧
      sent.length = before.length ∧ Reports N.toNat (received before) report ∧ P.elems b.heap = 0 := by
  have hnew : Keeps N 0 { new P with len := N } := by
    refine ⟨rfl, ?_⟩
    rw [new, P.elems_empty]
    exact Heaviest.zero _ _
  obtain ⟨sent, b, hbefore, hlen, hkeeps⟩ := keeps_run hN before hnew
  obtain ⟨hreports, hempty⟩ := reports_handleTimer hkeeps
  obtain ⟨rest, b', hafter, -, -⟩ := keeps_run hN after (keeps_handleTimer hkeeps)
  have htimer : b.run [.timer] = .ok ([b.handleTimer.1], b.handleTimer.2) := rfl
  refine ⟨sent, b.handleTimer.1, rest, b.handleTimer.2, b', run_append hbefore htimer, ?_, hlen, hreports, hempty⟩
  have hall := run_append htimer hafter
  exact run_append hbefore hall

/-- Room for one, of two flows. -/
theorem topNFlowSelector_reports_one :
    ∃ sent report rest b b', run { new (PriorityQueue.sortedList _) with len := 1 }
        ([.flow (Flow.new ⟨1, 2, 3, 4, 6⟩), .flow ((Flow.new ⟨5, 6, 7, 8, 17⟩).incrementPackets 2)] ++ [.timer]) =
          .ok (sent ++ [report], b) ∧
      run { new (PriorityQueue.sortedList _) with len := 1 }
        ([.flow (Flow.new ⟨1, 2, 3, 4, 6⟩), .flow ((Flow.new ⟨5, 6, 7, 8, 17⟩).incrementPackets 2)] ++ .timer :: []) =
          .ok (sent ++ report :: rest, b') ∧
      sent.length = 2 ∧
      Reports 1 (received [.flow (Flow.new ⟨1, 2, 3, 4, 6⟩), .flow ((Flow.new ⟨5, 6, 7, 8, 17⟩).incrementPackets 2)]) report ∧
      (PriorityQueue.sortedList _).elems b.heap = 0 :=
  topNFlowSelector_reports (PriorityQueue.sortedList _) (N := 1) (by decide)
    [.flow (Flow.new ⟨1, 2, 3, 4, 6⟩), .flow ((Flow.new ⟨5, 6, 7, 8, 17⟩).incrementPackets 2)] []

end Blockmon.Filtering
