import Blockmon.PacketTime
import Blockmon.Lemmas.PacketTime

/-!
# The timers that are due are delivered

A timer that is put back has a time point after `tnow`, so a pass of the loop leaves one timer less that is due: this gives the end
of the loop and, by the order of the heap, the order of the deliveries.
-/

namespace Blockmon

namespace TimerService

variable {β σ : Type} {P : TimerHeap β} {handler : σ → Timer β → σ × List (Timer β)} {s : TimerService P σ}

/-! ## One delivery -/

/-- Timers are queued in their order. -/
theorem foldl_scheduleTimer (ts : List (Timer β)) (s : TimerService P σ) :
    ts.foldl scheduleTimer s = { s with queue := s.queue ++ ts } := by
  induction ts generalizing s with
  | nil => simp
  | cons t ts ih => simp [ih, scheduleTimer]

/-- A handler changes the blocks and queues timers. -/
theorem handleTimer_eq (s : TimerService P σ) (t : Timer β) :
    s.handleTimer handler t =
      { s with queue := s.queue ++ (handler s.blocks t).2, blocks := (handler s.blocks t).1,
               events := s.events ++ [.handled t] } := by
  simp [handleTimer, foldl_scheduleTimer, emit]

/-- A one-shot timer is not put back. -/
theorem handleTop_oneShot {t : Timer β} (heap : P.Q) (hkind : t.id.kind = .oneShot) :
    s.handleTop handler t heap = { s with heap := heap }.handleTimer handler t := by
  simp [handleTop, nextTime, hkind]

/-- A periodic timer is put back if its time point has changed. -/
theorem handleTop_periodic {t : Timer β} {period : ustime} (heap : P.Q) (hkind : t.id.kind = .periodic period)
    (hne : s.clock.head + period ≠ t.time) :
    s.handleTop handler t heap =
      { s with queue := s.queue ++ (handler s.blocks t).2, blocks := (handler s.blocks t).1, clock := s.clock.tail,
               heap := P.push { t with time := s.clock.head + period } heap,
               events := s.events ++ [.handled t, .read s.clock.head, .inserted { t with time := s.clock.head + period }] } := by
  simp [handleTop, nextTime, hkind, hne, handleTimer_eq, getBMTime, insertInHeap, emit]

/-! ## The loop -/

/-- The timers that are due. -/
def due (tnow : ustime) (ts : Multiset (Timer β)) : Multiset (Timer β) := ts.filter fun t => t.time ≤ tnow

/-- The others. -/
def waiting (tnow : ustime) (ts : Multiset (Timer β)) : Multiset (Timer β) := ts.filter fun t => tnow < t.time

section

variable {tnow : ustime} {t : Timer β} (ts : Multiset (Timer β))

/-- A timer that is due. -/
theorem due_cons_of_le (h : t.time ≤ tnow) : due tnow (t ::ₘ ts) = t ::ₘ due tnow ts := Multiset.filter_cons_of_pos ts h

/-- A timer that is not due yet. -/
theorem due_cons_of_lt (h : tnow < t.time) : due tnow (t ::ₘ ts) = due tnow ts :=
  Multiset.filter_cons_of_neg ts (UInt64.not_le.mpr h)

/-- A timer that is due does not wait. -/
theorem waiting_cons_of_le (h : t.time ≤ tnow) : waiting tnow (t ::ₘ ts) = waiting tnow ts :=
  Multiset.filter_cons_of_neg ts (UInt64.not_lt.mpr h)

/-- A timer that is not due yet waits. -/
theorem waiting_cons_of_lt (h : tnow < t.time) : waiting tnow (t ::ₘ ts) = t ::ₘ waiting tnow ts :=
  Multiset.filter_cons_of_pos ts h

end

/-- The readings to come are not before `tnow`, and added to a period of the heap they stay in range and give a later time. -/
structure Ahead (s : TimerService P σ) (tnow : ustime) : Prop where
  clock : ∀ n, tnow ≤ s.clock.get n
  positive : ∀ t ∈ P.elems s.heap, ∀ period, t.id.kind = .periodic period → 0 < period
  inRange : ∀ t ∈ P.elems s.heap, ∀ period, t.id.kind = .periodic period → ∀ n, (s.clock.get n).toNat + period.toNat < 2 ^ 64

/-- A periodic timer of the heap that is put back is not due. -/
theorem Ahead.later {tnow period : ustime} {t : Timer β} (h : Ahead s tnow) (ht : t ∈ P.elems s.heap)
    (hkind : t.id.kind = .periodic period) : tnow < s.clock.head + period := by
  have hnow : tnow.toNat ≤ s.clock.head.toNat := UInt64.le_iff_toNat_le.mp (h.clock 0)
  have hpos : 0 < period.toNat := UInt64.lt_iff_toNat_lt.mp (h.positive t ht period hkind)
  have hfit : s.clock.head.toNat + period.toNat < 2 ^ 64 := h.inRange t ht period hkind 0
  rw [UInt64.lt_iff_toNat_lt, UInt64.toNat_add, Nat.mod_eq_of_lt hfit]
  omega

/-- The loop has delivered the timers `ts`. -/
structure Delivers (handler : σ → Timer β → σ × List (Timer β)) (tnow : ustime) (s s' : TimerService P σ) (ts : List (Timer β)) :
    Prop where
  due : (ts : Multiset (Timer β)) = TimerService.due tnow (P.elems s.heap)
  ordered : ts.Pairwise fun t u => t.time ≤ u.time
  events : s'.events = s.events ++ served s.clock ts
  heap : P.elems s'.heap = waiting tnow (P.elems s.heap) + (inserted (served s.clock ts) : Multiset (Timer β))
  handlers : (s'.blocks, s'.queue) = handledAll handler ts (s.blocks, s.queue)

/-- What a pass of the loop on a one-shot timer leaves. -/
theorem pass_oneShot {tnow : ustime} {t : Timer β} {heap : P.Q} {s' : TimerService P σ} {ts : List (Timer β)}
    (helems : P.elems s.heap = t ::ₘ P.elems heap) (hdue : t.time ≤ tnow) (hkind : t.id.kind = .oneShot)
    (hmin : ∀ u ∈ ts, t.time ≤ u.time) (h : Delivers handler tnow (s.handleTop handler t heap) s' ts) :
    Delivers handler tnow s s' (t :: ts) := by
  rw [handleTop_oneShot heap hkind, handleTimer_eq] at h
  refine ⟨?_, List.pairwise_cons.mpr ⟨hmin, h.ordered⟩, ?_, ?_, ?_⟩
  · rw [helems, due_cons_of_le _ hdue, ← Multiset.cons_coe, h.due]
  · simp [h.events, served, hkind]
  · rw [h.heap, helems, waiting_cons_of_le _ hdue]
    simp [served, hkind, inserted]
  · rw [h.handlers, handledAll]

/-- What a pass of the loop on a periodic timer leaves. -/
theorem pass_periodic {tnow period : ustime} {t : Timer β} {heap : P.Q} {s' : TimerService P σ} {ts : List (Timer β)}
    (helems : P.elems s.heap = t ::ₘ P.elems heap) (hdue : t.time ≤ tnow) (hkind : t.id.kind = .periodic period)
    (hlater : tnow < s.clock.head + period) (hmin : ∀ u ∈ ts, t.time ≤ u.time)
    (h : Delivers handler tnow (s.handleTop handler t heap) s' ts) : Delivers handler tnow s s' (t :: ts) := by
  have hne : s.clock.head + period ≠ t.time := fun heq => UInt64.not_lt.mpr hdue (heq ▸ hlater)
  rw [handleTop_periodic heap hkind hne] at h
  refine ⟨?_, List.pairwise_cons.mpr ⟨hmin, h.ordered⟩, ?_, ?_, ?_⟩
  · rw [helems, due_cons_of_le _ hdue, ← Multiset.cons_coe, h.due, P.elems_push, due_cons_of_lt _ hlater]
  · simp [h.events, served, hkind]
  · rw [h.heap, helems, waiting_cons_of_le _ hdue, P.elems_push, waiting_cons_of_lt _ hlater]
    simp [served, hkind, inserted, ← Multiset.cons_coe]
  · rw [h.handlers, handledAll]

/-- The readings and the periods stay as they should be after a pass of the loop. -/
theorem Ahead.handleTop {tnow : ustime} {t : Timer β} {heap : P.Q} (h : Ahead s tnow)
    (helems : P.elems s.heap = t ::ₘ P.elems heap) (hdue : t.time ≤ tnow) : Ahead (s.handleTop handler t heap) tnow := by
  have hsub : ∀ u ∈ P.elems heap, u ∈ P.elems s.heap := fun u hu => by rw [helems]; exact Multiset.mem_cons_of_mem hu
  have ht : t ∈ P.elems s.heap := by rw [helems]; exact Multiset.mem_cons_self t _
  cases hkind : t.id.kind with
  | oneShot =>
    rw [handleTop_oneShot heap hkind, handleTimer_eq]
    exact ⟨h.clock, fun u hu => h.positive u (hsub u hu), fun u hu => h.inRange u (hsub u hu)⟩
  | periodic period =>
    have hlater := h.later ht hkind
    rw [handleTop_periodic heap hkind fun heq => UInt64.not_lt.mpr hdue (heq ▸ hlater)]
    refine ⟨fun n => h.clock (n + 1), fun u hu p hp => ?_, fun u hu p hp n => ?_⟩
    · rw [P.elems_push] at hu
      rcases Multiset.mem_cons.mp hu with rfl | hu
      · exact h.positive t ht p hp
      · exact h.positive u (hsub u hu) p hp
    · rw [P.elems_push] at hu
      rcases Multiset.mem_cons.mp hu with rfl | hu
      · exact h.inRange t ht p hp (n + 1)
      · exact h.inRange u (hsub u hu) p hp (n + 1)

/-- The timers that are due after a pass of the loop. -/
theorem due_handleTop (handler : σ → Timer β → σ × List (Timer β)) {tnow : ustime} {t : Timer β} {heap : P.Q} (h : Ahead s tnow)
    (helems : P.elems s.heap = t ::ₘ P.elems heap) (hdue : t.time ≤ tnow) :
    due tnow (P.elems (s.handleTop handler t heap).heap) = due tnow (P.elems heap) := by
  have ht : t ∈ P.elems s.heap := by rw [helems]; exact Multiset.mem_cons_self t _
  cases hkind : t.id.kind with
  | oneShot => rw [handleTop_oneShot heap hkind, handleTimer_eq]
  | periodic period =>
    have hlater := h.later ht hkind
    rw [handleTop_periodic heap hkind fun heq => UInt64.not_lt.mpr hdue (heq ▸ hlater), P.elems_push, due_cons_of_lt _ hlater]

/-- Without a timer that is due nothing is delivered. -/
theorem delivers_nothing {tnow : ustime} (h : ∀ t ∈ P.elems s.heap, tnow < t.time) : Delivers handler tnow s s [] := by
  have hdue : due tnow (P.elems s.heap) = 0 := Multiset.filter_eq_nil.mpr fun t ht => UInt64.not_le.mpr (h t ht)
  have hwaiting : waiting tnow (P.elems s.heap) = P.elems s.heap := Multiset.filter_eq_self.mpr h
  refine ⟨?_, List.Pairwise.nil, ?_, ?_, rfl⟩
  · rw [hdue]
    rfl
  · simp [served]
  · simp [hwaiting, served, inserted]

/-- The loop ends, and it has delivered the timers that were due. -/
theorem processLoop_delivers (handler : σ → Timer β → σ × List (Timer β)) {tnow : ustime} (h : Ahead s tnow) :
    ∃ s' ts, Fuel.Ends (fun n => processLoop handler tnow n s) s' ∧ Delivers handler tnow s s' ts := by
  -- by induction on the number of timers that are due
  induction hk : (due tnow (P.elems s.heap)).card using Nat.strong_induction_on generalizing s with
  | _ k ih =>
    cases hpop : P.pop s.heap with
    | none =>
      refine ⟨s, [], (Fuel.ends_const s).pass fun n => by simp [processLoop, hpop], delivers_nothing fun t ht => ?_⟩
      rw [P.pop_none _ hpop] at ht
      exact absurd ht (Multiset.notMem_zero t)
    | some top =>
      obtain ⟨t, heap⟩ := top
      obtain ⟨helems, hmin⟩ := P.pop_some _ _ _ hpop
      by_cases hdue : t.time ≤ tnow
      · have hrest := due_handleTop handler h helems hdue
        have hless : (due tnow (P.elems (s.handleTop handler t heap).heap)).card < k := by
          rw [← hk, hrest, helems, due_cons_of_le _ hdue, Multiset.card_cons]
          exact Nat.lt_succ_self _
        obtain ⟨s', ts, hends, hdel⟩ := ih _ hless (h.handleTop helems hdue) rfl
        have hfirst : ∀ u ∈ ts, t.time ≤ u.time := by
          intro u hu
          have hmem : u ∈ due tnow (P.elems heap) := by
            rw [← hrest, ← hdel.due]
            exact hu
          exact UInt64.le_iff_toNat_le.mpr (hmin u (Multiset.mem_filter.mp hmem).1)
        refine ⟨s', t :: ts, hends.pass fun n => by simp [processLoop, hpop, hdue], ?_⟩
        cases hkind : t.id.kind with
        | oneShot => exact pass_oneShot helems hdue hkind hfirst hdel
        | periodic period =>
          have ht : t ∈ P.elems s.heap := by rw [helems]; exact Multiset.mem_cons_self t _
          exact pass_periodic helems hdue hkind (h.later ht hkind) hfirst hdel
      · refine ⟨s, [], (Fuel.ends_const s).pass fun n => by simp [processLoop, hpop, hdue], delivers_nothing fun u hu => ?_⟩
        have hlt : tnow.toNat < t.time.toNat := UInt64.lt_iff_toNat_lt.mp (UInt64.not_le.mp hdue)
        exact UInt64.lt_iff_toNat_lt.mpr (P.lt_of_pop_lt hpop hlt u hu)

/-! ## The call -/

/-- `process_timer_events` returns. It has delivered the timers of the heap that are due at the reading `tnow` of the clock, each
once and in the order of their time points; of these the periodic ones are back in the heap, with the reading after the delivery
plus the period as time point, and the others are gone; the rest of the heap is as it was. -/
theorem processTimerEvents_delivers (handler : σ → Timer β → σ × List (Timer β)) (s : TimerService P σ)
    (hclock : ∀ m n, m ≤ n → s.clock.get m ≤ s.clock.get n)
    (hpositive : ∀ t ∈ P.elems s.heap, ∀ period, t.id.kind = .periodic period → 0 < period)
    (hfit : ∀ t ∈ P.elems s.heap, ∀ period, t.id.kind = .periodic period → ∀ n, (s.clock.get n).toNat + period.toNat < 2 ^ 64) :
    let tnow := s.clock.head
    ∃ (s' : TimerService P σ) (ts : List (Timer β)), Fuel.Ends (fun n => processTimerEvents handler n s) s' ∧
      (ts : Multiset (Timer β)) = (P.elems s.heap).filter (fun t => t.time ≤ tnow) ∧
      ts.Pairwise (fun t u => t.time ≤ u.time) ∧
      s'.events = s.events ++ .read tnow :: served s.clock.tail ts ∧
      P.elems s'.heap = (P.elems s.heap).filter (fun t => tnow < t.time) + (inserted (served s.clock.tail ts) : Multiset (Timer β)) ∧
      (s'.blocks, s'.queue) = handledAll handler ts (s.blocks, s.queue) := by
  intro tnow
  have hahead : Ahead s.getBMTime.2 tnow :=
    ⟨fun n => hclock 0 (n + 1) (Nat.zero_le _), hpositive, fun t ht period hkind n => hfit t ht period hkind (n + 1)⟩
  obtain ⟨s', ts, hends, hdel⟩ := processLoop_delivers handler hahead
  refine ⟨s', ts, hends, hdel.due, hdel.ordered, ?_, hdel.heap, hdel.handlers⟩
  rw [hdel.events]
  simp [getBMTime, emit, tnow]

/-- A timer of period 10 that is due at 5 and a one-shot timer that is due at 20; the clock reads 7 and then 9. -/
def twoTimers : TimerService (PriorityQueue.sortedList fun t : Timer Unit => t.time.toNat) Unit :=
  { queue := [], heap := ⟨[⟨⟨0, .periodic 10⟩, (), 5⟩, ⟨⟨1, .oneShot⟩, (), 20⟩], by decide⟩, blocks := (),
    clock := fun n => if n = 0 then 7 else 9, events := [] }

/-- The handler sets a timer, which goes to the queue; the periodic timer is put back with the time point 19. -/
theorem processTimerEvents_delivers_periodic :
    ∃ s', Fuel.Ends (fun n => processTimerEvents (fun _ t => ((), [{ t with time := 1 }])) n twoTimers) s' ∧
      s'.events = [.read 7, .handled ⟨⟨0, .periodic 10⟩, (), 5⟩, .read 9, .inserted ⟨⟨0, .periodic 10⟩, (), 19⟩] ∧
      (PriorityQueue.sortedList _).elems s'.heap = {⟨⟨1, .oneShot⟩, (), 20⟩, ⟨⟨0, .periodic 10⟩, (), 19⟩} ∧
      s'.queue = [⟨⟨0, .periodic 10⟩, (), 1⟩] := by
  have hmem : ∀ t ∈ (PriorityQueue.sortedList _).elems twoTimers.heap,
      t = ⟨⟨0, .periodic 10⟩, (), 5⟩ ∨ t = ⟨⟨1, .oneShot⟩, (), 20⟩ := by
    intro t ht
    simpa [twoTimers, PriorityQueue.sortedList] using ht
  have hperiod : ∀ t ∈ (PriorityQueue.sortedList _).elems twoTimers.heap, ∀ period, t.id.kind = .periodic period → period = 10 := by
    intro t ht period hkind
    rcases hmem t ht with rfl | rfl
    · cases hkind
      rfl
    · cases hkind
  have hclock : ∀ m n, m ≤ n → twoTimers.clock.get m ≤ twoTimers.clock.get n := by
    intro m n hmn
    rcases Nat.eq_zero_or_pos m with rfl | hm
    · rcases Nat.eq_zero_or_pos n with rfl | hn
      · exact UInt64.le_refl _
      · simp [twoTimers, Stream'.get, hn.ne']
    · simp [twoTimers, Stream'.get, hm.ne', (Nat.lt_of_lt_of_le hm hmn).ne']
  obtain ⟨s', ts, hends, hdue, -, hevents, hheap, hhandlers⟩ :=
    processTimerEvents_delivers (fun _ t => ((), [{ t with time := 1 }])) twoTimers hclock
      (fun t ht period hkind => by rw [hperiod t ht period hkind]; decide)
      (fun t ht period hkind n => by
        rw [hperiod t ht period hkind]
        rcases Nat.eq_zero_or_pos n with rfl | hn
        · decide
        · simp [twoTimers, Stream'.get, hn.ne'])
  have hts : ts = [⟨⟨0, .periodic 10⟩, (), 5⟩] := Multiset.coe_eq_singleton.mp (hdue.trans rfl)
  subst hts
  refine ⟨s', hends, hevents, hheap.trans rfl, (Prod.mk.injEq .. ▸ hhandlers).2⟩

/-! ## The packet clock -/

/-- While the clock stands, both definitions handle the first timer in the same way. -/
theorem handleTop_standing (handler : σ → Timer β → σ × List (Timer β)) {s : TimerService P σ} {c : PacketClock P}
    (t : Timer β) (heap : P.Q) (hclock : s.clock = Stream'.const c.packetTime) :
    (s.handleTop handler t heap).heap = (c.handleTop t heap).heap ∧
      (s.handleTop handler t heap).clock = Stream'.const (c.handleTop t heap).packetTime := by
  have hhead : s.clock.head = c.packetTime := by rw [hclock]; rfl
  have htail : s.clock.tail = Stream'.const c.packetTime := by rw [hclock]; rfl
  cases hkind : t.id.kind with
  | oneShot =>
    rw [handleTop_oneShot heap hkind, handleTimer_eq]
    simp [PacketClock.handleTop, Timer.renew, hkind, hclock]
  | periodic period =>
    by_cases hsame : c.packetTime + period = t.time
    · simp [handleTop, nextTime, hkind, handleTimer_eq, getBMTime, emit, PacketClock.handleTop, Timer.renew, PacketClock.getTime,
        hhead, htail, hsame]
    · rw [handleTop_periodic heap hkind (by rw [hhead]; exact hsame)]
      simp [PacketClock.handleTop, Timer.renew, PacketClock.getTime, hkind, hhead, htail, hsame]

/-- While the clock stands still the loop does to the heap what the loop of the packet clock does to it. -/
theorem processLoop_standing {s : TimerService P σ} {c : PacketClock P} {tnow : ustime} (n : Nat) (hheap : s.heap = c.heap)
    (hclock : s.clock = Stream'.const c.packetTime) :
    (processLoop handler tnow n s).map (·.heap) = (PacketClock.processLoop tnow n c).map (·.heap) := by
  induction n generalizing s c with
  | zero => rfl
  | succ n ih =>
    rw [processLoop, PacketClock.processLoop, hheap]
    cases hpop : P.pop c.heap with
    | none => simp [hheap]
    | some top =>
      obtain ⟨t, heap⟩ := top
      by_cases hdue : t.time ≤ tnow
      · simp only [hdue, if_true]
        obtain ⟨hheap', hclock'⟩ := handleTop_standing handler t heap hclock
        exact ih hheap' hclock'
      · simp [hdue, hheap]

end TimerService

end Blockmon
