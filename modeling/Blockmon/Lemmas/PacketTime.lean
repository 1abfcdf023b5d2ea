import Mathlib.Algebra.BigOperators.Group.Multiset.Basic
import Mathlib.Data.UInt
import Blockmon.PacketTime
import Blockmon.Lemmas.TimerGlue

/-!
# The loops of the packet clock

While the timers are handled the packet clock stands still, so a timer is delivered at most twice at one reading: `passes` counts how
often, and the loop of `process_timer_events` ends after as many passes as the timers of the heap need together. The loop of
`time_past` climbs to its target in steps of at most 1 ms (`climb`), unless a step runs over the end of the 64-bit clock
(`wraps`).
-/

namespace Blockmon

variable {β : Type}

/-! ## Handling the timers that are due -/

namespace Timer

@[simp] theorem renew_id (t : Timer β) (r : ustime) : (t.renew r).id = t.id := by
  unfold renew
  split <;> rfl

/-- With the clock standing still, a timer is renewed to the same time point again. -/
theorem renew_renew (t : Timer β) (r : ustime) : (t.renew r).renew r = t.renew r := by
  cases hkind : t.id.kind <;> simp [renew, hkind]

/-- How often the timer is delivered while the clock reads `r`. -/
def passes (t : Timer β) (r : ustime) : Nat :=
  if t.time ≤ r then if (t.renew r).time ≠ t.time ∧ (t.renew r).time ≤ r then 2 else 1 else 0

/-- A delivery uses up one pass. -/
theorem passes_renew {t : Timer β} {r : ustime} (h : t.time ≤ r) :
    t.passes r = (if (t.renew r).time ≠ t.time then (t.renew r).passes r else 0) + 1 := by
  by_cases hne : (t.renew r).time = t.time
  · simp [passes, h, hne]
  · by_cases hle : (t.renew r).time ≤ r
    · simp [passes, h, hne, hle, renew_renew]
    · simp [passes, h, hne, hle]

end Timer

namespace PacketClock

variable {P : TimerHeap β} {s s' : PacketClock P}

/-- The passes that the timers of the heap need together. -/
def passes (s : PacketClock P) : Nat := ((P.elems s.heap).map fun t => t.passes s.packetTime).sum

/-- What handling a timer leaves alone. -/
structure SameClock (s s' : PacketClock P) : Prop where
  packetTime : s'.packetTime = s.packetTime
  writers : s'.writers = s.writers
  history : s'.history = s.history

/-- A clock that stays twice, stays. -/
theorem SameClock.trans {s₁ s₂ s₃ : PacketClock P} (h : SameClock s₁ s₂) (h' : SameClock s₂ s₃) : SameClock s₁ s₃ :=
  ⟨h'.packetTime.trans h.packetTime, h'.writers.trans h.writers, h'.history.trans h.history⟩

/-- A timer that is handled leaves the clock. -/
theorem handleTop_sameClock (s : PacketClock P) (t : Timer β) (heap : P.Q) : SameClock s (s.handleTop t heap) := by
  unfold handleTop
  dsimp only
  split <;> exact ⟨rfl, rfl, rfl⟩

/-- A timer that is handled is delivered at the time of the clock. -/
theorem handleTop_deliveries (s : PacketClock P) (t : Timer β) (heap : P.Q) :
    (s.handleTop t heap).deliveries = s.deliveries ++ [(t.id, s.packetTime)] := by
  unfold handleTop
  dsimp only
  split <;> rfl

/-- The heap after a timer was handled. -/
theorem elems_handleTop (s : PacketClock P) (t : Timer β) (heap : P.Q) :
    P.elems (s.handleTop t heap).heap =
      if (t.renew s.packetTime).time ≠ t.time then t.renew s.packetTime ::ₘ P.elems heap else P.elems heap := by
  unfold handleTop
  by_cases hne : (t.renew s.packetTime).time ≠ t.time
  · simp [getTime, hne, P.elems_push]
  · simp [getTime, hne]

/-- A due timer that is handled needs one pass less. -/
theorem passes_handleTop {t : Timer β} {heap : P.Q} (hpop : P.pop s.heap = some (t, heap)) (hdue : t.time ≤ s.packetTime) :
    (s.handleTop t heap).passes + 1 = s.passes := by
  obtain ⟨helems, -⟩ := P.pop_some _ _ _ hpop
  have hsum : s.passes = t.passes s.packetTime + ((P.elems heap).map fun t => t.passes s.packetTime).sum := by
    rw [passes, helems, Multiset.map_cons, Multiset.sum_cons]
  rw [hsum, Timer.passes_renew hdue, passes, elems_handleTop, (handleTop_sameClock s t heap).packetTime]
  by_cases hne : (t.renew s.packetTime).time ≠ t.time
  · rw [if_pos hne, if_pos hne, Multiset.map_cons, Multiset.sum_cons]
    omega
  · rw [if_neg hne, if_neg hne]
    omega

/-- No timer is due. -/
def Drained (s : PacketClock P) : Prop := ∀ t ∈ P.elems s.heap, s.packetTime < t.time

/-- The loop of `process_timer_events` ends: it has handled timers, one at a time, until no timer was due. -/
theorem processLoop_ends {I : PacketClock P → Prop}
    (hstep : ∀ s t heap, I s → P.pop s.heap = some (t, heap) → t.time ≤ s.packetTime → I (s.handleTop t heap)) :
    ∀ {s : PacketClock P}, I s →
      ∃ s', Fuel.Ends (fun n => processLoop s.packetTime n s) s' ∧ SameClock s s' ∧ Drained s' ∧ I s' := by
  intro s hs
  -- by induction on the passes that are left
  induction hk : s.passes using Nat.strong_induction_on generalizing s with
  | _ k ih =>
    cases hpop : P.pop s.heap with
    | none =>
      refine ⟨s, (Fuel.ends_const s).pass fun n => ?_, ⟨rfl, rfl, rfl⟩, fun t ht => ?_, hs⟩
      · simp [processLoop, hpop]
      · rw [P.pop_none _ hpop] at ht
        exact absurd ht (Multiset.notMem_zero t)
    | some top =>
      obtain ⟨t, heap⟩ := top
      by_cases hdue : t.time ≤ s.packetTime
      · have hless := passes_handleTop hpop hdue
        have hsame := handleTop_sameClock s t heap
        obtain ⟨s', hends, hsame', hdrained, hI⟩ := ih _ (by omega) (hstep s t heap hs hpop hdue) rfl
        refine ⟨s', hends.pass fun n => ?_, hsame.trans hsame', hdrained, hI⟩
        rw [hsame.packetTime]
        simp [processLoop, hpop, hdue]
      · refine ⟨s, (Fuel.ends_const s).pass fun n => ?_, ⟨rfl, rfl, rfl⟩, fun u hu => ?_, hs⟩
        · simp [processLoop, hpop, hdue]
        · have hlt : s.packetTime.toNat < t.time.toNat := by
            rw [UInt64.le_iff_toNat_le] at hdue
            omega
          exact UInt64.lt_iff_toNat_lt.mpr (P.lt_of_pop_lt hpop hlt u hu)

/-! ## Enough fuel -/

/-- More fuel does not change the result of a loop. -/
theorem processLoop_mono {tnow : ustime} {n m : Nat} (hnm : n ≤ m) (h : processLoop tnow n s = some s') :
    processLoop tnow m s = some s' := by
  induction n generalizing m s with
  | zero => cases h
  | succ n ih =>
    obtain ⟨k, rfl⟩ := Nat.exists_eq_add_of_le' hnm
    rw [← Nat.add_assoc]
    unfold processLoop at h ⊢
    cases hpop : P.pop s.heap with
    | none => simpa [hpop] using h
    | some top =>
      obtain ⟨t, heap⟩ := top
      by_cases hdue : t.time ≤ tnow
      · simp only [hpop, hdue, if_true] at h ⊢
        exact ih (Nat.le_add_left n k) h
      · simpa [hpop, hdue] using h

/-- More fuel changes no result. -/
theorem timePastLoop_mono {target next : ustime} {n m : Nat} {r : EStateM.Result String (PacketClock P) Unit} (hnm : n ≤ m)
    (h : timePastLoop target n next s = some r) : timePastLoop target m next s = some r := by
  induction n generalizing m s next with
  | zero => cases h
  | succ n ih =>
    obtain ⟨k, rfl⟩ := Nat.exists_eq_add_of_le' hnm
    rw [← Nat.add_assoc]
    simp only [timePastLoop] at h ⊢
    generalize (if next + 1000 ≤ target then next + 1000 else target) = next' at h ⊢
    cases hadv : s.advance next' with
    | error e => simpa [hadv] using h
    | ok p =>
      obtain ⟨last, s₁⟩ := p
      by_cases hlast : last > next'
      · simpa [hadv, hlast] using h
      · simp only [hadv, hlast, if_false] at h ⊢
        obtain ⟨s₂, hs₂, h⟩ := Option.bind_eq_some_iff.mp h
        rw [processTimerEvents, processLoop_mono (Nat.le_add_left n k) hs₂, Option.bind_some]
        by_cases hlt : next' < target
        · rw [if_pos hlt] at h ⊢
          exact ih (Nat.le_add_left n k) h
        · rw [if_neg hlt] at h ⊢
          exact h

/-- A result with some fuel is the result. -/
theorem timePast_ends_of_eq {target : ustime} {n : Nat} {r : EStateM.Result String (PacketClock P) Unit}
    (h : timePast n target s = some r) : Fuel.Ends (fun n => timePast n target s) r := ⟨n, fun _ hm => timePastLoop_mono hm h⟩

/-- After the first call, the steps start from the present value. -/
theorem timePast_of_ne_zero (h : s.packetTime ≠ 0) (n : Nat) (target : ustime) :
    timePast n target s = timePastLoop target n s.packetTime s := by
  simp [timePast, getTime, h]

/-! ## One pass of the loop of `time_past` -/

/-- The new value of the clock in a pass. -/
def nextStep (next target : ustime) : ustime := if next + 1000 ≤ target then next + 1000 else target

/-- The next value is a step further, and not behind the target. -/
theorem nextStep_toNat (next target : ustime) :
    (nextStep next target).toNat = min ((next.toNat + 1000) % 2 ^ 64) target.toNat := by
  have hadd : (next + 1000).toNat = (next.toNat + 1000) % 2 ^ 64 := by simp
  unfold nextStep
  by_cases hle : next + 1000 ≤ target
  · rw [if_pos hle, hadd]
    rw [UInt64.le_iff_toNat_le, hadd] at hle
    omega
  · rw [if_neg hle]
    rw [UInt64.le_iff_toNat_le, hadd] at hle
    omega

/-- With a writer the clock is set. -/
theorem advance_of_pos (h : 0 < s.writers) (next : ustime) : s.advance next = .ok (s.packetTime, s.store next) := by
  unfold advance
  by_cases hmany : s.writers > 1
  · rw [if_pos hmany]
  · rw [if_neg hmany, if_pos (by omega)]

/-- Without a writer the call throws. -/
theorem timePastLoop_no_writer (h : s.writers = 0) (next target : ustime) :
    Fuel.Ends (fun n => timePastLoop target n next s) (.error "inconsistent number of packet time writers" s) := by
  refine (Fuel.ends_const _).pass fun n => ?_
  simp [timePastLoop, advance, h]

/-- A value before the clock throws. -/
theorem timePastLoop_out_of_order {next target : ustime} (hw : 0 < s.writers) (hlt : nextStep next target < s.packetTime) :
    Fuel.Ends (fun n => timePastLoop target n next s) (.error "packet time value out of order" (s.store (nextStep next target))) := by
  refine (Fuel.ends_const _).pass fun n => ?_
  have hstep : (if next + 1000 ≤ target then next + 1000 else target) = nextStep next target := rfl
  simp only [timePastLoop, hstep, advance_of_pos hw]
  rw [if_pos hlt]

/-- A pass of the loop. -/
theorem timePastLoop_pass {next target : ustime} {r : EStateM.Result String (PacketClock P) Unit} (hw : 0 < s.writers)
    (hle : s.packetTime ≤ nextStep next target)
    (hends : Fuel.Ends (fun n => processTimerEvents n (s.store (nextStep next target))) s')
    (hrest : Fuel.Ends (fun n => if nextStep next target < target then timePastLoop target n (nextStep next target) s'
      else some (.ok () s')) r) : Fuel.Ends (fun n => timePastLoop target n next s) r := by
  refine (hends.bind (g := fun s₂ n => if nextStep next target < target then timePastLoop target n (nextStep next target) s₂
      else some (.ok () s₂)) hrest).pass fun n => ?_
  have hstep : (if next + 1000 ≤ target then next + 1000 else target) = nextStep next target := rfl
  simp only [timePastLoop, hstep, advance_of_pos hw]
  rw [if_neg (UInt64.not_lt.mpr hle)]

/-! ## Climbing to the target -/

/-- The last value that the clock can reach from `c` in steps of 1 ms. -/
def lastStep (c : Nat) : Nat := c + 1000 * ((2 ^ 64 - 1 - c) / 1000)

/-- A round of `time_past`: the clock is set and the timers that are due are handled, which keeps `I`. -/
def Round (I : PacketClock P → Prop) (target : ustime) : Prop :=
  ∀ s next, I s → s.packetTime ≤ next → next.toNat ≤ s.packetTime.toNat + 1000 → next ≤ target →
    ∃ s', Fuel.Ends (fun n => processTimerEvents n (s.store next)) s' ∧ SameClock (s.store next) s' ∧ Drained s' ∧ I s'

/-- If no step runs over the end of the clock, `time_past` returns with the clock at the target. -/
theorem climb {I : PacketClock P → Prop} {target : ustime} (hround : Round I target) {s : PacketClock P} (hs : I s)
    (hw : 0 < s.writers) (hle : s.packetTime ≤ target) (hfit : s.packetTime.toNat + 1000 < 2 ^ 64)
    (hlast : target.toNat ≤ lastStep s.packetTime.toNat) :
    ∃ s', Fuel.Ends (fun n => timePastLoop target n s.packetTime s) (.ok () s') ∧ s'.packetTime = target ∧ Drained s' ∧ I s' := by
  -- by induction on the way that is left
  induction hk : target.toNat - s.packetTime.toNat using Nat.strong_induction_on generalizing s with
  | _ k ih =>
    have hstep := nextStep_toNat s.packetTime target
    rw [Nat.mod_eq_of_lt hfit] at hstep
    rw [UInt64.le_iff_toNat_le] at hle
    have hup : s.packetTime ≤ nextStep s.packetTime target := UInt64.le_iff_toNat_le.mpr (by omega)
    obtain ⟨s₁, hends, hsame, hdrained, hI⟩ := hround s (nextStep s.packetTime target) hs hup (by omega)
      (UInt64.le_iff_toNat_le.mpr (by omega))
    have htime : s₁.packetTime = nextStep s.packetTime target := by rw [hsame.packetTime, store_packetTime]
    by_cases hlt : nextStep s.packetTime target < target
    · have hlt' := UInt64.lt_iff_toNat_lt.mp hlt
      have hnat : s₁.packetTime.toNat = s.packetTime.toNat + 1000 := by rw [htime]; omega
      have hw₁ : 0 < s₁.writers := by rw [hsame.writers, store_writers]; exact hw
      unfold lastStep at hlast
      obtain ⟨s', hends', hres⟩ := ih (target.toNat - s₁.packetTime.toNat) (by omega) hI hw₁
        (UInt64.le_iff_toNat_le.mpr (by omega)) (by omega) (by unfold lastStep; omega) rfl
      refine ⟨s', timePastLoop_pass hw hup hends ?_, hres⟩
      simp only [if_pos hlt]
      rw [← htime]
      exact hends'
    · have heq : nextStep s.packetTime target = target := UInt64.toNat_inj.mp (by
        rw [UInt64.lt_iff_toNat_lt] at hlt
        omega)
      refine ⟨s₁, timePastLoop_pass hw hup hends ?_, htime.trans heq, hdrained, hI⟩
      simp only [if_neg hlt]
      exact Fuel.ends_const _

/-! ## The values of the clock -/

/-- The history of the clock continues `h` and ends with the present value. -/
structure Logged (h : List ustime) (s : PacketClock P) : Prop where
  past : h <+: s.history
  last : s.history.getLast? = some s.packetTime

/-- A value that is set is one of the history. -/
theorem Logged.store {h : List ustime} (hs : Logged h s) (v : ustime) : Logged h (s.store v) :=
  ⟨hs.past.trans (List.prefix_append _ _), by simp⟩

/-- The same clock has the same history. -/
theorem Logged.same {h : List ustime} (hs : Logged h s) (hsame : SameClock s s') : Logged h s' :=
  ⟨by rw [hsame.history]; exact hs.past, by rw [hsame.history, hsame.packetTime]; exact hs.last⟩

/-- A value is stored in order exactly if it is not below the present one. -/
theorem Logged.chain_store {h : List ustime} (hs : Logged h s) (v : ustime) :
    (s.store v).history.IsChain (· ≤ ·) ↔ s.history.IsChain (· ≤ ·) ∧ s.packetTime ≤ v := by
  rw [store_history, List.isChain_append]
  simp [hs.last]

/-- The timers that are due are handled, with fuel enough. -/
theorem processTimerEvents_ends (s : PacketClock P) :
    ∃ s', Fuel.Ends (fun n => processTimerEvents n s) s' ∧ SameClock s s' ∧ Drained s' := by
  obtain ⟨s', hends, hsame, hdrained, -⟩ := processLoop_ends (I := fun _ => True) (fun _ _ _ _ _ _ => trivial) (s := s) trivial
  exact ⟨s', hends, hsame, hdrained⟩

/-- The clock goes up in every round. -/
theorem round_logged (h : List ustime) (target : ustime) :
    Round (fun s : PacketClock P => Logged h s ∧ (h.IsChain (· ≤ ·) → s.history.IsChain (· ≤ ·))) target := by
  rintro s next ⟨hs, hchain⟩ hle - -
  obtain ⟨s', hends, hsame, hdrained⟩ := processTimerEvents_ends (s.store next)
  refine ⟨s', hends, hsame, hdrained, (hs.store next).same hsame, fun hh => ?_⟩
  rw [hsame.history]
  exact (hs.chain_store next).mpr ⟨hchain hh, hle⟩

/-- If a step runs over the end of the clock, `time_past` ends with an exception and the clock has gone back. -/
theorem wraps {h : List ustime} {target : ustime} {s : PacketClock P} (hs : Logged h s) (hw : 0 < s.writers)
    (hle : s.packetTime ≤ target) (hover : 2 ^ 64 ≤ s.packetTime.toNat + 1000 ∨ lastStep s.packetTime.toNat < target.toNat) :
    ∃ e s', Fuel.Ends (fun n => timePastLoop target n s.packetTime s) (.error e s') ∧ Logged h s' ∧
      ¬s'.history.IsChain (· ≤ ·) := by
  -- by induction on the way to the end of the clock
  induction hk : 2 ^ 64 - s.packetTime.toNat using Nat.strong_induction_on generalizing s with
  | _ k ih =>
    have hstep := nextStep_toNat s.packetTime target
    have hbound := s.packetTime.toNat_lt
    rw [UInt64.le_iff_toNat_le] at hle
    by_cases hfit : s.packetTime.toNat + 1000 < 2 ^ 64
    · rw [Nat.mod_eq_of_lt hfit] at hstep
      have hlast : lastStep s.packetTime.toNat < target.toNat := hover.resolve_left (by omega)
      unfold lastStep at hlast
      have hup : s.packetTime ≤ nextStep s.packetTime target := UInt64.le_iff_toNat_le.mpr (by omega)
      obtain ⟨s₁, hends, hsame, -⟩ := processTimerEvents_ends (s.store (nextStep s.packetTime target))
      have htime : s₁.packetTime = nextStep s.packetTime target := by rw [hsame.packetTime, store_packetTime]
      have hnat : s₁.packetTime.toNat = s.packetTime.toNat + 1000 := by rw [htime]; omega
      have hw₁ : 0 < s₁.writers := by rw [hsame.writers, store_writers]; exact hw
      obtain ⟨e, s', hends', hlog, hchain⟩ := ih (2 ^ 64 - s₁.packetTime.toNat) (by omega) ((hs.store _).same hsame) hw₁
        (UInt64.le_iff_toNat_le.mpr (by omega)) (Or.inr (by unfold lastStep; omega)) rfl
      refine ⟨e, s', timePastLoop_pass hw hup hends ?_, hlog, hchain⟩
      simp only [if_pos (UInt64.lt_iff_toNat_lt.mpr (show (nextStep s.packetTime target).toNat < target.toNat by omega))]
      rw [← htime]
      exact hends'
    · have hlt : nextStep s.packetTime target < s.packetTime := UInt64.lt_iff_toNat_lt.mpr (by omega)
      refine ⟨_, _, timePastLoop_out_of_order hw hlt, hs.store _, fun hchain => ?_⟩
      exact absurd ((hs.chain_store _).mp hchain).2 (UInt64.not_le.mpr hlt)

end PacketClock

end Blockmon

/-!
## Timers that wait, and the looks at the heap

A timer that is scheduled waits in the queue, in the heap or in the hands of a thread, until it is delivered: `step_pending`. A
thread in `process_timer_events` keeps the clock value it has read (`looking`), and leaves the loop when the heap has no timer that
is due for that value (`looked`): `threadStep_look`.
-/

namespace Blockmon

open TimerConfig

variable {ι β : Type}

/-- The timers in the hands of a thread that are scheduled and not delivered for their time point: one that was taken from the
heap, or one that got a new time point and is to be put back. -/
def TimerPc.awaiting : TimerPc β → List (Timer β)
  | .taken e | .deliver e => [e.timer]
  | .relock e ttmp | .insert e ttmp => if e.timer.time ≠ ttmp then [e.timer] else []
  | _ => []

namespace TimerConfig

/-- The timer is scheduled and not delivered. -/
def Pending (c : TimerConfig ι β) (t : Timer β) : Prop := t ∈ c.queue ∨ t ∈ c.heap ∨ ∃ i, t ∈ (c.threads i).awaiting

end TimerConfig

variable [DecidableEq ι] {c c' : TimerConfig ι β} {i : ι} {t : Timer β} {pc : TimerPc β}

/-! ## A timer waits until it is delivered -/

/-- Thread `i` moves on; what was in the queue is there or in the heap, what was in the heap is there or in its hands, and what was
in its hands is there or in the heap. -/
theorem TimerConfig.Pending.of_update (h : c.Pending t) (ht : c'.threads = Function.update c.threads i pc)
    (hq : t ∈ c.queue → t ∈ c'.queue ∨ t ∈ c'.heap) (hh : t ∈ c.heap → t ∈ c'.heap ∨ t ∈ pc.awaiting)
    (hhand : t ∈ (c.threads i).awaiting → t ∈ pc.awaiting ∨ t ∈ c'.heap) : c'.Pending t := by
  have hself : t ∈ pc.awaiting → c'.Pending t := fun hpc => Or.inr (Or.inr ⟨i, by rw [ht, Function.update_self]; exact hpc⟩)
  rcases h with h | h | ⟨j, hj⟩
  · exact (hq h).elim Or.inl fun h => Or.inr (Or.inl h)
  · exact (hh h).elim (fun h => Or.inr (Or.inl h)) hself
  · by_cases hji : j = i
    · subst hji
      exact (hhand hj).elim hself fun h => Or.inr (Or.inl h)
    · exact Or.inr (Or.inr ⟨j, by rw [ht, Function.update_of_ne hji]; exact hj⟩)

/-- Thread `i` moves on and the queue and the heap stay as they are. -/
theorem TimerConfig.Pending.of_goto (h : c.Pending t) (ht : c'.threads = Function.update c.threads i pc) (hq : c'.queue = c.queue)
    (hh : c'.heap = c.heap) (hhand : t ∈ (c.threads i).awaiting → t ∈ pc.awaiting) : c'.Pending t :=
  h.of_update ht (fun h => Or.inl (hq ▸ h)) (fun h => Or.inl (hh ▸ h)) fun h => Or.inl (hhand h)

/-- The step of a thread without a timer that waits. -/
theorem TimerConfig.Pending.of_empty {pc₀ : TimerPc β} (h : c.Pending t) (hpc : c.threads i = pc₀) (hempty : pc₀.awaiting = [])
    (ht : c'.threads = Function.update c.threads i pc) (hq : c'.queue = c.queue) (hh : c'.heap = c.heap) : c'.Pending t := by
  refine h.of_goto ht hq hh fun hmem => ?_
  rw [hpc, hempty] at hmem
  cases hmem

/-- A timer is pending until it is delivered. -/
theorem threadStep_pending {wall : ustime} {pick : Nat} (hs : c.threadStep i wall pick = some c') (h : c.Pending t) :
    c'.Pending t ∨ c'.log = c.log ++ [.delivered i t.id] := by
  have hnil : ∀ {pc₀ pc : TimerPc β}, c.threads i = pc₀ → pc₀.awaiting = [] → t ∈ (c.threads i).awaiting → t ∈ pc.awaiting := by
    intro pc₀ pc hpc hempty hmem
    rw [hpc, hempty] at hmem
    cases hmem
  cases threadStep_cases hs with
  | locks hpc hlocks hfree =>
    refine Or.inl (h.of_goto rfl rfl rfl fun hmem => ?_)
    rw [hpc] at hmem
    cases hlocks <;> exact hmem
  | unlocks hpc hunlocks =>
    refine Or.inl (h.of_goto rfl rfl rfl fun hmem => ?_)
    rw [hpc] at hmem
    cases hunlocks with
    | taken e => exact hmem
    | _ => cases hmem
  | moves hpc hmoves =>
    cases hmoves <;> exact Or.inl (h.of_empty hpc rfl rfl rfl rfl)
  | throws hpc hthrows =>
    cases hthrows <;> exact Or.inl (h.of_empty hpc rfl rfl rfl rfl)
  | push t' k hpc =>
    exact Or.inl (h.of_update rfl (fun hq => Or.inl (List.mem_append_left _ hq)) Or.inl fun hmem => Or.inl (hnil hpc rfl hmem))
  | toHeap t' hpc hlast =>
    refine Or.inl (h.of_update (Function.update_eq_self i c.threads).symm (fun hq => ?_) (fun hh => ?_) Or.inl)
    · rcases List.mem_cons.mp ((perm_dropLast hlast).mem_iff.mp hq) with rfl | hq
      · exact Or.inr List.mem_cons_self
      · exact Or.inl hq
    · exact Or.inl (List.mem_cons_of_mem _ hh)
  | take pick t' tnow caller hpc hpick =>
    refine Or.inl (h.of_update rfl Or.inl (fun hh => ?_) fun hmem => Or.inl (hnil hpc rfl hmem))
    rcases List.mem_cons.mp ((perm_eraseIdx hpick).mem_iff.mp hh) with rfl | hh
    · exact Or.inr List.mem_cons_self
    · exact Or.inl hh
  | deliver e hpc =>
    -- the timer in the thread's hands is the one that is delivered
    by_cases hte : t = e.timer
    · subst hte
      exact Or.inr rfl
    · refine Or.inl (h.of_goto rfl rfl rfl fun hmem => ?_)
      rw [hpc] at hmem
      exact absurd (List.mem_singleton.mp hmem) hte
  | reinsert e ttmp hpc hne =>
    refine Or.inl (h.of_update rfl Or.inl (fun hh => Or.inl (List.mem_cons_of_mem _ hh)) fun hmem => Or.inr ?_)
    simp only [hpc, TimerPc.awaiting, if_pos hne, List.mem_singleton] at hmem
    exact List.mem_cons.mpr (Or.inl hmem)
  | drop e ttmp hpc heq =>
    exact Or.inl (h.of_empty hpc (by simp only [TimerPc.awaiting, if_neg (not_ne_iff.mpr heq)]) rfl rfl rfl)
  | loopEnd hpc hstop => exact Or.inl (h.of_empty hpc rfl rfl rfl rfl)
  | stores hpc hstores =>
    cases hstores <;> exact Or.inl (h.of_empty hpc rfl rfl rfl rfl)

/-- A step leaves a timer waiting or delivers it. -/
theorem step_pending {a : TimerAct ι β} (hs : c.step a = some c') (h : c.Pending t) :
    c'.Pending t ∨ ∃ i, c'.log = c.log ++ [.delivered i t.id] := by
  cases timerStep_cases hs with
  | selectWall | selectPacket | registerTimeWriter | stop | noClock _ => exact Or.inl h
  | setTimerAt hpc hcalls | setPeriodicTimer hpc hcalls =>
    cases hcalls <;> exact Or.inl (h.of_empty hpc rfl rfl rfl rfl)
  | starts hpc _ | startThrows hpc | timePast hpc => exact Or.inl (h.of_empty hpc rfl rfl rfl rfl)
  | thread hs =>
    rcases threadStep_pending hs h with h | h
    · exact Or.inl h
    · exact Or.inr ⟨_, h⟩

/-- A step only adds to the history. -/
theorem timerStep_log {a : TimerAct ι β} (hs : c.step a = some c') : c.log <+: c'.log := by
  cases timerStep_cases hs with
  | selectWall | selectPacket | registerTimeWriter | stop | starts _ _ | timePast _ => exact List.prefix_refl _
  | noClock _ | setTimerAt _ _ | setPeriodicTimer _ _ | startThrows _ => exact List.prefix_append _ _
  | thread hs => exact (threadStep_frame hs).log

/-! ## Looking at the heap -/

/-- The clock value with which a thread looks for timers that are due, and for whom. -/
def TimerPc.looking : TimerPc β → Option (ustime × Caller)
  | .procLock tnow caller | .procTest tnow caller => some (tnow, caller)
  | .taken e | .deliver e | .handling e | .renew e | .relock e _ | .insert e _ => some (e.tnow, e.caller)
  | .schedLock _ k | .schedPush _ k | .schedUnlock k => k.map fun e => (e.tnow, e.caller)
  | _ => none

/-- The thread is in `time_past` and has looked for the timers that are due at the time `next` of the step it is making. -/
def TimerPc.looked : TimerPc β → Option (ustime × ustime)
  | .procUnlock (.timePast next target) | .pastTest next target => some (next, target)
  | _ => none

/-- The thread begins no look and ends none. -/
structure Steady (c c' : TimerConfig ι β) (i : ι) : Prop where
  looking : (c'.threads i).looking = none ∨ (c'.threads i).looking = (c.threads i).looking
  looked : (c'.threads i).looked = none ∨ (c'.threads i).looked = (c.threads i).looked

/-- What a step of thread `i` is for its look at the heap. -/
inductive Look (c c' : TimerConfig ι β) (i : ι) (wall : ustime) : Prop where
  /-- It reads the clock. -/
  | reads (caller : Caller) (tnow : ustime) (hpc : c.threads i = .readClock caller) (hnow : c.getBMTime wall = .ok tnow)
      (hlooking : (c'.threads i).looking = some (tnow, caller)) (hlooked : (c'.threads i).looked = none)
  /-- It finds no timer that is due. -/
  | ends (tnow : ustime) (caller : Caller) (hpc : c.threads i = .procTest tnow caller) (hheap : ∀ t ∈ c.heap, tnow < t.time)
      (hpc' : c'.threads i = .procUnlock caller)
  | goesOn (h : Steady c c' i)

/-- A step that looks at nothing new is steady. -/
theorem steady_goto {pc₀ : TimerPc β} (hpc : c.threads i = pc₀) (ht : c'.threads = Function.update c.threads i pc)
    (hlooking : pc.looking = none ∨ pc.looking = pc₀.looking) (hlooked : pc.looked = none ∨ pc.looked = pc₀.looked) :
    Steady c c' i := by
  constructor <;> rw [ht, Function.update_self, hpc]
  · exact hlooking
  · exact hlooked

/-- A step of a thread looks at the clock at most. -/
theorem look_goto {pc₀ : TimerPc β} {wall : ustime} (hpc : c.threads i = pc₀) (ht : c'.threads = Function.update c.threads i pc)
    (hlooking : pc.looking = none ∨ pc.looking = pc₀.looking) (hlooked : pc.looked = none ∨ pc.looked = pc₀.looked) :
    Look c c' i wall := .goesOn (steady_goto hpc ht hlooking hlooked)

/-- So does every step of the thread. -/
theorem threadStep_look {wall : ustime} {pick : Nat} (hs : c.threadStep i wall pick = some c') : Look c c' i wall := by
  cases threadStep_cases hs with
  | locks hpc h hfree =>
    cases h <;> exact look_goto hpc rfl (Or.inr rfl) (Or.inl rfl)
  | unlocks hpc h =>
    cases h with
    | past next target => exact look_goto hpc rfl (Or.inl rfl) (Or.inr rfl)
    | _ => exact look_goto hpc rfl (Or.inr rfl) (Or.inl rfl)
  | moves hpc h =>
    cases h with
    | readClock caller tnow hnow =>
      refine .reads caller tnow hpc hnow ?_ ?_ <;> simp [goto, TimerPc.looking, TimerPc.looked]
    | noneDue tnow caller hheap => exact .ends tnow caller hpc hheap (Function.update_self ..)
    | handled e | renewed e t hnext => exact look_goto hpc rfl (Or.inr rfl) (Or.inl rfl)
    | _ => exact look_goto hpc rfl (Or.inl rfl) (Or.inl rfl)
  | toHeap t hpc hlast =>
    exact look_goto hpc (Function.update_eq_self i c.threads).symm (Or.inr (by rw [hpc])) (Or.inr (by rw [hpc]))
  | throws hpc h => exact look_goto hpc rfl (Or.inl rfl) (Or.inl rfl)
  | loopEnd hpc hstop => exact look_goto hpc rfl (Or.inl rfl) (Or.inl rfl)
  | stores hpc h => exact look_goto hpc rfl (Or.inl rfl) (Or.inl rfl)
  | push t k hpc | take pick t tnow caller hpc hpick | deliver e hpc | reinsert e ttmp hpc hne | drop e ttmp hpc heq =>
    exact look_goto hpc rfl (Or.inr rfl) (Or.inl rfl)

/-- Only a step of the thread itself reads the clock or ends a look. -/
theorem timerStep_look {a : TimerAct ι β} (hs : c.step a = some c') (i : ι) :
    (∃ wall pick, a = .thread i wall pick ∧ Look c c' i wall) ∨ Steady c c' i := by
  by_cases hmover : a.mover = some i
  · cases timerStep_cases hs with
    | selectWall | selectPacket | registerTimeWriter | stop => cases hmover
    | noClock _ => exact Or.inr ⟨Or.inr rfl, Or.inr rfl⟩
    | setTimerAt hpc h | setPeriodicTimer hpc h =>
      cases hmover
      cases h with
      | outside => exact Or.inr (steady_goto hpc rfl (Or.inl rfl) (Or.inl rfl))
      | handler e => exact Or.inr (steady_goto hpc rfl (Or.inr rfl) (Or.inl rfl))
    | starts hpc _ | startThrows hpc | timePast hpc =>
      cases hmover
      exact Or.inr (steady_goto hpc rfl (Or.inl rfl) (Or.inl rfl))
    | thread hs =>
      cases hmover
      exact Or.inl ⟨_, _, rfl, threadStep_look hs⟩
  · have hsame := timerStep_other hs hmover
    exact Or.inr ⟨Or.inr (by rw [hsame]), Or.inr (by rw [hsame])⟩

end Blockmon
