import Mathlib.Data.List.Chain
import Blockmon.Lemmas.PacketTime

/-!
# The packet clock goes up

`time_past` stores the new value before it checks that it is in order, so a call that throws has already moved the clock back. The
clock is monotone, and calls that throw leave it alone, exactly if every call comes in order and its steps of 1 ms do not run over
the end of the 64-bit clock.
-/

namespace Blockmon

namespace PacketClock

variable {β : Type} {P : TimerHeap β}

/-- The call comes in order: the target is not in the past, and no step on the way to it overflows. Without a writer the call does
not touch the clock. At the first call the steps start from the target: they overflow from the last 1000 values of the clock on,
start again near 0, and come to the target without a further overflow unless it is one of the last 384 values. -/
def InOrder (s : PacketClock P) : PacketCall → Prop
  | .registerTimeWriter => True
  | .timePast target =>
    s.writers = 0 ∨
      if s.packetTime = 0 then target.toNat < 2 ^ 64 - 384
      else s.packetTime ≤ target ∧ s.packetTime.toNat + 1000 < 2 ^ 64 ∧ target.toNat ≤ lastStep s.packetTime.toNat

/-- If the call throws, it leaves the packet time as it was. -/
def KeepsClock (fuel : Nat) (s : PacketClock P) (c : PacketCall) : Prop :=
  ∀ e s', s.call fuel c = some (.error e s') → s'.packetTime = s.packetTime

/-- What a call that has ended with `r` did to the clock. -/
structure CallSpec (s : PacketClock P) (c : PacketCall) (r : EStateM.Result String (PacketClock P) Unit) : Prop where
  logged : Logged s.history (Exn.leaves r)
  chain : s.history.IsChain (· ≤ ·) → s.InOrder c → (Exn.leaves r).history.IsChain (· ≤ ·)
  order : (Exn.leaves r).history.IsChain (· ≤ ·) → s.InOrder c
  keeps : s.InOrder c → ∀ e s', r = .error e s' → s'.packetTime = s.packetTime

variable {s s' : PacketClock P} {c : PacketCall}

/-- A call in order, in a history in order. -/
theorem callSpec_good (hlog : Logged s.history s') (hchain : s.history.IsChain (· ≤ ·) → s'.history.IsChain (· ≤ ·))
    (hin : s.InOrder c) : CallSpec s c (.ok () s') :=
  ⟨hlog, fun h _ => hchain h, fun _ => hin, fun _ _ _ h => nomatch h⟩

/-- A call that throws has left the order. -/
theorem callSpec_bad {e : String} (hlog : Logged s.history s') (hbad : ¬s'.history.IsChain (· ≤ ·)) (hno : ¬s.InOrder c) :
    CallSpec s c (.error e s') :=
  ⟨hlog, fun _ h => absurd h hno, fun h => absurd h hbad, fun h => absurd h hno⟩

/-- The loop of `time_past` when it starts from the present value of the clock, which may be in a later round of the call. -/
theorem timePastLoop_spec {s₁ : PacketClock P} {target : ustime} (hlog : Logged s.history s₁)
    (hchain : s.history.IsChain (· ≤ ·) → s₁.history.IsChain (· ≤ ·)) (hw : 0 < s₁.writers) (hle : s₁.packetTime ≤ target)
    (hin : s.InOrder c ↔ s₁.packetTime.toNat + 1000 < 2 ^ 64 ∧ target.toNat ≤ lastStep s₁.packetTime.toNat) :
    ∃ r, Fuel.Ends (fun n => timePastLoop target n s₁.packetTime s₁) r ∧ CallSpec s c r := by
  by_cases hfit : s₁.packetTime.toNat + 1000 < 2 ^ 64 ∧ target.toNat ≤ lastStep s₁.packetTime.toNat
  · obtain ⟨s', hends, -, -, hlog', hchain'⟩ := climb (round_logged s.history target) ⟨hlog, hchain⟩ hw hle hfit.1 hfit.2
    exact ⟨_, hends, callSpec_good hlog' hchain' (hin.mpr hfit)⟩
  · obtain ⟨e, s', hends, hlog', hbad⟩ := wraps hlog hw hle (by omega)
    exact ⟨_, hends, callSpec_bad hlog' hbad (fun h => hfit (hin.mp h))⟩

/-- `time_past` ends, in order or with an exception. -/
theorem timePast_spec (s : PacketClock P) (hs : s.history.getLast? = some s.packetTime) (target : ustime) :
    ∃ r, Fuel.Ends (fun n => timePast n target s) r ∧ CallSpec s (.timePast target) r := by
  have hlog : Logged s.history s := ⟨List.prefix_refl _, hs⟩
  by_cases hw : s.writers = 0
  · refine ⟨_, timePastLoop_no_writer hw _ _, hlog, fun h _ => h, fun _ => Or.inl hw, fun _ e s' h => ?_⟩
    cases h
    rfl
  · have hpos : 0 < s.writers := Nat.pos_of_ne_zero hw
    have hbound := target.toNat_lt
    by_cases hzero : s.packetTime = 0
    · -- the first call: the steps start from the target
      have hloop : ∀ n, timePast n target s = timePastLoop target n target s := fun n => by simp [timePast, getTime, hzero]
      have hin : s.InOrder (.timePast target) ↔ target.toNat < 2 ^ 64 - 384 := by simp [InOrder, hw, hzero]
      have hstep := nextStep_toNat target target
      have hup : s.packetTime ≤ nextStep target target := by simp [hzero, UInt64.le_iff_toNat_le]
      obtain ⟨s₁, hends, hsame, -⟩ := processTimerEvents_ends (s.store (nextStep target target))
      have hlog₁ : Logged s.history s₁ := (hlog.store _).same hsame
      have hchain₁ : s.history.IsChain (· ≤ ·) → s₁.history.IsChain (· ≤ ·) := by
        intro h
        rw [hsame.history]
        exact (hlog.chain_store _).mpr ⟨h, hup⟩
      have htime : s₁.packetTime = nextStep target target := by rw [hsame.packetTime, store_packetTime]
      simp only [hloop]
      by_cases hlt : nextStep target target < target
      · have hlt' := UInt64.lt_iff_toNat_lt.mp hlt
        have hnat : s₁.packetTime.toNat = target.toNat + 1000 - 2 ^ 64 := by rw [htime]; omega
        obtain ⟨r, hends', hspec⟩ := timePastLoop_spec hlog₁ hchain₁ (by rw [hsame.writers, store_writers]; exact hpos)
          (by rw [htime]; exact UInt64.le_of_lt hlt) (c := .timePast target)
          (by rw [hin, hnat]; unfold lastStep; omega)
        refine ⟨r, timePastLoop_pass hpos hup hends ?_, hspec⟩
        simp only [if_pos hlt]
        rw [← htime]
        exact hends'
      · refine ⟨_, timePastLoop_pass hpos hup hends ?_, callSpec_good hlog₁ hchain₁ (hin.mpr ?_)⟩
        · simp only [if_neg hlt]
          exact Fuel.ends_const _
        · rw [UInt64.lt_iff_toNat_lt] at hlt
          omega
    · have hin : s.InOrder (.timePast target) ↔ s.packetTime ≤ target ∧ s.packetTime.toNat + 1000 < 2 ^ 64 ∧
          target.toNat ≤ lastStep s.packetTime.toNat := by simp [InOrder, hw, hzero]
      simp only [timePast_of_ne_zero hzero]
      by_cases hle : s.packetTime ≤ target
      · exact timePastLoop_spec hlog id hpos hle (by rw [hin]; simp [hle])
      · have hlt : nextStep s.packetTime target < s.packetTime := by
          have hstep := nextStep_toNat s.packetTime target
          rw [UInt64.le_iff_toNat_le] at hle
          exact UInt64.lt_iff_toNat_lt.mpr (by omega)
        refine ⟨_, timePastLoop_out_of_order hpos hlt, callSpec_bad (hlog.store _) (fun hchain => ?_) (fun h => hle (hin.mp h).1)⟩
        exact absurd ((hlog.chain_store _).mp hchain).2 (UInt64.not_le.mpr hlt)

/-- Every call ends, in order or with an exception. -/
theorem call_spec (s : PacketClock P) (hs : s.history.getLast? = some s.packetTime) (c : PacketCall) :
    ∃ r, Fuel.Ends (fun n => s.call n c) r ∧ CallSpec s c r := by
  cases c with
  | registerTimeWriter =>
    exact ⟨_, Fuel.ends_const _, callSpec_good ⟨List.prefix_refl _, hs⟩ id trivial⟩
  | timePast target => exact timePast_spec s hs target

/-- The result of a call, when the fuel was enough for it. -/
theorem call_spec_of_eq {n : Nat} {r : EStateM.Result String (PacketClock P) Unit}
    (hs : s.history.getLast? = some s.packetTime) (hr : s.call n c = some r) : CallSpec s c r := by
  obtain ⟨r', hends, hspec⟩ := call_spec s hs c
  have hends' : Fuel.Ends (fun n => s.call n c) r := by
    cases c with
    | registerTimeWriter =>
      rw [← Option.some.inj hr]
      exact Fuel.ends_const _
    | timePast target => exact timePast_ends_of_eq hr
  rw [hends'.unique hends]
  exact hspec

/-- Any sequence of calls comes to an end. -/
theorem run_ends (cs : List PacketCall) (hs : s.history.getLast? = some s.packetTime) :
    ∃ s', Fuel.Ends (fun n => Lts.run (step n) s cs) s' := by
  induction cs generalizing s with
  | nil => exact ⟨s, Fuel.ends_const s⟩
  | cons c cs ih =>
    obtain ⟨r, ⟨n, hn⟩, hspec⟩ := call_spec s hs c
    obtain ⟨s', hends⟩ := ih hspec.logged.last
    have hstep : Fuel.Ends (fun n => s.step n c) (Exn.leaves r) := ⟨n, fun m hm => by simp [step, hn m hm]⟩
    exact ⟨s', hstep.bind (g := fun m n => Lts.run (step n) m cs) hends⟩

/-- The clock goes up in a run, and what throws leaves it alone, exactly if every call comes in order. -/
theorem run_chain_iff {n : Nat} (cs : List PacketCall) (hs : s.history.getLast? = some s.packetTime)
    (hr : Lts.run (step n) s cs = some s') :
    s'.history.IsChain (· ≤ ·) ∧ Lts.Along (step n) (KeepsClock n) s cs ↔
      s.history.IsChain (· ≤ ·) ∧ Lts.Along (step n) InOrder s cs := by
  induction cs generalizing s with
  | nil =>
    cases hr
    exact Iff.rfl
  | cons c cs ih =>
    obtain ⟨m, hm, hr⟩ := Option.bind_eq_some_iff.mp (Lts.run_cons s c cs ▸ hr)
    obtain ⟨r, hcall, rfl⟩ := Option.map_eq_some_iff.mp hm
    have hspec := call_spec_of_eq hs hcall
    have hrest := ih hspec.logged.last hr
    have honly : ∀ t, s.step n c = some t → t = Exn.leaves r := fun t ht => Option.some.inj (ht.symm.trans hm)
    have hkeeps : s.InOrder c → s.KeepsClock n c := by
      intro hin e s₁ he
      exact hspec.keeps hin e s₁ (Option.some.inj (hcall.symm.trans he))
    constructor
    · rintro ⟨hchain, -, hkeep⟩
      obtain ⟨hmid, hin⟩ := hrest.mp ⟨hchain, hkeep _ hm⟩
      refine ⟨?_, hspec.order hmid, fun t ht => ?_⟩
      · obtain ⟨later, hlater⟩ := hspec.logged.past
        rw [← hlater] at hmid
        exact (List.isChain_append.mp hmid).1
      · rw [honly t ht]
        exact hin
    · rintro ⟨hchain, hin, hall⟩
      obtain ⟨hend, hkeep⟩ := hrest.mpr ⟨hspec.chain hchain hin, hall _ hm⟩
      refine ⟨hend, hkeeps hin, fun t ht => ?_⟩
      rw [honly t ht]
      exact hkeep

/-- For any timers and any sequence of calls on a new packet clock: the calls come to an end; and the clock never goes back and
every call that throws leaves it as it was, if and only if every `time_past` comes in order. -/
theorem packet_clock_monotone_iff (heap : P.Q) (cs : List PacketCall) :
    (∃ s, Fuel.Ends (fun n => Lts.run (step n) (new heap) cs) s) ∧
    ∀ (n : Nat) (s : PacketClock P), Lts.run (step n) (new heap) cs = some s →
      (s.history.IsChain (· ≤ ·) ∧ Lts.Along (step n) (KeepsClock n) (new heap) cs ↔
        Lts.Along (step n) InOrder (new heap) cs) := by
  refine ⟨run_ends cs rfl, fun n s hr => ?_⟩
  rw [run_chain_iff cs rfl hr]
  simp [new]

end PacketClock

/-- Timers kept in a sorted list. -/
def sortedTimers : TimerHeap Unit := PriorityQueue.sortedList _

/-- One writer moves the clock to 2000 and then asks for 1000: the call throws and the clock is at 1000. -/
theorem packet_clock_goes_back : ¬∀ (cs : List PacketCall) (n : Nat) (s : PacketClock sortedTimers),
    Lts.run (PacketClock.step n) (PacketClock.new sortedTimers.empty) cs = some s →
    s.history.IsChain (· ≤ ·) ∧
      Lts.Along (PacketClock.step n) (PacketClock.KeepsClock n) (PacketClock.new sortedTimers.empty) cs := by
  intro hall
  have hrun : (Lts.run (PacketClock.step 10) (PacketClock.new sortedTimers.empty)
      [.registerTimeWriter, .timePast 2000, .timePast 1000]).map (fun s => s.history) = some [0, 2000, 1000] := by decide +kernel
  obtain ⟨s, hs, hhist⟩ := Option.map_eq_some_iff.mp hrun
  have hchain := (hall _ 10 s hs).1
  rw [hhist] at hchain
  exact absurd hchain (by decide)

end Blockmon

/-!
## What `time_past` promises

`time_past` looks for the timers that are due after every step of the packet clock, so that no timer is handled after a packet with
a later time. It looks into the heap only: a timer that is still in the queue, or that another thread has taken from the heap and not
yet handed over, is not seen. When there is none such at its last look, all the timers that were scheduled before the call and are due
by the target have been delivered when `time_past` returns.
-/

namespace Blockmon

open TimerConfig

variable {ι β : Type} [DecidableEq ι]

/-- The timer was delivered after the configuration `c₀`. -/
def DeliveredSince (c₀ c : TimerConfig ι β) (t : Timer β) : Prop :=
  ∃ seg i, c.log = c₀.log ++ seg ∧ TimerEvent.delivered i t.id ∈ seg

/-- No timer that was scheduled in `c₀` for a time up to `target` is in the queue, or in the hands of a thread and not delivered. -/
def NoneAway (c₀ : TimerConfig ι β) (target : ustime) (c : TimerConfig ι β) : Prop :=
  ∀ t, c₀.Pending t → t.time ≤ target → t ∉ c.queue ∧ ∀ i, t ∉ (c.threads i).awaiting

/-- The condition on a step, for the call of `time_past(target)` by thread `src` in `c₀`. In the last of its steps `time_past` reads
the packet clock, which is not before the target; and when it finds no timer that is due in the heap, none is away. -/
structure LooksInTime (c₀ : TimerConfig ι β) (src : ι) (target : ustime) (c : TimerConfig ι β) (a : TimerAct ι β) : Prop where
  clock : ∀ {wall pick next}, a = .thread src wall pick → c.threads src = .readClock (.timePast next target) → ¬next < target →
    c.clockSource = .PACKET ∧ target ≤ c.packetTime
  noneAway : ∀ {wall pick tnow next}, a = .thread src wall pick → c.threads src = .procTest tnow (.timePast next target) →
    ¬next < target → (∀ t ∈ c.heap, tnow < t.time) → NoneAway c₀ target c

/-- What holds while the call lasts: the timers of `c₀` wait or have been delivered, the look of the last step is made with a clock
value not before the target, and after it the timers that were due have been delivered. -/
structure Promise (c₀ : TimerConfig ι β) (src : ι) (target : ustime) (c : TimerConfig ι β) : Prop where
  log : c₀.log <+: c.log
  waits : ∀ t, c₀.Pending t → c.Pending t ∨ DeliveredSince c₀ c t
  clock : ∀ tnow next, (c.threads src).looking = some (tnow, .timePast next target) → ¬next < target → target ≤ tnow
  kept : ∀ next, (c.threads src).looked = some (next, target) → ¬next < target →
    ∀ t, c₀.Pending t → t.time ≤ target → DeliveredSince c₀ c t

variable {c₀ c c' : TimerConfig ι β} {src : ι} {target : ustime}

omit [DecidableEq ι] in
/-- What was delivered stays delivered. -/
theorem DeliveredSince.mono {t : Timer β} (h : DeliveredSince c₀ c t) (hlog : c.log <+: c'.log) : DeliveredSince c₀ c' t := by
  obtain ⟨seg, i, hseg, hmem⟩ := h
  obtain ⟨more, hmore⟩ := hlog
  exact ⟨seg ++ more, i, by rw [← hmore, hseg, List.append_assoc], List.mem_append_left _ hmem⟩

omit [DecidableEq ι] in
/-- The last look finds no timer due in the heap and none is away: those that were due have been delivered. -/
theorem Promise.delivered_of_noneAway {tnow next : ustime} {t : Timer β} (h : Promise c₀ src target c)
    (hpc : c.threads src = .procTest tnow (.timePast next target)) (hlast : ¬next < target) (hheap : ∀ t ∈ c.heap, tnow < t.time)
    (hnone : NoneAway c₀ target c) (ht : c₀.Pending t) (hdue : t.time ≤ target) : DeliveredSince c₀ c t := by
  obtain ⟨hqueue, hhands⟩ := hnone t ht hdue
  rcases h.waits t ht with (hq | hh | ⟨i, hi⟩) | hdelivered
  · exact absurd hq hqueue
  · have htnow : target ≤ tnow := h.clock tnow next (by rw [hpc]; rfl) hlast
    exact absurd (UInt64.le_trans hdue htnow) (UInt64.not_le.mpr (hheap t hh))
  · exact absurd hi (hhands i)
  · exact hdelivered

/-- The promise is kept by a step whose look at the clock is in time. -/
theorem Promise.step {a : TimerAct ι β} (h : Promise c₀ src target c) (ha : LooksInTime c₀ src target c a)
    (hs : c.step a = some c') : Promise c₀ src target c' := by
  have hlog := timerStep_log hs
  have hwaits : ∀ t, c₀.Pending t → c'.Pending t ∨ DeliveredSince c₀ c' t := by
    intro t ht
    rcases h.waits t ht with hpending | hdelivered
    · rcases step_pending hs hpending with hpending' | ⟨i, hi⟩
      · exact Or.inl hpending'
      · obtain ⟨seg, hseg⟩ := h.log
        exact Or.inr ⟨seg ++ [.delivered i t.id], i, by rw [hi, ← hseg, List.append_assoc], by simp⟩
    · exact Or.inr (hdelivered.mono hlog)
  have hsteady : Steady c c' src → Promise c₀ src target c' := by
    intro hst
    refine ⟨h.log.trans hlog, hwaits, fun tnow next hlooking hlast => ?_, fun next hlooked hlast t ht hdue => ?_⟩
    · rcases hst.looking with hnone | hsame
      · rw [hnone] at hlooking
        cases hlooking
      · exact h.clock tnow next (hsame ▸ hlooking) hlast
    · rcases hst.looked with hnone | hsame
      · rw [hnone] at hlooked
        cases hlooked
      · exact (h.kept next (hsame ▸ hlooked) hlast t ht hdue).mono hlog
  rcases timerStep_look hs src with ⟨wall, pick, rfl, hlook⟩ | hst
  · cases hlook with
    | goesOn hst => exact hsteady hst
    | reads caller tnow hpc hnow hlooking' hlooked' =>
      refine ⟨h.log.trans hlog, hwaits, fun tnow' next hlooking hlast => ?_, fun next hlooked => ?_⟩
      · rw [hlooking'] at hlooking
        cases hlooking
        obtain ⟨hclock, hle⟩ := ha.clock rfl hpc hlast
        rw [getBMTime, hclock] at hnow
        cases hnow
        exact hle
      · rw [hlooked'] at hlooked
        cases hlooked
    | ends tnow caller hpc hheap hpc' =>
      refine ⟨h.log.trans hlog, hwaits, fun tnow' next hlooking => ?_, fun next hlooked hlast t ht hdue => ?_⟩
      · rw [hpc'] at hlooking
        cases hlooking
      · cases caller with
        | timerLoop =>
          rw [hpc'] at hlooked
          cases hlooked
        | timePast next' target' =>
          rw [hpc'] at hlooked
          cases hlooked
          exact (h.delivered_of_noneAway hpc hlast hheap (ha.noneAway rfl hpc hlast hheap) ht hdue).mono hlog
  · exact hsteady hst

/-- When `time_past(target)` returns, every timer that was scheduled before the call and is due by the target has been delivered,
in every run in which the last look at the heap is made in time. -/
theorem time_past_delivers (c₀ c₁ c₂ : TimerConfig ι β) (src : ι) (target next : ustime) (acts : List (TimerAct ι β))
    (hcall : c₀.step (.timePast src target) = some c₁) (hrun : Lts.run step c₁ acts = some c₂)
    (hlooks : Lts.Along step (LooksInTime c₀ src target) c₁ acts)
    (hreturns : c₂.threads src = .pastTest next target ∧ ¬next < target) :
    ∀ t, c₀.Pending t → t.time ≤ target → DeliveredSince c₀ c₂ t := by
  have hbegin : Promise c₀ src target c₁ := by
    have hwaits : ∀ t, c₀.Pending t → c₁.Pending t ∨ DeliveredSince c₀ c₁ t := by
      intro t ht
      rcases step_pending hcall ht with h | ⟨i, hi⟩
      · exact Or.inl h
      · exact Or.inr ⟨[.delivered i t.id], i, hi, by simp⟩
    have hpc : c₁.threads src = .pastRead target := by
      rw [TimerConfig.step] at hcall
      split at hcall <;> cases hcall
      exact Function.update_self ..
    refine ⟨timerStep_log hcall, hwaits, fun tnow next hlooking => ?_, fun next hlooked => ?_⟩
    · rw [hpc] at hlooking
      cases hlooking
    · rw [hpc] at hlooked
      cases hlooked
  have hend : Promise c₀ src target c₂ :=
    Lts.run_inv_of_labels (G := fun _ => True) (I := fun _ c => Promise c₀ src target c) (fun _ _ _ => trivial)
      (fun _ _ _ _ _ h ha hs => h.step ha hs) hbegin trivial hlooks hrun
  exact hend.kept next (by rw [hreturns.1]; rfl) hreturns.2

/-! ## Two calls -/

/-- The settings of a process with one packet source, `false`, and the timer thread, `true`; the source sets a timer for 1500. -/
def scheduledActs : List (TimerAct Bool Unit) :=
  [.selectPacket, .registerTimeWriter, .setTimerAt false () 1500] ++ List.replicate 3 (.thread false 0 0) ++ [.start true]

/-- The timer thread goes through its loop once. -/
def wakeUpActs : List (TimerAct Bool Unit) := List.replicate 9 (.thread true 0 0)

/-- The source makes `n` steps. -/
def sourceActs (n : Nat) : List (TimerAct Bool Unit) := List.replicate n (.thread false 0 0)

/-- With one packet source and the timers in the heap, a condition on the steps that can be decided. -/
def looksNow (c : TimerConfig Bool Unit) (_ : TimerAct Bool Unit) : Bool :=
  match c.threads false with
  | .readClock _ => decide (c.clockSource = .PACKET) && decide (2000 ≤ c.packetTime)
  | .procTest _ _ => c.queue.isEmpty && (c.threads true).awaiting.isEmpty
  | _ => true

/-- The steps of the example look in time. -/
theorem looksInTime_of_looksNow {c₀ c : TimerConfig Bool Unit} {a : TimerAct Bool Unit} (h : looksNow c a = true) :
    LooksInTime c₀ false 2000 c a := by
  refine ⟨fun _ hpc _ => ?_, fun _ hpc _ _ t _ _ => ?_⟩
  · simpa [looksNow, hpc] using h
  · simp only [looksNow, hpc, Bool.and_eq_true, List.isEmpty_iff] at h
    obtain ⟨hqueue, htrue⟩ := h
    refine ⟨by simp [hqueue], fun i => ?_⟩
    cases i with
    | true => simp [htrue]
    | false => simp [hpc, TimerPc.awaiting]

/-- `time_past(2000)` is about to return. -/
def returnsNow (c : TimerConfig Bool Unit) : Bool :=
  match c.threads false with
  | .pastTest next target => next = 2000 ∧ target = 2000
  | _ => false

/-- The thread of the example is in its last test. -/
theorem returns_of_returnsNow {c : TimerConfig Bool Unit} (h : returnsNow c = true) :
    c.threads false = .pastTest 2000 2000 ∧ ¬(2000 : ustime) < 2000 := by
  unfold returnsNow at h
  split at h
  · rename_i hpc
    obtain ⟨rfl, rfl⟩ := of_decide_eq_true h
    exact ⟨hpc, by decide⟩
  · cases h

/-- The timer thread has moved the timer to the heap before the call: it is delivered. -/
theorem time_past_delivers_after_wakeUp : ∃ c₀ c₁ c₂ : TimerConfig Bool Unit,
    Lts.run step new (scheduledActs ++ wakeUpActs) = some c₀ ∧ c₀.step (.timePast false 2000) = some c₁ ∧
    Lts.run step c₁ (sourceActs 15) = some c₂ ∧ c₂.threads false = .pastTest 2000 2000 ∧
    ∃ t, c₀.Pending t ∧ t.time ≤ 2000 ∧ DeliveredSince c₀ c₂ t := by
  have hcheck : (Lts.run step new (scheduledActs ++ wakeUpActs)).any (fun c₀ =>
      c₀.heap.any (fun t => decide (t.time ≤ 2000)) && (c₀.step (.timePast false 2000)).any fun c₁ =>
        decide (Lts.Along step (fun c a => looksNow c a = true) c₁ (sourceActs 15)) &&
          (Lts.run step c₁ (sourceActs 15)).any returnsNow) = true := by decide +kernel
  obtain ⟨c₀, h₀, hcheck⟩ := (Option.any_eq_true _ _).mp hcheck
  obtain ⟨hheap, hcheck⟩ := Bool.and_eq_true_iff.mp hcheck
  obtain ⟨c₁, h₁, hcheck⟩ := (Option.any_eq_true _ _).mp hcheck
  obtain ⟨hlooks, hcheck⟩ := Bool.and_eq_true_iff.mp hcheck
  obtain ⟨c₂, h₂, hret⟩ := (Option.any_eq_true _ _).mp hcheck
  obtain ⟨t, ht, hdue⟩ := List.any_eq_true.mp hheap
  have hreturns := returns_of_returnsNow hret
  have halong := (of_decide_eq_true hlooks).mono fun c a => @looksInTime_of_looksNow c₀ c a
  have hpending : c₀.Pending t := Or.inr (Or.inl ht)
  exact ⟨c₀, c₁, c₂, h₀, h₁, h₂, hreturns.1, t, hpending, of_decide_eq_true hdue,
    time_past_delivers c₀ c₁ c₂ false 2000 2000 (sourceActs 15) h₁ h₂ halong hreturns t hpending (of_decide_eq_true hdue)⟩

/-- The timer is still in the queue when `time_past` is called: it returns without having seen it. -/
theorem time_past_misses_queued : ¬∀ (acts₀ acts : List (TimerAct Bool Unit)) (c₀ c₁ c₂ : TimerConfig Bool Unit) (src : Bool)
    (target next : ustime), Lts.run step new acts₀ = some c₀ → c₀.clockSource = .PACKET →
    c₀.step (.timePast src target) = some c₁ → (∀ a ∈ acts, ∃ i wall pick, a = .thread i wall pick) →
    Lts.run step c₁ acts = some c₂ → c₂.threads src = .pastTest next target → ¬next < target →
    ∀ t, c₀.Pending t → t.time ≤ target → DeliveredSince c₀ c₂ t := by
  intro hall
  have hcheck : (Lts.run step new scheduledActs).any (fun c₀ =>
      decide (c₀.clockSource = .PACKET) && c₀.queue.any (fun t => decide (t.time ≤ 2000)) &&
        (c₀.step (.timePast false 2000)).any fun c₁ => (Lts.run step c₁ (sourceActs 8)).any fun c₂ =>
          returnsNow c₂ && decide (c₂.log = c₀.log)) = true := by decide +kernel
  obtain ⟨c₀, h₀, hcheck⟩ := (Option.any_eq_true _ _).mp hcheck
  simp only [Bool.and_eq_true, decide_eq_true_eq] at hcheck
  obtain ⟨⟨hpacket, hqueue⟩, hcheck⟩ := hcheck
  obtain ⟨c₁, h₁, hcheck⟩ := (Option.any_eq_true _ _).mp hcheck
  obtain ⟨c₂, h₂, hcheck⟩ := (Option.any_eq_true _ _).mp hcheck
  simp only [Bool.and_eq_true, decide_eq_true_eq] at hcheck
  obtain ⟨hret, hlog⟩ := hcheck
  obtain ⟨t, ht, hdue⟩ := List.any_eq_true.mp hqueue
  obtain ⟨hpc, hlast⟩ := returns_of_returnsNow hret
  have hthreads : ∀ a ∈ sourceActs 8, ∃ i wall pick, a = .thread i wall pick :=
    fun a ha => ⟨false, 0, 0, List.eq_of_mem_replicate ha⟩
  obtain ⟨seg, i, hseg, hmem⟩ := hall scheduledActs (sourceActs 8) c₀ c₁ c₂ false 2000 2000 h₀ hpacket h₁ hthreads h₂ hpc hlast t
    (Or.inl ht) (of_decide_eq_true hdue)
  -- the history is as it was before the call
  obtain rfl : seg = [] := by simpa [hlog] using hseg
  cases hmem

end Blockmon
