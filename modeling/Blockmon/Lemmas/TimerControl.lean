import Blockmon.Lemmas.TimerThread

/-!
# The lock of the timer thread

`Control` is what a step of a thread does to the lock and to the thread's position. It follows that exactly the holder of the lock is
inside a critical section, and what a thread holds that is about to put a timer back.
-/

namespace Blockmon

open TimerConfig

variable {ι β : Type}

/-- The thread holds the spinlock. -/
def TimerPc.critical : TimerPc β → Bool
  | .schedPush _ _ | .schedUnlock _ | .move | .moveUnlock | .procTest _ _ | .taken _ | .insert _ _ | .procUnlock _ => true
  | _ => false

section

variable [DecidableEq ι]

/-- What a step of thread `i` does to its position and to the lock: it takes it, gives it back, or leaves it. -/
structure LockStep (c c' : TimerConfig ι β) (i : ι) (pc : TimerPc β) : Prop where
  threads : c'.threads = Function.update c.threads i pc
  lock : (c.lock = none ∧ c'.lock = some i ∧ pc.critical = true) ∨
    ((c.threads i).critical = true ∧ c'.lock = none ∧ pc.critical = false) ∨
    (c'.lock = c.lock ∧ pc.critical = (c.threads i).critical)

/-- The same, with the clock source, and with what the thread holds. -/
structure Control (c c' : TimerConfig ι β) (i : ι) (pc : TimerPc β) : Prop where
  threads : c'.threads = Function.update c.threads i pc
  clock : c'.clockSource = c.clockSource
  renewed : Renewed pc
  lock : (c.lock = none ∧ c'.lock = some i ∧ pc.critical = true) ∨
    ((c.threads i).critical = true ∧ c'.lock = none ∧ pc.critical = false) ∨
    (c'.lock = c.lock ∧ pc.critical = (c.threads i).critical)

variable {c c' : TimerConfig ι β} {i : ι} {pc : TimerPc β}

/-- A step that leaves the lock and the critical section as they are. -/
theorem lockStep_goto {pc₀ : TimerPc β} (hpc : c.threads i = pc₀) (ht : c'.threads = Function.update c.threads i pc)
    (hlock : c'.lock = c.lock) (hcrit : pc.critical = pc₀.critical) : LockStep c c' i pc :=
  ⟨ht, Or.inr (Or.inr ⟨hlock, by rw [hpc, hcrit]⟩)⟩

/-- What a step of a thread does to the lock. -/
theorem threadStep_lock {wall : ustime} {pick : Nat} (hs : c.threadStep i wall pick = some c') : ∃ pc, LockStep c c' i pc := by
  cases threadStep_cases hs with
  | locks hpc h hfree =>
    cases h <;> exact ⟨_, rfl, Or.inl ⟨hfree, rfl, rfl⟩⟩
  | unlocks hpc h =>
    cases h <;> exact ⟨_, rfl, Or.inr (Or.inl ⟨by rw [hpc]; rfl, rfl, rfl⟩)⟩
  | moves hpc h =>
    cases h <;> exact ⟨_, lockStep_goto hpc rfl rfl rfl⟩
  | throws hpc h =>
    cases h <;> exact ⟨_, lockStep_goto hpc rfl rfl rfl⟩
  | toHeap t hpc hlast =>
    have hsame : c.threads = Function.update c.threads i .move := by rw [← hpc, Function.update_eq_self]
    exact ⟨_, lockStep_goto hpc hsame rfl rfl⟩
  | push t k hpc | take pick t tnow caller hpc hpick | deliver e hpc | reinsert e ttmp hpc hne | drop e ttmp hpc heq
  | loopEnd hpc hstop => exact ⟨_, lockStep_goto hpc rfl rfl rfl⟩
  | stores hpc h =>
    cases h <;> exact ⟨_, lockStep_goto hpc rfl rfl rfl⟩

/-- Exactly the holder of the lock is inside a critical section. -/
def Exclusive (c : TimerConfig ι β) : Prop := ∀ i, (c.threads i).critical = true ↔ c.lock = some i

omit [DecidableEq ι] in
/-- At the start no thread is in the critical section. -/
theorem exclusive_new : Exclusive (TimerConfig.new : TimerConfig ι β) := fun _ => iff_of_false nofun nofun

/-- A step keeps the critical section exclusive. -/
theorem LockStep.exclusive (h : LockStep c c' i pc) (hexcl : Exclusive c) : Exclusive c' := by
  have hself : c'.threads i = pc := by rw [h.threads, Function.update_self]
  have hother : ∀ j, j ≠ i → c'.threads j = c.threads j := fun j hj => by rw [h.threads, Function.update_of_ne hj]
  intro j
  rcases h.lock with ⟨hfree, hlock, hcrit⟩ | ⟨hcrit₀, hlock, hcrit⟩ | ⟨hlock, hcrit⟩
  · by_cases hj : j = i
    · rw [hj, hself, hlock]
      exact iff_of_true hcrit rfl
    · rw [hother j hj, hlock, hexcl j, hfree]
      exact iff_of_false nofun fun e => hj (Option.some.inj e).symm
  · have howner := (hexcl i).mp hcrit₀
    by_cases hj : j = i
    · rw [hj, hself, hlock, hcrit]
      exact iff_of_false nofun nofun
    · rw [hother j hj, hlock, hexcl j, howner]
      exact iff_of_false (fun e => hj (Option.some.inj e).symm) nofun
  · rw [hlock, ← hexcl j]
    by_cases hj : j = i
    · rw [hj, hself, hcrit]
    · rw [hother j hj]

omit [DecidableEq ι] in
/-- So does a change of other settings. -/
theorem Exclusive.settings (h : Exclusive c) (ht : c'.threads = c.threads) (hl : c'.lock = c.lock) : Exclusive c' :=
  fun j => by rw [ht, hl]; exact h j

/-- So does every step. -/
theorem timerStep_exclusive {a : TimerAct ι β} (hexcl : Exclusive c) (hs : c.step a = some c') : Exclusive c' := by
  have hby : ∀ {i}, (∃ pc, LockStep c c' i pc) → Exclusive c' := fun ⟨_, h⟩ => h.exclusive hexcl
  cases timerStep_cases hs with
  | selectWall | selectPacket | registerTimeWriter | stop | noClock _ => exact hexcl.settings rfl rfl
  | setTimerAt hpc h | setPeriodicTimer hpc h =>
    cases h <;> exact hby ⟨_, lockStep_goto hpc rfl rfl rfl⟩
  | startThrows hpc | starts hpc _ | timePast hpc => exact hby ⟨_, lockStep_goto hpc rfl rfl rfl⟩
  | thread hs => exact hby (threadStep_lock hs)

/-- A step that leaves the controls as they are. -/
theorem control_goto {pc₀ : TimerPc β} (hpc : c.threads i = pc₀) (ht : c'.threads = Function.update c.threads i pc)
    (hclock : c'.clockSource = c.clockSource) (hlock : c'.lock = c.lock) (hren : Renewed pc)
    (hcrit : pc.critical = pc₀.critical) : ∃ pc', Control c c' i pc' :=
  ⟨pc, ht, hclock, hren, (lockStep_goto hpc ht hlock hcrit).lock⟩

/-- What `next_time` leaves, when a periodic timer gets another time point. -/
theorem nextTime_renewed {t t' : Timer β} {clock : Except String ustime} (h : t.nextTime clock = .ok t')
    (hother : ∀ period now, t.id.kind = .periodic period → clock = .ok now → now + period ≠ t.time) :
    t'.time = t.time ↔ t'.id.kind = .oneShot := by
  unfold Timer.nextTime at h
  split at h
  · rename_i hkind
    cases h
    exact iff_of_true rfl hkind
  · rename_i period hkind
    split at h <;> cases h
    rename_i now
    exact iff_of_false (hother period now hkind rfl) fun h => by rw [hkind] at h; cases h

/-- What the thread holds after its step. -/
theorem threadStep_renewed {wall : ustime} {pick : Nat} (hren : Renewed (c.threads i))
    (hrenews : c.renews (.thread i wall pick) = true) (hs : c.threadStep i wall pick = some c') :
    c'.clockSource = c.clockSource ∧ Renewed (c'.threads i) := by
  have hgoto : ∀ {pc : TimerPc β}, c'.threads = Function.update c.threads i pc → Renewed pc → Renewed (c'.threads i) := by
    intro pc ht h
    rw [ht, Function.update_self]
    exact h
  cases threadStep_cases hs with
  | locks hpc h hfree =>
    rw [hpc] at hren
    cases h with
    | relock e ttmp => exact ⟨rfl, hgoto rfl hren⟩
    | _ => exact ⟨rfl, hgoto rfl trivial⟩
  | moves hpc h =>
    cases h with
    | renewed e t hnext =>
      rw [renews, hpc] at hrenews
      dsimp only at hrenews
      refine ⟨rfl, hgoto rfl ?_⟩
      refine nextTime_renewed hnext fun period now hkind hclock => ?_
      rw [hkind, hclock] at hrenews
      simpa using hrenews
    | _ => exact ⟨rfl, hgoto rfl trivial⟩
  | toHeap t hpc hlast => exact ⟨rfl, hren⟩
  | unlocks hpc h | throws hpc h | stores hpc h =>
    cases h <;> exact ⟨rfl, hgoto rfl trivial⟩
  | push t k hpc | take pick t tnow caller hpc hpick | deliver e hpc | reinsert e ttmp hpc hne | drop e ttmp hpc heq
  | loopEnd hpc hstop => exact ⟨rfl, hgoto rfl trivial⟩

/-- What a step of a thread does to the controls. -/
theorem threadStep_control {wall : ustime} {pick : Nat} (hren : Renewed (c.threads i))
    (hrenews : c.renews (.thread i wall pick) = true) (hs : c.threadStep i wall pick = some c') : ∃ pc, Control c c' i pc := by
  obtain ⟨pc, ht, hlock⟩ := threadStep_lock hs
  obtain ⟨hclock, hrenewed⟩ := threadStep_renewed hren hrenews hs
  rw [ht, Function.update_self] at hrenewed
  exact ⟨pc, ht, hclock, hrenewed, hlock⟩

/-- The clock source is set, a thread about to put a timer back holds what `next_time` left, and exactly the holder of the lock is
inside a critical section. -/
structure Orderly (c : TimerConfig ι β) : Prop where
  clock : c.clockSource ≠ .UNSET
  renewed : ∀ i, Renewed (c.threads i)
  exclusive : ∀ i, (c.threads i).critical = true ↔ c.lock = some i

omit [DecidableEq ι] in
/-- At the start everything is in order. -/
theorem orderly_new : Orderly (TimerConfig.new : TimerConfig ι β) := by
  exact ⟨nofun, fun _ => trivial, exclusive_new⟩

/-- A step keeps the order. -/
theorem Control.orderly (h : Control c c' i pc) (ho : Orderly c) : Orderly c' := by
  refine ⟨by rw [h.clock]; exact ho.clock, fun j => ?_, LockStep.exclusive ⟨h.threads, h.lock⟩ ho.exclusive⟩
  by_cases hj : j = i
  · rw [hj, h.threads, Function.update_self]
    exact h.renewed
  · rw [h.threads, Function.update_of_ne hj]
    exact ho.renewed j

omit [DecidableEq ι] in
/-- A change of the settings keeps the order, as long as it does not unset the clock. -/
theorem Orderly.settings (ho : Orderly c) (ht : c'.threads = c.threads) (hl : c'.lock = c.lock) (hc : c'.clockSource ≠ .UNSET) :
    Orderly c' :=
  ⟨hc, fun j => by rw [ht]; exact ho.renewed j, Exclusive.settings ho.exclusive ht hl⟩

/-- So does every step that renews its timer. -/
theorem timerStep_orderly {a : TimerAct ι β} (ho : Orderly c) (hrenews : c.renews a = true) (hs : c.step a = some c') : Orderly c' := by
  have hby : ∀ {i}, (∃ pc, Control c c' i pc) → Orderly c' := fun ⟨_, h⟩ => h.orderly ho
  cases timerStep_cases hs with
  | selectWall | selectPacket => exact ho.settings rfl rfl nofun
  | registerTimeWriter | stop | noClock _ => exact ho.settings rfl rfl ho.clock
  | setTimerAt hpc h | setPeriodicTimer hpc h =>
    cases h <;> exact hby (control_goto hpc rfl rfl rfl trivial rfl)
  | startThrows hpc | starts hpc _ | timePast hpc => exact hby (control_goto hpc rfl rfl rfl trivial rfl)
  | thread hs => exact hby (threadStep_control (ho.renewed _) hrenews hs)

end

end Blockmon
