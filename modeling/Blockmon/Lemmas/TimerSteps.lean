import Blockmon.TimerThread

/-!
# The steps of a thread that works on the timers

`threadStep_cases` says what a step of a thread can be: it takes or gives back the lock, it only moves on, it throws, or it changes
the queue, the heap, the history or the packet clock in one of a few ways. `timerStep_cases` says the same for the calls that other
code makes. What the steps keep is derived from these two.
-/

namespace Blockmon

open TimerConfig

variable {ι β : Type}

namespace TimerPc

/-- Positions before and after taking the lock. -/
inductive Locks : TimerPc β → TimerPc β → Prop where
  | sched (t : Timer β) (k : Option (Expiry β)) : Locks (.schedLock t k) (.schedPush t k)
  | move : Locks .moveLock .move
  | proc (tnow : ustime) (caller : Caller) : Locks (.procLock tnow caller) (.procTest tnow caller)
  | relock (e : Expiry β) (ttmp : ustime) : Locks (.relock e ttmp) (.insert e ttmp)

/-- Positions before and after giving the lock back. -/
inductive Unlocks : TimerPc β → TimerPc β → Prop where
  | sched : Unlocks (.schedUnlock none) .idle
  | schedHandler (e : Expiry β) : Unlocks (.schedUnlock (some e)) (.handling e)
  | move : Unlocks .moveUnlock (.readClock .timerLoop)
  | taken (e : Expiry β) : Unlocks (.taken e) (.deliver e)
  | proc : Unlocks (.procUnlock .timerLoop) .loopTest
  | past (next target : ustime) : Unlocks (.procUnlock (.timePast next target)) (.pastTest next target)

/-- Positions before and after a step that reads the configuration `c` and only moves on. -/
inductive Moves (c : TimerConfig ι β) (wall : ustime) : TimerPc β → TimerPc β → Prop where
  | loopTest (hstop : c.stop = false) : Moves c wall .loopTest .moveLock
  | moved : Moves c wall .move .moveUnlock
  | readClock (caller : Caller) (tnow : ustime) (hnow : c.getBMTime wall = .ok tnow) :
      Moves c wall (.readClock caller) (.procLock tnow caller)
  | noneDue (tnow : ustime) (caller : Caller) (hheap : ∀ t ∈ c.heap, tnow < t.time) :
      Moves c wall (.procTest tnow caller) (.procUnlock caller)
  | handled (e : Expiry β) : Moves c wall (.handling e) (.renew e)
  | renewed (e : Expiry β) (t : Timer β) (hnext : e.timer.nextTime (c.getBMTime wall) = .ok t) :
      Moves c wall (.renew e) (.relock { e with timer := t } e.timer.time)
  | pastRead (next target : ustime) : Moves c wall (.pastRead target) (.pastNext next target)
  | pastNext (next next' target last : ustime) : Moves c wall (.pastNext next target) (.pastStore next' target last)
  | pastCheck (next target last : ustime) : Moves c wall (.pastCheck next target last) (.readClock (.timePast next target))
  | pastAgain (next target : ustime) : Moves c wall (.pastTest next target) (.pastNext next target)
  | pastEnd (next target : ustime) : Moves c wall (.pastTest next target) .idle

/-- Positions from which a step throws. -/
inductive Throws (c : TimerConfig ι β) (wall : ustime) : TimerPc β → String → Prop where
  | readClock (caller : Caller) (msg : String) (hnow : c.getBMTime wall = .error msg) : Throws c wall (.readClock caller) msg
  | renew (e : Expiry β) (msg : String) (hnext : e.timer.nextTime (c.getBMTime wall) = .error msg) : Throws c wall (.renew e) msg
  | pastRead (target : ustime) (msg : String) (hnow : c.getBMTime wall = .error msg) : Throws c wall (.pastRead target) msg
  | pastNext (next target : ustime) (msg : String) : Throws c wall (.pastNext next target) msg
  | pastCheck (next target last : ustime) (msg : String) : Throws c wall (.pastCheck next target last) msg

/-- Positions from which a step stores the packet time `next`. -/
inductive Stores : TimerPc β → (next target last : ustime) → Prop where
  | exchange (next next' target last : ustime) : Stores (.pastNext next target) next' target last
  | store (next target last : ustime) : Stores (.pastStore next target last) next target last

end TimerPc

section

variable [DecidableEq ι]

/-- What a step of thread `i` can be. -/
inductive ThreadStep (c : TimerConfig ι β) (i : ι) (wall : ustime) : TimerConfig ι β → Prop where
  | locks {pc pc' : TimerPc β} (hpc : c.threads i = pc) (h : pc.Locks pc') (hfree : c.lock = none) :
      ThreadStep c i wall ({ c with lock := some i }.goto i pc')
  | unlocks {pc pc' : TimerPc β} (hpc : c.threads i = pc) (h : pc.Unlocks pc') : ThreadStep c i wall (c.release i pc')
  | moves {pc pc' : TimerPc β} (hpc : c.threads i = pc) (h : TimerPc.Moves c wall pc pc') : ThreadStep c i wall (c.goto i pc')
  | throws {pc : TimerPc β} {msg : String} (hpc : c.threads i = pc) (h : TimerPc.Throws c wall pc msg) :
      ThreadStep c i wall (c.throw i msg)
  | push (t : Timer β) (k : Option (Expiry β)) (hpc : c.threads i = .schedPush t k) :
      ThreadStep c i wall ({ c with queue := c.queue ++ [t] }.goto i (.schedUnlock k))
  | toHeap (t : Timer β) (hpc : c.threads i = .move) (hlast : c.queue.getLast? = some t) :
      ThreadStep c i wall { c with queue := c.queue.dropLast, heap := t :: c.heap }
  | take (pick : Nat) (t : Timer β) (tnow : ustime) (caller : Caller) (hpc : c.threads i = .procTest tnow caller)
      (hpick : c.heap[pick]? = some t) :
      ThreadStep c i wall ({ c with heap := c.heap.eraseIdx pick }.goto i (.taken ⟨t, tnow, caller⟩))
  | deliver (e : Expiry β) (hpc : c.threads i = .deliver e) :
      ThreadStep c i wall ((c.goto i (.handling e)).emit (.delivered i e.timer.id))
  | reinsert (e : Expiry β) (ttmp : ustime) (hpc : c.threads i = .insert e ttmp) (hne : e.timer.time ≠ ttmp) :
      ThreadStep c i wall (({ c with heap := e.timer :: c.heap }.goto i (.procTest e.tnow e.caller)).emit (.reinserted i e.timer.id))
  | drop (e : Expiry β) (ttmp : ustime) (hpc : c.threads i = .insert e ttmp) (heq : e.timer.time = ttmp) :
      ThreadStep c i wall ((c.goto i (.procTest e.tnow e.caller)).emit (.dropped i e.timer.id))
  | loopEnd (hpc : c.threads i = .loopTest) (hstop : c.stop = true) :
      ThreadStep c i wall ({ c with running := false, stop := true }.goto i .idle)
  | stores {pc : TimerPc β} {next target last : ustime} (hpc : c.threads i = pc) (h : pc.Stores next target last) :
      ThreadStep c i wall ({ c with packetTime := next }.goto i (.pastCheck next target last))

variable {c c' : TimerConfig ι β} {i : ι} {wall : ustime} {pick : Nat}

/-- A thread that waits for the lock. -/
theorem acquire_cases {pc pc' : TimerPc β} (hpc : c.threads i = pc) (h : pc.Locks pc') (hs : c.acquire i pc' = some c') :
    ThreadStep c i wall c' := by
  unfold acquire at hs
  split at hs <;> cases hs
  exact .locks hpc h ‹_›

/-- A thread at the test of the heap. -/
theorem procTest_cases {tnow : ustime} {caller : Caller} (hpc : c.threads i = .procTest tnow caller)
    (hs : c.threadStep i wall pick = some c') : ThreadStep c i wall c' := by
  rw [threadStep, hpc] at hs
  dsimp only at hs
  split at hs
  · split at hs <;> cases hs
    rename_i hempty
    refine .moves hpc (.noneDue tnow caller fun t ht => ?_)
    rw [List.isEmpty_iff.mp hempty] at ht
    cases ht
  · rename_i t hpick
    split at hs
    · rename_i htop
      split at hs <;> cases hs
      · exact .take pick t tnow caller hpc hpick
      · -- the timer on top is not due, so no other one is
        rename_i hdue
        refine .moves hpc (.noneDue tnow caller fun t' ht' => ?_)
        exact UInt64.lt_of_lt_of_le (UInt64.not_le.mp hdue) (of_decide_eq_true (List.all_eq_true.mp htop t' ht'))
    · cases hs

/-- A thread that sets the time. -/
theorem pastNext_cases {next target : ustime} (hpc : c.threads i = .pastNext next target)
    (hs : c.threadStep i wall pick = some c') : ThreadStep c i wall c' := by
  rw [threadStep, hpc] at hs
  dsimp only at hs
  generalize (if next + 1000 ≤ target then next + 1000 else target) = next' at hs
  split at hs
  · cases hs
    exact .stores hpc (.exchange next next' target _)
  · split at hs <;> cases hs
    · exact .moves hpc (.pastNext next next' target _)
    · exact .throws hpc (.pastNext next target _)

/-- Every step is one of these. -/
theorem threadStep_cases (hs : c.threadStep i wall pick = some c') : ThreadStep c i wall c' := by
  cases hpc : c.threads i with
  | procTest tnow caller => exact procTest_cases hpc hs
  | pastNext next target => exact pastNext_cases hpc hs
  | idle =>
    rw [threadStep, hpc] at hs
    cases hs
  | schedLock t k =>
    rw [threadStep, hpc] at hs
    exact acquire_cases hpc (.sched t k) hs
  | moveLock =>
    rw [threadStep, hpc] at hs
    exact acquire_cases hpc .move hs
  | procLock tnow caller =>
    rw [threadStep, hpc] at hs
    exact acquire_cases hpc (.proc tnow caller) hs
  | relock e ttmp =>
    rw [threadStep, hpc] at hs
    exact acquire_cases hpc (.relock e ttmp) hs
  | schedPush t k =>
    rw [threadStep, hpc] at hs
    cases hs
    exact .push t k hpc
  | schedUnlock k =>
    cases k with
    | none =>
      rw [threadStep, hpc] at hs
      cases hs
      exact .unlocks hpc .sched
    | some e =>
      rw [threadStep, hpc] at hs
      cases hs
      exact .unlocks hpc (.schedHandler e)
  | loopTest =>
    rw [threadStep, hpc] at hs
    dsimp only at hs
    split at hs <;> cases hs
    · exact .loopEnd hpc ‹_›
    · exact .moves hpc (.loopTest (Bool.eq_false_iff.mpr ‹_›))
  | move =>
    rw [threadStep, hpc] at hs
    dsimp only at hs
    split at hs <;> cases hs
    · exact .moves hpc .moved
    · exact .toHeap _ hpc ‹_›
  | moveUnlock =>
    rw [threadStep, hpc] at hs
    cases hs
    exact .unlocks hpc .move
  | readClock caller =>
    rw [threadStep, hpc] at hs
    dsimp only at hs
    split at hs <;> cases hs
    · exact .throws hpc (.readClock caller _ ‹_›)
    · exact .moves hpc (.readClock caller _ ‹_›)
  | taken e =>
    rw [threadStep, hpc] at hs
    cases hs
    exact .unlocks hpc (.taken e)
  | deliver e =>
    rw [threadStep, hpc] at hs
    cases hs
    exact .deliver e hpc
  | handling e =>
    rw [threadStep, hpc] at hs
    cases hs
    exact .moves hpc (.handled e)
  | renew e =>
    rw [threadStep, hpc] at hs
    dsimp only at hs
    split at hs <;> cases hs
    · exact .throws hpc (.renew e _ ‹_›)
    · exact .moves hpc (.renewed e _ ‹_›)
  | insert e ttmp =>
    rw [threadStep, hpc] at hs
    dsimp only at hs
    split at hs <;> cases hs
    · exact .reinsert e ttmp hpc ‹_›
    · exact .drop e ttmp hpc (not_ne_iff.mp ‹_›)
  | procUnlock caller =>
    cases caller with
    | timerLoop =>
      rw [threadStep, hpc] at hs
      cases hs
      exact .unlocks hpc .proc
    | timePast next target =>
      rw [threadStep, hpc] at hs
      cases hs
      exact .unlocks hpc (.past next target)
  | pastRead target =>
    rw [threadStep, hpc] at hs
    dsimp only at hs
    split at hs <;> cases hs
    · exact .throws hpc (.pastRead target _ ‹_›)
    · exact .moves hpc (.pastRead _ target)
  | pastStore next target last =>
    rw [threadStep, hpc] at hs
    cases hs
    exact .stores hpc (.store next target last)
  | pastCheck next target last =>
    rw [threadStep, hpc] at hs
    dsimp only at hs
    split at hs <;> cases hs
    · exact .throws hpc (.pastCheck next target last _)
    · exact .moves hpc (.pastCheck next target last)
  | pastTest next target =>
    rw [threadStep, hpc] at hs
    dsimp only at hs
    split at hs <;> cases hs
    · exact .moves hpc (.pastAgain next target)
    · exact .moves hpc (.pastEnd next target)

/-! ## Calls from outside -/

/-- Positions from which `schedule_timer` is called, and the handler that calls it, if any. -/
inductive TimerPc.Calls : TimerPc β → Option (Expiry β) → Prop where
  | outside : Calls .idle none
  | handler (e : Expiry β) : Calls (.handling e) (some e)

/-- Thread `i` has created the timer `t` and is about to schedule it. -/
def TimerConfig.creates (c : TimerConfig ι β) (i : ι) (t : Timer β) (k : Option (Expiry β)) : TimerConfig ι β :=
  ({ c with nextUid := c.nextUid + 1 }.emit (.created i t.id)).goto i (.schedLock t k)

/-- A thread that makes a timer. -/
theorem schedule_cases {owner : β} {kind : TimerKind} {time : ustime} (hs : c.schedule i owner kind time = some c') :
    ∃ pc k, c.threads i = pc ∧ pc.Calls k ∧ c' = c.creates i ⟨⟨c.nextUid, kind⟩, owner, time⟩ k := by
  unfold schedule at hs
  dsimp only at hs
  split at hs
  · rename_i hpc
    cases hs
    exact ⟨_, none, hpc, .outside, rfl⟩
  · rename_i e hpc
    cases hs
    exact ⟨_, some e, hpc, .handler e, rfl⟩
  · cases hs

/-- What a step can be. -/
inductive TimerStep (c : TimerConfig ι β) : TimerAct ι β → TimerConfig ι β → Prop where
  | selectWall : TimerStep c .selectWall { c with clockSource := .WALL }
  | selectPacket : TimerStep c .selectPacket { c with clockSource := .PACKET }
  | registerTimeWriter : TimerStep c .registerTimeWriter { c with writers := c.writers + 1 }
  | stop : TimerStep c .stop { c with stop := true }
  | setTimerAt {i : ι} {owner : β} {ts : ustime} {pc : TimerPc β} {k : Option (Expiry β)} (hpc : c.threads i = pc) (h : pc.Calls k) :
      TimerStep c (.setTimerAt i owner ts) (c.creates i ⟨⟨c.nextUid, .oneShot⟩, owner, ts⟩ k)
  | setPeriodicTimer {i : ι} {owner : β} {us wall now : ustime} {pc : TimerPc β} {k : Option (Expiry β)}
      (hpc : c.threads i = pc) (h : pc.Calls k) :
      TimerStep c (.setPeriodicTimer i owner us wall) (c.creates i ⟨⟨c.nextUid, .periodic us⟩, owner, now + us⟩ k)
  | noClock {i : ι} {owner : β} {us wall : ustime} {msg : String} (hnow : c.getBMTime wall = .error msg) :
      TimerStep c (.setPeriodicTimer i owner us wall) (c.emit (.threw i msg))
  | starts {i : ι} (hpc : c.threads i = .idle) (hrunning : c.running = false) :
      TimerStep c (.start i) ({ c with running := true }.goto i .loopTest)
  | startThrows {i : ι} {msg : String} (hpc : c.threads i = .idle) : TimerStep c (.start i) (c.throw i msg)
  | timePast {i : ι} {target : ustime} (hpc : c.threads i = .idle) : TimerStep c (.timePast i target) (c.goto i (.pastRead target))
  | thread {i : ι} {wall : ustime} {pick : Nat} {c' : TimerConfig ι β} (hs : c.threadStep i wall pick = some c') :
      TimerStep c (.thread i wall pick) c'

/-- Every step is one of those of `TimerStep`. -/
theorem timerStep_cases {a : TimerAct ι β} (hs : c.step a = some c') : TimerStep c a c' := by
  cases a with
  | selectWall =>
    cases hs
    exact .selectWall
  | selectPacket =>
    cases hs
    exact .selectPacket
  | registerTimeWriter =>
    cases hs
    exact .registerTimeWriter
  | stop =>
    cases hs
    exact .stop
  | setTimerAt i owner ts =>
    obtain ⟨pc, k, hpc, h, rfl⟩ := schedule_cases hs
    exact .setTimerAt hpc h
  | setPeriodicTimer i owner us wall =>
    rw [step] at hs
    split at hs
    · cases hs
      exact .noClock ‹_›
    · obtain ⟨pc, k, hpc, h, rfl⟩ := schedule_cases hs
      exact .setPeriodicTimer hpc h
  | start i =>
    rw [step] at hs
    split at hs
    · rename_i hpc
      split at hs <;> cases hs
      · exact .startThrows hpc
      · exact .starts hpc (Bool.eq_false_iff.mpr ‹_›)
    · cases hs
  | timePast i target =>
    rw [step] at hs
    split at hs <;> cases hs
    exact .timePast ‹_›
  | thread i wall pick => exact .thread hs

end

end Blockmon
