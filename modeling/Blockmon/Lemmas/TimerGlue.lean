import Blockmon.TimerGlue
import Blockmon.Lemmas.TimerThread

/-!
# What the steps leave alone

A step of a thread changes the position of no other thread, nor the clock source, the number of writers or `m_stop`, and only adds
to the history. The timer thread that is started when `m_stop` is set ends at the first test of its loop.
-/

namespace Blockmon

open TimerConfig

variable {ι β : Type} [DecidableEq ι] {c c' : TimerConfig ι β} {i : ι}

/-- What a step of thread `i` leaves alone. -/
structure ThreadFrame (c c' : TimerConfig ι β) (i : ι) : Prop where
  threads : ∃ pc, c'.threads = Function.update c.threads i pc
  stop : c'.stop = c.stop
  clockSource : c'.clockSource = c.clockSource
  writers : c'.writers = c.writers
  running : c.running = false → c'.running = false
  log : c.log <+: c'.log

/-- The other threads stay where they are. -/
theorem ThreadFrame.other (h : ThreadFrame c c' i) {j : ι} (hj : j ≠ i) : c'.threads j = c.threads j := by
  obtain ⟨pc, hpc⟩ := h.threads
  rw [hpc, Function.update_of_ne hj]

/-- A step that moves one thread. -/
theorem frame_goto {pc : TimerPc β} (ht : c'.threads = Function.update c.threads i pc) (hstop : c'.stop = c.stop)
    (hclock : c'.clockSource = c.clockSource) (hw : c'.writers = c.writers) (hrun : c.running = false → c'.running = false)
    (hlog : c.log <+: c'.log := by first | exact List.prefix_refl _ | exact List.prefix_append _ _) : ThreadFrame c c' i :=
  ⟨⟨pc, ht⟩, hstop, hclock, hw, hrun, hlog⟩

/-- A step of a thread moves that one. -/
theorem threadStep_frame {wall : ustime} {pick : Nat} (hs : c.threadStep i wall pick = some c') : ThreadFrame c c' i := by
  cases threadStep_cases hs with
  | toHeap t hpc hlast => exact frame_goto (Function.update_eq_self i c.threads).symm rfl rfl rfl id
  -- the end of the loop sets the flag that was just read as set
  | loopEnd hpc hstop => exact frame_goto rfl hstop.symm rfl rfl fun _ => rfl
  | _ => exact frame_goto rfl rfl rfl rfl id

/-- The thread that makes the step. -/
def TimerAct.mover : TimerAct ι β → Option ι
  | .selectWall | .selectPacket | .registerTimeWriter | .stop => none
  | .setTimerAt i _ _ | .setPeriodicTimer i _ _ _ | .start i | .timePast i _ | .thread i _ _ => some i

/-- A step changes the position of the thread that makes it, if any. -/
theorem timerStep_other {a : TimerAct ι β} (hs : c.step a = some c') {j : ι} (hj : a.mover ≠ some j) :
    c'.threads j = c.threads j := by
  have hne : ∀ {i}, a.mover = some i → j ≠ i := fun hi hji => hj (by rw [hi, hji])
  cases timerStep_cases hs with
  | selectWall | selectPacket | registerTimeWriter | stop | noClock _ => rfl
  | setTimerAt _ _ | setPeriodicTimer _ _ | starts _ _ | startThrows _ | timePast _ => exact Function.update_of_ne (hne rfl) _ _
  | thread hs => exact (threadStep_frame hs).other (hne rfl)

/-! ## The glue code -/

/-- What a step that is not `stop` does to the settings: `m_stop` stays as it is, a clock stays selected, and `m_running` is set
only by the start of a thread. -/
structure Flags (c c' : TimerConfig ι β) (a : TimerAct ι β) : Prop where
  stop : c'.stop = c.stop
  clock : c.clockSource ≠ .UNSET → c'.clockSource ≠ .UNSET
  running : (∀ i, a ≠ .start i) → c.running = false → c'.running = false

/-- What a step does to the flags. -/
theorem timerStep_flags {a : TimerAct ι β} (hs : c.step a = some c') (ha : a ≠ .stop) : Flags c c' a := by
  cases timerStep_cases hs with
  | stop => exact absurd rfl ha
  | selectWall | selectPacket => exact ⟨rfl, fun _ => nofun, fun _ => id⟩
  | registerTimeWriter | noClock _ | setTimerAt _ _ | setPeriodicTimer _ _ | timePast _ => exact ⟨rfl, id, fun _ => id⟩
  | starts _ _ | startThrows _ => exact ⟨rfl, id, fun h => absurd rfl (h _)⟩
  | thread hs =>
    have h := threadStep_frame hs
    exact ⟨h.stop, fun hc => by rw [h.clockSource]; exact hc, fun _ => h.running⟩

/-- The thread has not entered the body of the loop of `operator()`, or has left it. -/
def TimerPc.outside (pc : TimerPc β) : Prop := pc = .idle ∨ pc = .loopTest

/-- A timer thread that finds `m_stop` set at the test of its loop does not enter the loop. -/
theorem timerStep_outside {g : TimerGlue ι β} {a : TimerAct ι β} (htt : g.tt = some i) (hallowed : g.allowed a = true)
    (hs : g.timers.step a = some c') (hstop : g.timers.stop = true) (hout : (g.timers.threads i).outside) :
    (c'.threads i).outside := by
  by_cases hmover : a.mover = some i
  · cases a with
    | selectWall | selectPacket | registerTimeWriter | stop => cases hmover
    | start j => cases hallowed
    | timePast j target =>
      cases hmover
      simp [TimerGlue.allowed, htt] at hallowed
    | setTimerAt j owner ts | setPeriodicTimer j owner us wall =>
      cases hmover
      rcases hout with hpc | hpc <;> simp [TimerGlue.allowed, htt, hpc] at hallowed
    | thread j wall pick =>
      cases hmover
      rw [TimerConfig.step, threadStep] at hs
      rcases hout with hpc | hpc
      · rw [hpc] at hs
        cases hs
      · rw [hpc] at hs
        dsimp only at hs
        rw [if_pos hstop] at hs
        cases hs
        exact Or.inl (Function.update_self _ _ _)
  · rw [timerStep_other hs hmover]
    exact hout

/-- The thread is in the loop of `operator()`, at its test or inside of it. -/
def TimerPc.inLoop : TimerPc β → Bool
  | .loopTest | .moveLock | .move | .moveUnlock => true
  | .readClock k | .procLock _ k | .procTest _ k | .procUnlock k => k = .timerLoop
  | .taken e | .deliver e | .handling e | .renew e | .relock e _ | .insert e _ => e.caller = .timerLoop
  | .schedLock _ k | .schedPush _ k | .schedUnlock k => k.any (·.caller = .timerLoop)
  | _ => false

/-- The thread is in its loop. -/
theorem inLoop_goto {pc : TimerPc β} (ht : c'.threads = Function.update c.threads i pc) (hpc : pc.inLoop = true) :
    (c'.threads i).inLoop = true := by
  rw [ht, Function.update_self]
  exact hpc

/-- As long as `m_stop` is clear, a thread in the loop stays in it. -/
theorem threadStep_inLoop {wall : ustime} {pick : Nat} (hclock : c.clockSource ≠ .UNSET) (hstop : c.stop = false)
    (hin : (c.threads i).inLoop = true) (hs : c.threadStep i wall pick = some c') : (c'.threads i).inLoop = true := by
  obtain ⟨now, hnow⟩ := getBMTime_ok hclock wall
  cases threadStep_cases hs with
  | locks hpc h hfree =>
    rw [hpc] at hin
    cases h <;> exact inLoop_goto rfl hin
  | unlocks hpc h =>
    rw [hpc] at hin
    cases h with
    | sched | past _ _ => cases hin
    | _ => exact inLoop_goto rfl hin
  | moves hpc h =>
    rw [hpc] at hin
    cases h with
    | pastRead _ _ | pastNext _ _ _ _ | pastCheck _ _ _ | pastAgain _ _ | pastEnd _ _ => cases hin
    | _ => exact inLoop_goto rfl hin
  | throws hpc h =>
    rw [hpc] at hin
    cases h with
    | readClock caller msg hmsg =>
      rw [hnow] at hmsg
      cases hmsg
    | renew e msg hmsg =>
      obtain ⟨t, ht⟩ := nextTime_ok e.timer now
      rw [hnow, ht] at hmsg
      cases hmsg
    | _ => cases hin
  | toHeap t hpc hlast => exact hin
  | loopEnd hpc hset =>
    rw [hstop] at hset
    cases hset
  | push t k hpc | take pick t tnow caller hpc hpick | deliver e hpc | reinsert e ttmp hpc hne | drop e ttmp hpc heq =>
    rw [hpc] at hin
    exact inLoop_goto rfl hin
  | stores hpc h =>
    rw [hpc] at hin
    cases h <;> cases hin

/-- A timer that is set by a handler of the timer thread. -/
theorem creates_inLoop {pc : TimerPc β} {k : Option (Expiry β)} {t : Timer β} (hpc : c.threads i = pc) (h : pc.Calls k)
    (hin : (c.threads i).inLoop = true) : ((c.creates i t k).threads i).inLoop = true := by
  rw [hpc] at hin
  cases h with
  | outside => cases hin
  | handler e => exact inLoop_goto rfl (by simpa [TimerPc.inLoop] using hin)

/-- No step of another thread or of the program takes the timer thread out of its loop. -/
theorem timerStep_inLoop {g : TimerGlue ι β} {a : TimerAct ι β} (htt : g.tt = some i) (hallowed : g.allowed a = true)
    (hs : g.timers.step a = some c') (hclock : g.timers.clockSource ≠ .UNSET) (hstop : g.timers.stop = false)
    (hin : (g.timers.threads i).inLoop = true) : (c'.threads i).inLoop = true := by
  by_cases hmover : a.mover = some i
  · cases timerStep_cases hs with
    | selectWall | selectPacket | registerTimeWriter | stop => cases hmover
    | starts _ _ | startThrows _ => cases hallowed
    | timePast _ =>
      cases hmover
      simp [TimerGlue.allowed, htt] at hallowed
    | setTimerAt hpc h | setPeriodicTimer hpc h =>
      cases hmover
      exact creates_inLoop hpc h hin
    | noClock _ => exact hin
    | thread hs =>
      cases hmover
      exact threadStep_inLoop hclock hstop hin hs
  · rw [timerStep_other hs hmover]
    exact hin

/-- What holds in every state the glue code reaches with the steps `acts`: `m_stop` is set exactly if `stop_timer_thread` was ever
called; a thread that has begun with `m_stop` clear is in the loop, one that runs with `m_stop` set from the start is not. -/
structure GlueInv (acts : List (GlueAct ι β)) (g : TimerGlue ι β) : Prop where
  clock : g.timers.clockSource ≠ .UNSET
  stop : g.timers.stop = true ↔ .stopTimerThread ∈ acts
  asked : g.joining = true ∨ g.begun = true ∧ g.tt = none → g.timers.stop = true
  running : g.timers.stop = false → g.begun = false → g.timers.running = false
  outside : ∀ i, g.tt = some i → g.joining = false → g.timers.stop = true → (g.timers.threads i).outside
  inLoop : ∀ i, g.tt = some i → g.begun = true → g.timers.stop = false → (g.timers.threads i).inLoop = true

omit [DecidableEq ι] in
/-- The invariant holds at the start. -/
theorem glueInv_new : GlueInv [] (TimerGlue.new : TimerGlue ι β) := by
  constructor <;> simp [TimerGlue.new, TimerConfig.new]

section

variable {acts : List (GlueAct ι β)} {g g' : TimerGlue ι β}

omit [DecidableEq ι] in
/-- Any other act adds no stop. -/
theorem mem_snoc_of_ne (a : GlueAct ι β) (ha : a ≠ .stopTimerThread) :
    .stopTimerThread ∈ acts ++ [a] ↔ .stopTimerThread ∈ acts := by
  simp [Ne.symm ha]

/-- A start keeps the invariant. -/
theorem startTimerThread_inv (h : GlueInv acts g) (hs : g.step (.startTimerThread i) = some g') :
    GlueInv (acts ++ [.startTimerThread i]) g' := by
  rw [TimerGlue.step] at hs
  split at hs <;> cases hs
  rename_i htt hpc
  have hrun : g.timers.stop = false → g.timers.running = false := by
    intro hstop
    cases hb : g.begun with
    | false => exact h.running hstop hb
    | true => exact absurd (h.asked (Or.inr ⟨hb, htt⟩)) (by rw [hstop]; exact nofun)
  refine ⟨h.clock, h.stop.trans (mem_snoc_of_ne (.startTimerThread i) nofun).symm, ?_, fun hstop _ => hrun hstop,
    fun j hj _ _ => ?_, fun j _ hb => ?_⟩
  · rintro (hj | ⟨hb, -⟩)
    · cases hj
    · cases hb
  · cases hj
    exact Or.inl hpc
  · cases hb

/-- The begin of the thread keeps the invariant. -/
theorem begins_inv (h : GlueInv acts g) (hs : g.step .begins = some g') : GlueInv (acts ++ [.begins]) g' := by
  rw [TimerGlue.step] at hs
  split at hs
  · rename_i i htt hbegun
    obtain ⟨c', hc', rfl⟩ := Option.map_eq_some_iff.mp hs
    have hf := timerStep_flags hc' (by simp)
    rw [TimerConfig.step] at hc'
    refine ⟨hf.clock h.clock, by rw [hf.stop, h.stop, mem_snoc_of_ne .begins (by simp)], ?_, fun _ hb => (by cases hb), ?_, ?_⟩
    · rintro (hj | ⟨-, hnone⟩)
      · rw [hf.stop]
        exact h.asked (Or.inl hj)
      · cases htt.symm.trans hnone
    · intro j hj _ _
      cases htt.symm.trans hj
      split at hc'
      · split at hc' <;> cases hc'
        · exact Or.inl (Function.update_self _ _ _)
        · exact Or.inr (Function.update_self _ _ _)
      · cases hc'
    · intro j hj _ hstop
      cases htt.symm.trans hj
      rw [hf.stop] at hstop
      rw [h.running hstop hbegun] at hc'
      split at hc' <;> cases hc'
      exact inLoop_goto rfl rfl
  · cases hs

/-- A stop keeps the invariant. -/
theorem stopTimerThread_inv (hs : g.step .stopTimerThread = some g') (h : GlueInv acts g) :
    GlueInv (acts ++ [.stopTimerThread]) g' := by
  rw [TimerGlue.step] at hs
  split at hs <;> cases hs
  exact ⟨h.clock, by simp, fun _ => rfl, fun hstop => (nomatch hstop), fun _ _ hj => (nomatch hj), fun _ _ _ hstop => nomatch hstop⟩

/-- The join keeps the invariant. -/
theorem joined_inv (h : GlueInv acts g) (hs : g.step .joined = some g') : GlueInv (acts ++ [.joined]) g' := by
  rw [TimerGlue.step] at hs
  split at hs
  · cases hs
  · split at hs <;> cases hs
    rename_i hbegun hjoin
    have hstop := h.asked (Or.inl hjoin)
    exact ⟨h.clock, h.stop.trans (mem_snoc_of_ne .joined nofun).symm, fun _ => hstop, h.running, fun _ htt => (nomatch htt),
      fun _ htt => nomatch htt⟩

/-- A step of the timers keeps the invariant. -/
theorem timers_inv {a : TimerAct ι β} (h : GlueInv acts g) (hs : g.step (.timers a) = some g') :
    GlueInv (acts ++ [.timers a]) g' := by
  rw [TimerGlue.step] at hs
  split at hs
  · rename_i hallowed
    obtain ⟨c', hc', rfl⟩ := Option.map_eq_some_iff.mp hs
    have hstop : a ≠ .stop := by
      rintro rfl
      cases hallowed
    have hstart : ∀ i, a ≠ .start i := by
      rintro i rfl
      cases hallowed
    have hf := timerStep_flags hc' hstop
    refine ⟨hf.clock h.clock, by rw [hf.stop, h.stop, mem_snoc_of_ne (.timers a) nofun], ?_, ?_, ?_, ?_⟩
    · rw [hf.stop]
      exact h.asked
    · rw [hf.stop]
      exact fun hs hb => hf.running hstart (h.running hs hb)
    · rw [hf.stop]
      exact fun i htt hj hs => timerStep_outside (g := g) htt hallowed hc' hs (h.outside i htt hj hs)
    · rw [hf.stop]
      exact fun i htt hb hs => timerStep_inLoop (g := g) htt hallowed hc' h.clock hs (h.inLoop i htt hb hs)
  · cases hs

end

/-- The invariant holds after any acts. -/
theorem run_glueInv {acts : List (GlueAct ι β)} {g : TimerGlue ι β} (hr : Lts.run TimerGlue.step TimerGlue.new acts = some g) :
    GlueInv acts g := by
  induction acts using List.reverseRecOn generalizing g with
  | nil =>
    cases hr
    exact glueInv_new
  | append_singleton acts a ih =>
    obtain ⟨m, hm, hs⟩ := Lts.run_snoc_eq_some.mp hr
    cases a with
    | startTimerThread i => exact startTimerThread_inv (ih hm) hs
    | begins => exact begins_inv (ih hm) hs
    | stopTimerThread => exact stopTimerThread_inv hs (ih hm)
    | joined => exact joined_inv (ih hm) hs
    | timers a => exact timers_inv (ih hm) hs

end Blockmon
