import Blockmon.Lemmas.TimerGlue

/-!
# Stopping and starting again

`m_stop` is set by `stop` and never cleared, and the `TimerThread` object is the same for all the threads that are started. Only the
first thread finds `m_stop` clear.
-/

namespace Blockmon

section

variable {ι β : Type} [DecidableEq ι]

/-- `m_stop` is clear and the thread `i`, once it has begun, is in its loop. -/
def Serves (g : TimerGlue ι β) (i : ι) : Prop :=
  g.timers.stop = false ∧ (g.begun = true → (g.timers.threads i).inLoop = true)

/-- In every run of the glue code, in every state after a start and before the next stop: the thread serves its timers exactly if
`stop_timer_thread` was never called; if it was, the thread never enters the loop. -/
theorem timer_thread_serves_iff (acts : List (GlueAct ι β)) (g : TimerGlue ι β)
    (hr : Lts.run TimerGlue.step TimerGlue.new acts = some g) (i : ι) (htt : g.tt = some i) (hjoin : g.joining = false) :
    (Serves g i ↔ .stopTimerThread ∉ acts) ∧ (.stopTimerThread ∈ acts → (g.timers.threads i).outside) := by
  have h := run_glueInv hr
  have hflag : g.timers.stop = false ↔ .stopTimerThread ∉ acts := by rw [← h.stop, Bool.not_eq_true]
  refine ⟨⟨fun hserves => hflag.mp hserves.1, fun hnone => ?_⟩, fun hmem => h.outside i htt hjoin (h.stop.mpr hmem)⟩
  have hstop := hflag.mpr hnone
  exact ⟨hstop, fun hb => h.inLoop i htt hb hstop⟩

end

/-- One complete cycle: the thread starts, is stopped and joined. -/
def glueCycle : List (GlueAct Bool Unit) :=
  [.startTimerThread true, .begins, .stopTimerThread, .timers (.thread true 0 0), .joined]

/-- In the first cycle the thread serves its timers. -/
theorem timer_thread_serves_first : ∃ g, Lts.run TimerGlue.step (TimerGlue.new : TimerGlue Bool Unit) (glueCycle.take 2) = some g ∧
    g.tt = some true ∧ g.joining = false ∧ Serves g true := by
  have hrun : (Lts.run TimerGlue.step (TimerGlue.new : TimerGlue Bool Unit) (glueCycle.take 2)).map
      (fun g => (g.tt, g.joining)) = some (some true, false) := by decide +kernel
  obtain ⟨g, hg, hres⟩ := Option.map_eq_some_iff.mp hrun
  rw [Prod.mk.injEq] at hres
  exact ⟨g, hg, hres.1, hres.2, (timer_thread_serves_iff _ g hg true hres.1 hres.2).1.mpr (by simp [glueCycle])⟩

/-- In the second cycle `m_stop` is set from the start. -/
theorem timer_thread_restart_fails : ¬∀ (acts : List (GlueAct Bool Unit)) (g : TimerGlue Bool Unit),
    Lts.run TimerGlue.step TimerGlue.new acts = some g → ∀ i, g.tt = some i → g.joining = false → Serves g i := by
  intro hall
  have hrun : (Lts.run TimerGlue.step (TimerGlue.new : TimerGlue Bool Unit) (glueCycle ++ [.startTimerThread true, .begins])).map
      (fun g => (g.tt, g.joining, g.timers.stop)) = some (some true, false, true) := by decide +kernel
  obtain ⟨g, hg, hres⟩ := Option.map_eq_some_iff.mp hrun
  simp only [Prod.mk.injEq] at hres
  obtain ⟨htt, hjoin, hstop⟩ := hres
  obtain ⟨hclear, -⟩ := hall _ g hg true htt hjoin
  rw [hstop] at hclear
  cases hclear

end Blockmon
