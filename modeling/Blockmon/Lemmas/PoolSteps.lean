import Blockmon.ThreadPool

/-!
# The steps of a thread pool

`workerStep_cases` says what a step of a worker can be, `controllerStep_cases` what a step of the controlling thread in the loops of
`run` and `stop` can be, and `poolStep_cases` adds the calls of the controlling thread. What the steps keep is derived from these.
-/

namespace Blockmon

open PoolConfig

variable {β : Type}

/-- What a step of worker `w` can be. -/
inductive WorkerStep (c : PoolConfig β) (w : Nat) : PoolConfig β → Prop where
  | start (hpc : (c.pool.threads w).pc = .start) :
      WorkerStep c w (c.setWorker w { c.pool.threads w with pc := .test, stop := false })
  | goOn (hpc : (c.pool.threads w).pc = .test) (hstop : (c.pool.threads w).stop = false) :
      WorkerStep c w (c.setWorker w { c.pool.threads w with pc := .fetch })
  | leave (hpc : (c.pool.threads w).pc = .test) (hstop : (c.pool.threads w).stop = true) :
      WorkerStep c w (c.setWorker w { c.pool.threads w with pc := .leave })
  | noTask (hpc : (c.pool.threads w).pc = .fetch) (hq : c.pool.queue = []) :
      WorkerStep c w ((c.setQueue []).setWorker w { c.pool.threads w with pc := .test, torun := none })
  | fetch (b : β) (q : List β) (hpc : (c.pool.threads w).pc = .fetch) (hq : c.pool.queue = b :: q) :
      WorkerStep c w (((c.setQueue q).setWorker w { c.pool.threads w with pc := .run, torun := some b }).emit (.delivered w b))
  | returns (b : β) (hpc : (c.pool.threads w).pc = .run) (htorun : (c.pool.threads w).torun = some b) :
      WorkerStep c w ((c.setWorker w { c.pool.threads w with pc := .giveBack }).emit (.returned w b))
  | throws (b : β) (msg : String) (hpc : (c.pool.threads w).pc = .run) (htorun : (c.pool.threads w).torun = some b) :
      WorkerStep c w ((c.setWorker w { c.pool.threads w with pc := .test }).emit (.threw w b msg))
  | putBack (b : β) (hpc : (c.pool.threads w).pc = .giveBack) (htorun : (c.pool.threads w).torun = some b) :
      WorkerStep c w (((c.setQueue (c.pool.queue ++ [b])).setWorker w { c.pool.threads w with pc := .test, torun := none }).emit
        (.putBack w b))
  | ends (hpc : (c.pool.threads w).pc = .leave) :
      WorkerStep c w (c.setWorker w { c.pool.threads w with pc := .ended, stop := true })

variable {c c' : PoolConfig β} {w : Nat} {inp : RunInput}

theorem workerStep_cases (hs : c.workerStep w inp = some c') : WorkerStep c w c' := by
  cases hpc : (c.pool.threads w).pc with
  | off | ended =>
    simp only [workerStep, hpc] at hs
    cases hs
  | start =>
    simp only [workerStep, hpc] at hs
    cases hs
    exact .start hpc
  | test =>
    cases hstop : (c.pool.threads w).stop with
    | true =>
      simp only [workerStep, hpc, hstop, if_true] at hs
      cases hs
      exact hstop ▸ .leave hpc hstop
    | false =>
      simp only [workerStep, hpc, hstop, Bool.false_eq_true, if_false] at hs
      cases hs
      exact hstop ▸ .goOn hpc hstop
  | fetch =>
    cases hq : c.pool.queue with
    | nil =>
      simp only [workerStep, hpc, hq, DumbScheduler.nextTask] at hs
      cases hs
      exact .noTask hpc hq
    | cons b q =>
      simp only [workerStep, hpc, hq, DumbScheduler.nextTask] at hs
      cases hs
      exact .fetch b q hpc hq
  | run =>
    simp only [workerStep, hpc] at hs
    split at hs
    · cases hs
    · rename_i b htorun
      split at hs <;> cases hs
      · exact .returns b hpc htorun
      · exact .throws b _ hpc htorun
  | giveBack =>
    simp only [workerStep, hpc] at hs
    split at hs
    · cases hs
    · rename_i b htorun
      cases hs
      exact .putBack b hpc htorun
  | leave =>
    simp only [workerStep, hpc] at hs
    cases hs
    exact .ends hpc

/-- What a step of the controlling thread in the loops of `run` and `stop` can be. -/
inductive ControllerStep (c : PoolConfig β) : PoolConfig β → Prop where
  | starts (i : Nat) (hc : c.controller = .starting i) (hi : i < c.pool.threadnum) (haff : affinityOk c.pool.affinity = true) :
      ControllerStep c { c.setWorker i { c.pool.threads i with pc := .start } with controller := .starting (i + 1) }
  | refused (i : Nat) (msg : String) (hc : c.controller = .starting i) (hi : i < c.pool.threadnum)
      (haff : affinityOk c.pool.affinity = false) : ControllerStep c ({ c with controller := .idle }.emit (.refused msg))
  | started (i : Nat) (hc : c.controller = .starting i) (hi : c.pool.threadnum ≤ i) :
      ControllerStep c { c with pool := { c.pool with running := true }, controller := .idle }
  | asks (i : Nat) (hc : c.controller = .stopping i) (hi : i < c.pool.threadnum) :
      ControllerStep c { c.setWorker i { c.pool.threads i with stop := true } with controller := .joining i }
  | stopped (i : Nat) (hc : c.controller = .stopping i) (hi : c.pool.threadnum ≤ i) :
      ControllerStep c { c with pool := { c.pool with running := false }, controller := .idle }
  | joins (i : Nat) (hc : c.controller = .joining i) (hended : (c.pool.threads i).pc = .ended) :
      ControllerStep c { c.setWorker i { c.pool.threads i with pc := .off } with controller := .stopping (i + 1) }

theorem controllerStep_cases (hs : c.controllerStep = some c') : ControllerStep c c' := by
  cases hc : c.controller with
  | idle =>
    simp only [controllerStep, hc] at hs
    cases hs
  | starting i =>
    simp only [controllerStep, hc] at hs
    split at hs
    · rename_i hi
      split at hs <;> cases hs
      · exact .starts i hc hi ‹_›
      · exact .refused i _ hc hi (Bool.eq_false_iff.mpr ‹_›)
    · cases hs
      exact .started i hc (Nat.not_lt.mp ‹_›)
  | stopping i =>
    simp only [controllerStep, hc] at hs
    split at hs <;> cases hs
    · exact .asks i hc ‹_›
    · exact .stopped i hc (Nat.not_lt.mp ‹_›)
  | joining i =>
    simp only [controllerStep, hc] at hs
    split at hs <;> cases hs
    exact .joins i hc ‹_›

/-- A label of a thread that is inside the pool: no new call of the controlling thread. -/
def PoolAct.inside : PoolAct β → Bool
  | .worker _ _ | .controller => true
  | _ => false

/-- What a step can be. -/
inductive PoolStep [DecidableEq β] (c : PoolConfig β) : PoolAct β → PoolConfig β → Prop where
  | worker {w : Nat} {inp : RunInput} {c' : PoolConfig β} (h : WorkerStep c w c') : PoolStep c (.worker w inp) c'
  | controller {c' : PoolConfig β} (h : ControllerStep c c') : PoolStep c .controller c'
  /-- A call throws, for the pool is running, or not running. -/
  | refused {a : PoolAct β} (msg : String) (hcall : a.inside = false) (hidle : c.controller = .idle) :
      PoolStep c a (c.emit (.refused msg))
  | addTask (b : β) (hidle : c.controller = .idle) (hrunning : c.pool.running = false) :
      PoolStep c (.addTask b) ((c.setQueue (c.pool.queue ++ [b])).emit (.added b))
  | removeTask (b : β) (hidle : c.controller = .idle) (hrunning : c.pool.running = false) :
      PoolStep c (.removeTask b) ((c.setQueue (c.pool.queue.filter (· ≠ b))).emit (.removed b))
  | run (hidle : c.controller = .idle) (hrunning : c.pool.running = false) : PoolStep c .run { c with controller := .starting 0 }
  | stop (hidle : c.controller = .idle) (hrunning : c.pool.running = true) : PoolStep c .stop { c with controller := .stopping 0 }

theorem poolStep_cases [DecidableEq β] {a : PoolAct β} (hs : c.step a = some c') : PoolStep c a c' := by
  cases a with
  | worker w inp => exact .worker (workerStep_cases hs)
  | controller => exact .controller (controllerStep_cases hs)
  | addTask b =>
    rw [PoolConfig.step] at hs
    split at hs
    · split at hs <;> cases hs
      · exact .refused _ rfl ‹_›
      · exact .addTask b ‹_› (Bool.eq_false_iff.mpr ‹_›)
    · cases hs
  | removeTask b =>
    rw [PoolConfig.step] at hs
    split at hs
    · split at hs <;> cases hs
      · exact .refused _ rfl ‹_›
      · exact .removeTask b ‹_› (Bool.eq_false_iff.mpr ‹_›)
    · cases hs
  | run =>
    rw [PoolConfig.step] at hs
    split at hs
    · split at hs <;> cases hs
      · exact .refused _ rfl ‹_›
      · exact .run ‹_› (Bool.eq_false_iff.mpr ‹_›)
    · cases hs
  | stop =>
    rw [PoolConfig.step] at hs
    split at hs
    · split at hs <;> cases hs
      · exact .stop ‹_› ‹_›
      · exact .refused _ rfl ‹_›
    · cases hs

end Blockmon
