import Blockmon.Lemmas.ThreadPool
import Blockmon.PoolManager

/-!
# What the calls on a thread pool do

`run_run` and `run_stop` say when `ThreadPool::run` and `ThreadPool::stop` throw and what they leave. `run_of_steps` and
`stop_of_steps` connect them to the interleavings of the threads' steps: the call `run` is the loop of the controlling thread, and
whatever the workers do while the controlling thread is in `stop`, the pool it leaves is one of those the call `stop` leaves.
-/

namespace Blockmon

variable {β : Type}

namespace ThreadPool

/-- The workers `i < n` after each got the state `f i`. -/
def setThreads (p : ThreadPool β) (n : Nat) (f : Nat → Worker β → Worker β) : ThreadPool β :=
  { p with threads := fun w => if w < n then f w (p.threads w) else p.threads w }

/-- The pool as `run` leaves it. -/
def started (p : ThreadPool β) : ThreadPool β :=
  { p.setThreads p.threadnum (fun _ x => { x with pc := .start }) with running := true }

/-- The pool as `stop` leaves it. -/
def stopped (left : Leftover β) (p : ThreadPool β) : ThreadPool β :=
  { p.setThreads p.threadnum (fun i _ => { pc := .off, stop := true, torun := left.torun i }) with
    running := false, queue := left.queue }

/-- The pools on which `run` throws. -/
def refusesRun (p : ThreadPool β) : Bool := p.running || (decide (0 < p.threadnum) && !affinityOk p.affinity)

/-- One thread after the others. -/
theorem setThread_setThreads (p : ThreadPool β) (n : Nat) (f : Nat → Worker β → Worker β) :
    (p.setThreads n f).setThread n (f n ((p.setThreads n f).threads n)) = p.setThreads (n + 1) f := by
  simp only [setThread, setThreads, ThreadPool.mk.injEq, true_and]
  funext w
  by_cases hw : w = n
  · subst hw
    simp
  · have : w < n ↔ w < n + 1 := by omega
    simp [Function.update_of_ne hw, this]

/-- A loop over the workers in which no iteration throws. -/
theorem run_forM_setThread {g : Nat → EStateM String (ThreadPool β) Unit} {f : Nat → Worker β → Worker β} {I : ThreadPool β → Prop}
    (hg : ∀ i p, I p → (g i).run p = .ok () (p.setThread i (f i (p.threads i)))) (hI : ∀ i p x, I p → I (p.setThread i x))
    {p : ThreadPool β} (hp : I p) (n : Nat) :
    (forM (List.range n) g).run p = .ok () (p.setThreads n f) ∧ I (p.setThreads n f) := by
  induction n with
  | zero => exact ⟨by simp [setThreads], by simpa [setThreads] using hp⟩
  | succ n ih =>
    obtain ⟨hrun, hinv⟩ := ih
    rw [← setThread_setThreads]
    refine ⟨?_, hI _ _ _ hinv⟩
    rw [List.range_succ, List.forM_append, EStateM.run_bind, hrun]
    simp [hg _ _ hinv]

/-- A thread starts where its affinity is allowed. -/
theorem run_threadHandler_run {p : ThreadPool β} (h : affinityOk p.affinity = true) (i : Nat) :
    (ThreadHandler.run i).run p = .ok () (p.setThread i { p.threads i with pc := .start }) := by
  simp only [ThreadHandler.run, EStateM.run_bind, EStateM.run_get, h, Bool.true_eq_false, if_false]
  rfl

/-- A thread with a wrong affinity throws. -/
theorem run_threadHandler_run_throws {p : ThreadPool β} (h : affinityOk p.affinity = false) (i : Nat) :
    (ThreadHandler.run i).run p = .error "affinity value higher than maximum allowed" p := by
  simp only [ThreadHandler.run, EStateM.run_bind, EStateM.run_get, h, if_true]
  rfl

/-- `ThreadPool::run` throws before it has changed anything: the first worker refuses an affinity that the others would refuse. -/
theorem run_run (p : ThreadPool β) :
    run.run p =
      if p.running then .error "thread pool il already running" p
      else if 0 < p.threadnum ∧ affinityOk p.affinity = false then .error "affinity value higher than maximum allowed" p
      else .ok () p.started := by
  cases hr : p.running with
  | true =>
    simp only [run, EStateM.run_bind, EStateM.run_get, hr, if_true]
    rfl
  | false =>
    simp only [run, EStateM.run_bind, EStateM.run_get, hr, Bool.false_eq_true, if_false]
    by_cases h : 0 < p.threadnum ∧ affinityOk p.affinity = false
    · obtain ⟨n, hn⟩ := Nat.exists_eq_succ_of_ne_zero h.1.ne'
      have hloop : (forM (List.range p.threadnum) ThreadHandler.run).run p =
          .error "affinity value higher than maximum allowed" p := by
        rw [hn, List.range_succ_eq_map, List.forM_cons, EStateM.run_bind, run_threadHandler_run_throws h.2]
      rw [if_pos h, hloop]
    · have hloop : (forM (List.range p.threadnum) ThreadHandler.run).run p =
          .ok () (p.setThreads p.threadnum fun _ x => { x with pc := .start }) := by
        rcases Nat.eq_zero_or_pos p.threadnum with h0 | hpos
        · rw [h0]
          simp [setThreads]
        · have haff : affinityOk p.affinity = true := by
            rw [← Bool.not_eq_false]
            exact fun hf => h ⟨hpos, hf⟩
          exact (run_forM_setThread (I := fun p => affinityOk p.affinity = true) (fun i p hp => run_threadHandler_run hp i)
            (fun _ _ _ hp => hp) haff p.threadnum).1
      rw [if_neg h, hloop]
      rfl

/-- `stop`, as a run. -/
theorem run_stop (left : Leftover β) (p : ThreadPool β) :
    (stop left).run p = if p.running then .ok () (p.stopped left) else .error "thread pool is not running" p := by
  cases hr : p.running with
  | false =>
    simp only [stop, EStateM.run_bind, EStateM.run_get, hr, if_true]
    rfl
  | true =>
    have hloop : (forM (List.range p.threadnum) (ThreadHandler.stop left)).run p =
        .ok () (p.setThreads p.threadnum fun i _ => { pc := .off, stop := true, torun := left.torun i }) :=
      (run_forM_setThread (g := ThreadHandler.stop left) (I := fun _ => True) (fun _ _ _ => rfl) (fun _ _ _ _ => trivial) trivial
        p.threadnum).1
    simp only [stop, EStateM.run_bind, EStateM.run_get, hr, Bool.true_eq_false, if_false, hloop]
    rfl

/-- `add_task`, as a run. -/
theorem run_addTask (b : β) (p : ThreadPool β) :
    (addTask b).run p =
      if p.running then .error "cannot add task when thread pool is already running" p
      else .ok () { p with queue := p.queue ++ [b] } := by
  simp only [addTask, EStateM.run_bind, EStateM.run_get]
  split <;> rfl

/-- `remove_task`, as a run. -/
theorem run_removeTask [DecidableEq β] (b : β) (p : ThreadPool β) :
    (removeTask b).run p =
      if p.running then .error "cannot remove task when thread pool is already running" p
      else .ok () { p with queue := p.queue.filter (· ≠ b) } := by
  simp only [removeTask, EStateM.run_bind, EStateM.run_get]
  split <;> rfl

/-- `run` throws exactly on the pools that refuse it. -/
theorem run_run_of_refuses {p : ThreadPool β} (h : p.refusesRun = true) : ∃ e, run.run p = .error e p := by
  rw [run_run]
  simp only [refusesRun, Bool.or_eq_true, Bool.and_eq_true, decide_eq_true_eq, Bool.not_eq_true'] at h
  rcases h with h | h
  · exact ⟨_, by rw [if_pos h]⟩
  · cases p.running with
    | true => exact ⟨_, rfl⟩
    | false => exact ⟨_, by rw [if_neg Bool.false_ne_true, if_pos h]⟩

/-- `run` starts the threads of a pool that accepts it. -/
theorem run_run_of_accepts {p : ThreadPool β} (h : p.refusesRun = false) : run.run p = .ok () p.started := by
  rw [run_run]
  simp only [refusesRun, Bool.or_eq_false_iff, Bool.and_eq_false_iff, decide_eq_false_iff_not, Bool.not_eq_false'] at h
  rw [if_neg (by simp [h.1]), if_neg]
  rintro ⟨hpos, haff⟩
  rcases h.2 with h | h
  · exact h hpos
  · rw [haff] at h
    cases h

end ThreadPool

/-! ## The calls keep the pool staffed -/

/-- The staff of a pool between two calls. -/
theorem staffed_between {p : ThreadPool β} : Staffed (PoolConfig.between p) ↔
    (∀ w, p.threadnum ≤ w → (p.threads w).pc = .off) ∧ (p.running = false → ∀ w, (p.threads w).pc = .off) :=
  ⟨fun h => ⟨h.bounded, h.dormant⟩, fun h => ⟨h.1, h.2⟩⟩

/-- A new pool is staffed. -/
theorem staffed_new (tnum : Nat) (affinity : List Nat) : Staffed (PoolConfig.between (ThreadPool.new tnum affinity : ThreadPool β)) :=
  staffed_between.mpr ⟨fun _ _ => rfl, fun _ _ => rfl⟩

/-- Another queue keeps the staff. -/
theorem staffed_setQueue {p : ThreadPool β} (h : Staffed (PoolConfig.between p)) (q : List β) :
    Staffed (PoolConfig.between { p with queue := q }) := h.setQueue q

/-- A start keeps the staff. -/
theorem staffed_started {p : ThreadPool β} (h : Staffed (PoolConfig.between p)) : Staffed (PoolConfig.between p.started) := by
  refine staffed_between.mpr ⟨fun w hw => ?_, nofun⟩
  have hw' : ¬w < p.threadnum := Nat.not_lt.mpr hw
  simpa [ThreadPool.started, ThreadPool.setThreads, hw'] using (staffed_between.mp h).1 w hw

/-- A stop keeps the staff. -/
theorem staffed_stopped {p : ThreadPool β} (h : Staffed (PoolConfig.between p)) (left : Leftover β) :
    Staffed (PoolConfig.between (p.stopped left)) := by
  have hoff : ∀ w, ((p.stopped left).threads w).pc = .off := by
    intro w
    simp only [ThreadPool.stopped, ThreadPool.setThreads]
    split
    · rfl
    · rename_i hw
      exact h.bounded w (Nat.not_lt.mp hw)
  exact staffed_between.mpr ⟨fun w _ => hoff w, fun _ => hoff⟩

/-- A worker that has a thread changes its own state and the queue; it keeps its thread, and ends with `m_stop` set. -/
theorem workerStep_pool {c c' : PoolConfig β} {w : Nat} (hs : WorkerStep c w c') :
    (c.pool.threads w).pc ≠ .off ∧ c'.controller = c.controller ∧
      ∃ x q, c'.pool = { c.pool.setThread w x with queue := q } ∧ x.pc ≠ .off ∧ (x.pc = .ended → x.stop = true) := by
  cases hs with
  | ends hpc => exact ⟨by simp [hpc], rfl, _, c.pool.queue, rfl, nofun, fun _ => rfl⟩
  | start hpc | goOn hpc | leave hpc | returns _ hpc | throws _ _ hpc =>
    exact ⟨by simp [hpc], rfl, _, c.pool.queue, rfl, nofun, nofun⟩
  | noTask hpc | fetch _ _ hpc | putBack _ hpc => exact ⟨by simp [hpc], rfl, _, _, rfl, nofun, nofun⟩

/-- A step of a worker keeps the staff. -/
theorem workerStep_between {p : ThreadPool β} {c : PoolConfig β} {w : Nat} {inp : RunInput} (h : Staffed (PoolConfig.between p))
    (hs : (PoolConfig.between p).workerStep w inp = some c) : Staffed (PoolConfig.between c.pool) := by
  obtain ⟨-, hctl, -⟩ := workerStep_pool (workerStep_cases hs)
  have hc := workerStep_staffed h (workerStep_cases hs)
  have hd := hc.dormant
  rw [Dormant, hctl] at hd
  exact ⟨hc.bounded, hd⟩

/-- A pool that is stopped between two calls has no thread. -/
theorem Staffed.hasThreads_eq_false {p : ThreadPool β} (h : Staffed (PoolConfig.between p)) (hr : p.running = false) :
    p.hasThreads = false := by
  simp [ThreadPool.hasThreads, (staffed_between.mp h).2 hr]

/-! ## The calls and the threads' steps -/

/-- A worker that is not started, or whose functor returned, has `m_stop` set. -/
def StoppedFlags (c : PoolConfig β) : Prop :=
  ∀ w, (c.pool.threads w).pc = .off ∨ (c.pool.threads w).pc = .ended → (c.pool.threads w).stop = true

/-- What does not change between the pool `p` that `stop` finds and the one it leaves; it ends with the pool stopped. -/
structure Stopping (p : ThreadPool β) (c : PoolConfig β) : Prop where
  staffed : Staffed c
  flags : StoppedFlags c
  threadnum : c.pool.threadnum = p.threadnum
  affinity : c.pool.affinity = p.affinity
  beyond : ∀ w, p.threadnum ≤ w → c.pool.threads w = p.threads w
  place : (∃ i, c.controller = .stopping i ∨ c.controller = .joining i) ∨ (c.controller = .idle ∧ c.pool.running = false)

/-- A worker that ends has its flag. -/
theorem StoppedFlags.update {c c' : PoolConfig β} {w : Nat} {x : Worker β} (h : StoppedFlags c)
    (hthreads : c'.pool.threads = Function.update c.pool.threads w x)
    (hx : x.pc = .off ∨ x.pc = .ended → x.stop = true) : StoppedFlags c' := by
  intro v hv
  rw [hthreads] at hv ⊢
  by_cases hvw : v = w
  · subst hvw
    rw [Function.update_self] at hv ⊢
    exact hx hv
  · rw [Function.update_of_ne hvw] at hv ⊢
    exact h v hv

/-- The controller keeps the flags. -/
theorem controllerStep_stoppedFlags {c c' : PoolConfig β} (h : StoppedFlags c) (hs : ControllerStep c c') : StoppedFlags c' := by
  cases hs with
  | starts i => exact h.update rfl (by simp)
  | asks i => exact h.update rfl fun _ => rfl
  | joins i hc hended => exact h.update rfl fun _ => h i (Or.inr hended)
  | refused | started | stopped => exact h

variable [DecidableEq β]

/-- Every step keeps the flags. -/
theorem step_stoppedFlags {c c' : PoolConfig β} {a : PoolAct β} (h : StoppedFlags c) (hs : c.step a = some c') :
    StoppedFlags c' := by
  cases poolStep_cases hs with
  | worker hw =>
    obtain ⟨-, -, x, q, hpool, hoff, hended⟩ := workerStep_pool hw
    refine h.update (by rw [hpool]; rfl) ?_
    rintro (hx | hx)
    · exact absurd hx hoff
    · exact hended hx
  | controller hc => exact controllerStep_stoppedFlags h hc
  | refused | addTask | removeTask | run | stop => exact h

/-- A step inside of the stop. -/
theorem Stopping.step {p : ThreadPool β} {c c' : PoolConfig β} {a : PoolAct β} (h : Stopping p c) (ha : a.inside = true)
    (hs : c.step a = some c') : Stopping p c' := by
  have hstaffed := step_staffed h.staffed hs
  have hflags := step_stoppedFlags h.flags hs
  cases poolStep_cases hs with
  | @worker w _ _ hw =>
    obtain ⟨hpc, hctl, x, q, hpool, -, -⟩ := workerStep_pool hw
    have hw : w < p.threadnum := h.threadnum ▸ h.staffed.lt_of_pc hpc
    refine ⟨hstaffed, hflags, by rw [hpool]; exact h.threadnum, by rw [hpool]; exact h.affinity, fun v hv => ?_, ?_⟩
    · have hvw : v ≠ w := by omega
      rw [hpool, ← h.beyond v hv]
      exact Function.update_of_ne hvw _ _
    · rw [hctl, hpool]
      exact h.place
  | controller hstep =>
    have hn := h.threadnum
    cases hstep with
    | asks i hc hi =>
      refine ⟨hstaffed, hflags, hn, h.affinity, fun v hv => ?_, Or.inl ⟨i, Or.inr rfl⟩⟩
      rw [← h.beyond v hv]
      exact Function.update_of_ne (by omega) _ _
    | stopped i hc hi => exact ⟨hstaffed, hflags, hn, h.affinity, h.beyond, Or.inr ⟨rfl, rfl⟩⟩
    | joins i hc hended =>
      have hi := h.staffed.lt_of_pc (w := i) (by simp [hended])
      refine ⟨hstaffed, hflags, hn, h.affinity, fun v hv => ?_, Or.inl ⟨i + 1, Or.inl rfl⟩⟩
      rw [← h.beyond v hv]
      exact Function.update_of_ne (by omega) _ _
    | starts i hc | refused i _ hc | started i hc =>
      rcases h.place with ⟨j, hp | hp⟩ | ⟨hp, -⟩ <;> exact absurd (hc.symm.trans hp) nofun
  | refused _ hcall => exact absurd (ha.symm.trans hcall) nofun
  | addTask | removeTask | run | stop => cases ha

/-- Steps inside of the stop. -/
theorem Stopping.run {p : ThreadPool β} {acts : List (PoolAct β)} {c c' : PoolConfig β} (h : Stopping p c)
    (hacts : ∀ a ∈ acts, a.inside = true) (hrun : Lts.run PoolConfig.step c acts = some c') : Stopping p c' := by
  induction acts generalizing c with
  | nil =>
    cases hrun
    exact h
  | cons a acts ih =>
    obtain ⟨c₁, hs, hrun⟩ := Option.bind_eq_some_iff.mp hrun
    exact ih (h.step (hacts a List.mem_cons_self) hs) (fun b hb => hacts b (List.mem_cons_of_mem _ hb)) hrun

/-- Whatever the threads do while `ThreadPool::stop` is called on a running pool, when the controlling thread is outside the pool
again the pool is one that the call `stop` leaves. -/
theorem stop_of_steps {c c' : PoolConfig β} {acts : List (PoolAct β)} (h : Staffed c) (hflags : StoppedFlags c)
    (hidle : c.controller = .idle) (hrunning : c.pool.running = true) (hacts : ∀ a ∈ acts, a.inside = true)
    (hrun : Lts.run PoolConfig.step c (.stop :: acts) = some c') (hidle' : c'.controller = .idle) :
    ∃ left, (ThreadPool.stop left).run c.pool = .ok () c'.pool := by
  obtain ⟨c₁, hs, hrun⟩ := Option.bind_eq_some_iff.mp hrun
  have hstaffed₁ := step_staffed h hs
  have hflags₁ := step_stoppedFlags hflags hs
  simp only [PoolConfig.step, hidle, hrunning, if_true] at hs
  cases hs
  have hbegin : Stopping c.pool { c with controller := .stopping 0 } :=
    ⟨hstaffed₁, hflags₁, rfl, rfl, fun _ _ => rfl, Or.inl ⟨0, Or.inl rfl⟩⟩
  have hend := hbegin.run hacts hrun
  rcases hend.place with ⟨i, hc | hc⟩ | ⟨-, hstopped⟩
  · cases hc.symm.trans hidle'
  · cases hc.symm.trans hidle'
  · have hoff : ∀ w, (c'.pool.threads w).pc = .off := by
      have hd := hend.staffed.dormant
      rw [Dormant, hidle'] at hd
      exact hd hstopped
    refine ⟨⟨c'.pool.queue, fun w => (c'.pool.threads w).torun⟩, ?_⟩
    rw [ThreadPool.run_stop, if_pos hrunning]
    have hthreads : (fun w => if w < c.pool.threadnum then ⟨.off, true, (c'.pool.threads w).torun⟩ else c.pool.threads w) =
        c'.pool.threads := by
      funext w
      split
      · rw [← hoff w, ← hend.flags w (Or.inl (hoff w))]
      · rename_i hw
        exact (hend.beyond w (by omega)).symm
    rw [ThreadPool.stopped, ThreadPool.setThreads, hthreads, ← hend.threadnum, ← hend.affinity, ← hstopped]

/-- The loop of `ThreadPool::run`, not interrupted, from worker `i` on. -/
theorem starting_steps {c : PoolConfig β} (haff : 0 < c.pool.threadnum → affinityOk c.pool.affinity = true) {n i : Nat}
    (hn : i + n = c.pool.threadnum) :
    Lts.run PoolConfig.step
        { c with pool := c.pool.setThreads i fun _ x => { x with pc := .start }, controller := .starting i }
        (List.replicate n .controller) =
      some { c with
        pool := c.pool.setThreads c.pool.threadnum fun _ x => { x with pc := .start }, controller := .starting c.pool.threadnum } := by
  induction n generalizing i with
  | zero =>
    obtain rfl : i = c.pool.threadnum := by omega
    rfl
  | succ n ih =>
    have hi : i < c.pool.threadnum := by omega
    rw [← ih (by omega : i + 1 + n = c.pool.threadnum), List.replicate_succ, Lts.run_cons,
      ← ThreadPool.setThread_setThreads c.pool i fun _ x => { x with pc := .start }]
    have haff' := haff (by omega)
    simp only [PoolConfig.step, PoolConfig.controllerStep, ThreadPool.setThreads, hi, haff', if_true]
    rfl

/-- The call `run` is what the controlling thread's steps do when no worker moves in between. -/
theorem run_of_steps {c : PoolConfig β} (hidle : c.controller = .idle) (h : c.pool.refusesRun = false) :
    Lts.run PoolConfig.step c (.run :: List.replicate (c.pool.threadnum + 1) .controller) =
      some { c with pool := Exn.leaves (ThreadPool.run.run c.pool) } := by
  rw [ThreadPool.run_run_of_accepts h]
  simp only [ThreadPool.refusesRun, Bool.or_eq_false_iff, Bool.and_eq_false_iff, decide_eq_false_iff_not,
    Bool.not_eq_false'] at h
  have haff : 0 < c.pool.threadnum → affinityOk c.pool.affinity = true := fun hpos => h.2.resolve_left fun hn => hn hpos
  have hbegin : c.step .run =
      some { c with pool := c.pool.setThreads 0 fun _ x => { x with pc := .start }, controller := .starting 0 } := by
    have hrunning : ¬c.pool.running = true := by simp [h.1]
    simp only [PoolConfig.step, hidle, if_true, if_neg hrunning, ThreadPool.setThreads, Nat.not_lt_zero, if_false]
  rw [List.replicate_succ', Lts.run_cons, hbegin, Option.bind_some, Lts.run_append,
    starting_steps haff (Nat.zero_add _), Option.bind_some, Lts.run_cons]
  simp only [PoolConfig.step, PoolConfig.controllerStep, ThreadPool.setThreads, Nat.lt_irrefl, if_false, Option.bind_some,
    Lts.run_nil, ← hidle]
  rfl

end Blockmon
