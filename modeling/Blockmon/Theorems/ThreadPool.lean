import Mathlib.Data.List.Nodup
import Blockmon.Lemmas.ThreadPool

/-!
# What the scheduler guarantees of the blocks of a pool

The statements are about every interleaving of the steps of the workers and of the controlling thread, with any outcome of every
call of `Block::run`.
-/

namespace Blockmon

open PoolLog PoolConfig Count

section

variable {β : Type} [DecidableEq β]

/-- A block that was added once is in the queue or with one worker, and never in two places. -/
theorem count_add_executing_le_one {c : PoolConfig β} (h : PoolInv c) (hadd : (added c.log).Nodup) (b : β) :
    c.pool.queue.count b + c.pool.executing b ≤ 1 := by
  have h1 := h.bounded b
  have h2 := List.nodup_iff_count_le_one.mp hadd b
  omega

/-- A worker that executes a block is one of the pool's threads. -/
theorem lt_of_executes {c : PoolConfig β} (h : PoolInv c) {w : Nat} {b : β} (hw : (c.pool.threads w).executes b = true) :
    w < c.pool.threadnum := by
  refine h.staffed.lt_of_pc fun hoff => ?_
  rw [executes_of_pc (by simp [hoff]) (by simp [hoff])] at hw
  cases hw

/-- Two workers that execute the same block are the same worker. -/
theorem executes_unique {c : PoolConfig β} (h : PoolInv c) (hadd : (added c.log).Nodup) {w w' : Nat} {b : β}
    (hw : (c.pool.threads w).executes b = true) (hw' : (c.pool.threads w').executes b = true) : w' = w := by
  by_contra hne
  have htwo : 2 ≤ c.pool.executing b := two_le_countP_range (lt_of_executes h hw) (lt_of_executes h hw') hne hw hw'
  have := count_add_executing_le_one h hadd b
  omega

/-- The blocks delivered between the return of a block and its next delivery are those that were in the queue before it, in the
order of the queue. -/
theorem delivered_eq_queue {acts : List (PoolAct β)} {a a' : PoolAct β} {c₀ c₁ c₂ c₃ : PoolConfig β} {w w' : Nat} {b : β}
    {seg : List (PoolEvent β)} (h₀ : PoolInv c₀) (hadd : (added c₃.log).Nodup) (hs : c₀.step a = some c₁)
    (hput : c₁.log = c₀.log ++ [.putBack w b]) (hr : Lts.run step c₁ acts = some c₂) (hseg : c₂.log = c₁.log ++ seg)
    (hno : b ∉ delivered seg) (hrem : removed seg = []) (hs' : c₂.step a' = some c₃)
    (hnext : c₃.log = c₂.log ++ [.delivered w' b]) : delivered seg = c₀.pool.queue := by
  have hahead : Ahead c₁.log c₀.pool.queue b c₁ :=
    ⟨[], c₀.pool.queue, [], (List.append_nil _).symm, effect_event (step_effect h₀.staffed hs) hput, rfl⟩
  have hwait : Waiting c₁.log b c₂.log := by
    intro seg' hseg'
    rw [hseg, List.append_cancel_left_eq] at hseg'
    exact hseg' ▸ ⟨hno, hrem⟩
  obtain ⟨h₂, seg', still, rest, hseg', hqueue, hsplit⟩ := run_ahead (step_poolInv h₀ hs) hahead hr hwait
  rw [hseg, List.append_cancel_left_eq] at hseg'
  subst hseg'
  have hadd₂ : (added c₂.log).Nodup := by
    obtain ⟨new, hnew⟩ := poolStep_log hs'
    rw [← hnew, added_append] at hadd
    exact hadd.of_append_left
  have hhead : c₂.pool.queue = b :: c₃.pool.queue := effect_event (step_effect h₂.staffed hs') hnext
  cases still with
  | nil => rw [hsplit, List.append_nil]
  | cons x still =>
    -- the block at the head would be `b` again, which is in the queue only once
    rw [hqueue, List.cons_append, List.cons.injEq] at hhead
    have hcount := count_add_executing_le_one h₂ hadd₂ b
    rw [hqueue, hhead.1, List.cons_append, List.count_cons_self, List.count_append, List.count_cons_self] at hcount
    omega

/-- Scheduler exclusivity and round robin, for blocks that are each added once. At every point of every interleaving a block has
at most one place, in the queue or with a worker, so no two workers execute the same block. And between the moment a block is put
back and its next delivery, every block that was in the queue is delivered exactly once. -/
theorem threadpool_exclusive_roundRobin (tnum : Nat) (affinity : List Nat) :
    (∀ (acts : List (PoolAct β)) (c : PoolConfig β), after tnum affinity acts = some c → (added c.log).Nodup →
      ∀ b, c.pool.queue.count b + c.pool.executing b ≤ 1 ∧
        ∀ w w', (c.pool.threads w).executes b = true → (c.pool.threads w').executes b = true → w' = w) ∧
    (∀ (acts acts' : List (PoolAct β)) (a a' : PoolAct β) (c₀ c₁ c₂ c₃ : PoolConfig β) (w w' : Nat) (b : β)
      (seg : List (PoolEvent β)), after tnum affinity acts = some c₀ → c₀.step a = some c₁ →
      c₁.log = c₀.log ++ [.putBack w b] → Lts.run step c₁ acts' = some c₂ → c₂.log = c₁.log ++ seg → b ∉ delivered seg →
      removed seg = [] → c₂.step a' = some c₃ → c₃.log = c₂.log ++ [.delivered w' b] → (added c₃.log).Nodup →
      ∀ x ∈ c₁.pool.queue, (delivered (seg ++ [.delivered w' b])).count x = 1) := by
  constructor
  · intro acts c hr hadd b
    have hinv := after_poolInv hr
    exact ⟨count_add_executing_le_one hinv hadd b, fun w w' hw hw' => executes_unique hinv hadd hw hw'⟩
  · intro acts acts' a a' c₀ c₁ c₂ c₃ w w' b seg hr₀ hs hput hr hseg hno hrem hs' hnext hadd x hx
    have h₀ := after_poolInv hr₀
    have hq : c₁.pool.queue = c₀.pool.queue ++ [b] := effect_event (step_effect h₀.staffed hs) hput
    have hdel := delivered_eq_queue h₀ hadd hs hput hr hseg hno hrem hs' hnext
    have hadd₁ : (added c₁.log).Nodup := by
      obtain ⟨new, hnew⟩ := poolStep_log hs'
      rw [← hnew, hseg, added_append, added_append] at hadd
      exact hadd.of_append_left.of_append_left
    have hone := count_add_executing_le_one (step_poolInv h₀ hs) hadd₁ x
    have hpos := List.count_pos_iff.mpr hx
    have hlast : delivered [PoolEvent.delivered w' b] = [b] := rfl
    rw [delivered_append, hdel, hlast, ← hq]
    omega

end

/-- A call of `Block::run` that finds nothing to do. -/
def quietRun : RunInput := { timers := [], ingates := [], async := .ok () }

/-- Two workers and three blocks, until the first worker puts block 0 back. -/
def rotationActs : List (PoolAct Nat) :=
  [.addTask 0, .addTask 1, .addTask 2, .run, .controller, .controller, .controller] ++
    [.worker 0 quietRun, .worker 0 quietRun, .worker 0 quietRun, .worker 1 quietRun, .worker 1 quietRun, .worker 1 quietRun,
      .worker 0 quietRun]

/-- The second worker returns block 1 and the first one takes block 2. -/
def rotationActs' : List (PoolAct Nat) :=
  [.worker 1 quietRun, .worker 1 quietRun, .worker 0 quietRun, .worker 0 quietRun, .worker 1 quietRun]

/-- A part of a run: a block goes to the end of the queue. -/
def rotationSeg : List (PoolEvent Nat) := [.returned 1 1, .putBack 1 1, .delivered 0 2]

/-- The first worker puts block 0 back behind block 2; the next delivery of block 0, to the second worker, comes after that of
block 2. -/
theorem threadpool_exclusive_roundRobin_two_workers : ∃ c₀ c₁ c₂ c₃ : PoolConfig Nat,
    after 2 [] rotationActs = some c₀ ∧ c₁.pool.queue = [2, 0] ∧ c₁.log = c₀.log ++ [.putBack 0 0] ∧
    c₂.log = c₁.log ++ rotationSeg ∧ c₃.log = c₂.log ++ [.delivered 1 0] ∧
    (∀ b, c₀.pool.queue.count b + c₀.pool.executing b ≤ 1) ∧
    ∀ x ∈ c₁.pool.queue, (delivered (rotationSeg ++ [.delivered 1 0])).count x = 1 := by
  have hrun : ((after 2 [] rotationActs).bind fun c₀ => (c₀.step (.worker 0 quietRun)).bind fun c₁ =>
      (Lts.run step c₁ rotationActs').bind fun c₂ => (c₂.step (.worker 1 quietRun)).map fun c₃ =>
      decide (c₁.pool.queue = [2, 0] ∧ c₁.log = c₀.log ++ [.putBack 0 0] ∧ c₂.log = c₁.log ++ rotationSeg ∧
        c₃.log = c₂.log ++ [.delivered 1 0] ∧ (added c₀.log).Nodup ∧ (added c₃.log).Nodup)) = some true := by
    decide +kernel
  simp only [Option.bind_eq_some_iff, Option.map_eq_some_iff, decide_eq_true_eq] at hrun
  obtain ⟨c₀, h₀, c₁, h₁, c₂, h₂, c₃, h₃, hqueue, hput, hseg, hnext, hadd₀, hadd₃⟩ := hrun
  obtain ⟨hexcl, hrobin⟩ := threadpool_exclusive_roundRobin (β := Nat) 2 []
  exact ⟨c₀, c₁, c₂, c₃, h₀, hqueue, hput, hseg, hnext, fun b => (hexcl rotationActs c₀ h₀ hadd₀ b).1,
    hrobin rotationActs rotationActs' _ _ c₀ c₁ c₂ c₃ 0 1 0 rotationSeg h₀ h₁ hput h₂ hseg (by decide) rfl h₃ hnext hadd₃⟩

/-! ## Blocks that stay in the rotation -/

/-- A block that was not removed is in the queue or with a worker exactly when it was added more often than a call of its `run`
threw; a block added once stays in the rotation exactly as long as no call of its `run` throws. -/
theorem threadpool_conserves {β : Type} [DecidableEq β] (tnum : Nat) (affinity : List Nat) (acts : List (PoolAct β))
    (c : PoolConfig β) (hr : after tnum affinity acts = some c) (b : β) (hb : b ∉ removed c.log) :
    (b ∈ c.pool.queue ∨ ∃ w, w < c.pool.threadnum ∧ (c.pool.threads w).executes b = true) ↔
      (thrown c.log).count b < (added c.log).count b := by
  have hcons := (after_poolInv hr).conserved b hb
  have hqueue : b ∈ c.pool.queue ↔ 0 < c.pool.queue.count b := List.count_pos_iff.symm
  have hexec : (∃ w, w < c.pool.threadnum ∧ (c.pool.threads w).executes b = true) ↔ 0 < c.pool.executing b :=
    countP_range_pos.symm
  rw [hqueue, hexec]
  omega

/-- A call of `Block::run` in which `_receive_msg` throws on the first queued message. -/
def throwingRun : RunInput := { timers := [], ingates := [[.error "FlowMeter: queue is full"]], async := .ok () }

/-- One worker runs block 0, which throws, and takes block 1. -/
def throwingActs : List (PoolAct Nat) :=
  [.addTask 0, .addTask 1, .run, .controller, .controller, .worker 0 quietRun, .worker 0 quietRun, .worker 0 quietRun,
    .worker 0 throwingRun, .worker 0 quietRun, .worker 0 quietRun]

/-- Block 1 stays in the rotation and block 0 does not. -/
theorem threadpool_conserves_two_blocks : ∃ c : PoolConfig Nat, after 1 [] throwingActs = some c ∧
    (1 ∈ c.pool.queue ∨ ∃ w, w < c.pool.threadnum ∧ (c.pool.threads w).executes 1 = true) ∧
    ¬(0 ∈ c.pool.queue ∨ ∃ w, w < c.pool.threadnum ∧ (c.pool.threads w).executes 0 = true) := by
  have hrun : (after 1 [] throwingActs).map (fun c => (removed c.log, thrown c.log, added c.log)) =
      some ([], [0], [0, 1]) := by decide +kernel
  obtain ⟨c, hc, hlog⟩ := Option.map_eq_some_iff.mp hrun
  simp only [Prod.mk.injEq] at hlog
  obtain ⟨hrem, hthrown, hadded⟩ := hlog
  have hkeep := threadpool_conserves 1 [] throwingActs c hc 1 (by simp [hrem])
  have hlose := threadpool_conserves 1 [] throwingActs c hc 0 (by simp [hrem])
  rw [hthrown, hadded] at hkeep hlose
  exact ⟨c, hc, hkeep.mpr (by decide), fun h => absurd (hlose.mp h) (by decide)⟩

/-- One worker runs a block whose `_receive_msg` throws; the exception is swallowed and the block is in neither place. -/
theorem threadpool_drops_throwing_block : ¬∀ (acts : List (PoolAct Nat)) (c : PoolConfig Nat), after 1 [] acts = some c →
    ∀ b, b ∈ added c.log → b ∉ removed c.log →
      b ∈ c.pool.queue ∨ ∃ w, w < c.pool.threadnum ∧ (c.pool.threads w).executes b = true := by
  intro hall
  have hrun : (after 1 [] throwingActs).map (fun c => (decide (0 ∈ added c.log ∧ 0 ∉ removed c.log), c.pool.queue,
      c.pool.threadnum, (c.pool.threads 0).executes 0)) = some (true, [], 1, false) := by decide +kernel
  obtain ⟨c, hc, hres⟩ := Option.map_eq_some_iff.mp hrun
  simp only [Prod.mk.injEq, decide_eq_true_eq] at hres
  obtain ⟨⟨hadd, hrem⟩, hqueue, htnum, hexec⟩ := hres
  rcases hall throwingActs c hc 0 hadd hrem with hmem | ⟨w, hw, hx⟩
  · rw [hqueue] at hmem
    cases hmem
  · rw [htnum, Nat.lt_one_iff] at hw
    rw [hw, hexec] at hx
    cases hx

/-! ## The request to stop -/

section

variable {β : Type} [DecidableEq β]

/-- However the workers go on while the controlling thread waits to join worker `i`, its `m_stop` stays set. -/
def StopKept (c : PoolConfig β) (i : Nat) : Prop :=
  ∀ (ws : List (Nat × RunInput)) (c' : PoolConfig β), Lts.run step c (ws.map fun w => .worker w.1 w.2) = some c' →
    (c'.pool.threads i).stop = true

omit [DecidableEq β] in
/-- A worker that has been through the store at its entry never clears its `m_stop`. -/
theorem workerStep_keeps_stop {c c' : PoolConfig β} {w i : Nat} (hs : WorkerStep c w c')
    (h : (c.pool.threads i).pc ≠ .start ∧ (c.pool.threads i).stop = true) :
    (c'.pool.threads i).pc ≠ .start ∧ (c'.pool.threads i).stop = true := by
  by_cases hw : i = w
  · subst hw
    have hset : ∀ (d : PoolConfig β) (x : Worker β), x.pc ≠ .start ∧ x.stop = true →
        ((d.setWorker i x).pool.threads i).pc ≠ .start ∧ ((d.setWorker i x).pool.threads i).stop = true := by
      intro d x hx
      simpa [PoolConfig.setWorker] using hx
    cases hs with
    | start hpc => exact absurd hpc h.1
    | ends => exact hset _ _ ⟨by simp, rfl⟩
    | goOn | leave | noTask | fetch | returns | throws | putBack => exact hset _ _ ⟨by simp, h.2⟩
  · have hother : c'.pool.threads i = c.pool.threads i := by
      cases hs with
      | _ => exact Function.update_of_ne hw _ _
    rw [hother]
    exact h

/-- The store of `ThreadHandler::stop`. -/
theorem stopping_store {c c' : PoolConfig β} {i : Nat} (hs : c.step .controller = some c') (hjoining : c'.controller = .joining i) :
    c.controller = .stopping i ∧ c'.pool.threads i = { c.pool.threads i with stop := true } := by
  cases controllerStep_cases hs with
  | asks j hc hj =>
    cases hjoining
    exact ⟨hc, Function.update_self ..⟩
  | starts | refused | started | stopped | joins => cases hjoining

/-- A worker that has not begun clears the flag with its first step. -/
theorem not_stopKept_of_start {c : PoolConfig β} {i : Nat} (hstart : (c.pool.threads i).pc = .start) : ¬StopKept c i := by
  intro hkept
  have hstep : c.step (.worker i ⟨[], [], .ok ()⟩) =
      some (c.setWorker i { c.pool.threads i with pc := .test, stop := false }) := by
    simp [PoolConfig.step, PoolConfig.workerStep, hstart]
  have hlost := hkept [(i, ⟨[], [], .ok ()⟩)] _ (by rw [List.map_singleton, Lts.run_cons, hstep]; rfl)
  simp [PoolConfig.setWorker] at hlost

/-- The flag is kept by a thread that has begun. -/
theorem stopKept_of_ne_start {c : PoolConfig β} {i : Nat}
    (h : (c.pool.threads i).pc ≠ .start ∧ (c.pool.threads i).stop = true) : StopKept c i := by
  intro ws
  induction ws generalizing c with
  | nil =>
    intro c' hrun
    cases hrun
    exact h.2
  | cons w ws ih =>
    intro c' hrun
    rw [List.map_cons, Lts.run_cons, Option.bind_eq_some_iff] at hrun
    obtain ⟨m, hm, hrun⟩ := hrun
    exact ih (workerStep_keeps_stop (workerStep_cases hm) h) c' hrun

/-- The step is not a store of `ThreadHandler::stop` to a worker that has not begun. -/
def storesAfterBegin (c : PoolConfig β) (a : PoolAct β) : Prop :=
  match a, c.controller with
  | .controller, .stopping i => (c.pool.threads i).pc ≠ .start
  | _, _ => True

/-- The worker that the controlling thread waits for has been told to stop. -/
def Told (c : PoolConfig β) : Prop :=
  ∀ i, c.controller = .joining i → (c.pool.threads i).pc ≠ .start ∧ (c.pool.threads i).stop = true

/-- A step keeps what the threads were told. -/
theorem step_told {c c' : PoolConfig β} {a : PoolAct β} (h : Told c) (ha : storesAfterBegin c a) (hs : c.step a = some c') :
    Told c' := by
  intro i hi
  cases poolStep_cases hs with
  | worker hw =>
    have hctl : c'.controller = c.controller := by
      cases hw with
      | _ => rfl
    exact workerStep_keeps_stop hw (h i (hctl ▸ hi))
  | controller =>
    obtain ⟨hctl, hstore⟩ := stopping_store hs hi
    rw [hstore]
    simp only [storesAfterBegin, hctl] at ha
    exact ⟨ha, rfl⟩
  | refused _ _ hidle | addTask _ hidle | removeTask _ hidle => exact absurd (hidle.symm.trans hi) nofun
  | run | stop => cases hi

/-- In every interleaving in which no worker is told to stop before it has begun, the worker that is waited for has `m_stop` set.
And when `ThreadHandler::stop` has stored `m_stop = true`, no later step of the workers undoes it exactly if the worker had begun. -/
theorem stop_request_kept_iff (tnum : Nat) (affinity : List Nat) (acts : List (PoolAct β)) (c : PoolConfig β)
    (hr : after tnum affinity acts = some c) :
    (Lts.Along step storesAfterBegin (new tnum affinity) acts →
      ∀ i, c.controller = .joining i → (c.pool.threads i).stop = true) ∧
    ∀ (i : Nat) (c' : PoolConfig β), c.controller = .stopping i → c.step .controller = some c' → c'.controller = .joining i →
      (StopKept c' i ↔ (c.pool.threads i).pc ≠ .start) := by
  constructor
  · intro halong i hi
    have htold : Told c := Lts.run_inv_of_labels (G := fun _ => True) (I := fun _ c => Told c) (fun _ _ _ => trivial)
      (fun _ c a c' _ h ha hs => step_told h ha hs) (fun i h => by simp [new] at h) trivial halong hr
    exact (htold i hi).2
  · intro i c' hstopping hs hjoining
    obtain ⟨-, hstore⟩ := stopping_store hs hjoining
    constructor
    · intro hkept hstart
      exact not_stopKept_of_start (by rw [hstore]; exact hstart) hkept
    · intro hpc
      exact stopKept_of_ne_start (by rw [hstore]; exact ⟨hpc, rfl⟩)

end

/-- A pool of one worker is started and stopped; the worker begins before the stop or after it. -/
def startedActs (begins : Bool) : List (PoolAct Nat) :=
  [.run, .controller, .controller] ++ (if begins then [.worker 0 quietRun] else []) ++ [.stop]

/-- The worker has begun: the request holds until it leaves its loop. -/
theorem stop_request_kept_begun : ∃ c c' : PoolConfig Nat, after 1 [] (startedActs true) = some c ∧
    c.step .controller = some c' ∧ c'.controller = .joining 0 ∧ StopKept c' 0 := by
  have hrun : ((after 1 [] (startedActs true)).bind fun c => (c.step .controller).map fun c' =>
      (c.controller, (c.pool.threads 0).pc, c'.controller)) = some (.stopping 0, .test, .joining 0) := by decide +kernel
  obtain ⟨c, hc, hrun⟩ := Option.bind_eq_some_iff.mp hrun
  obtain ⟨c', hc', hres⟩ := Option.map_eq_some_iff.mp hrun
  simp only [Prod.mk.injEq] at hres
  obtain ⟨hstopping, hpc, hjoining⟩ := hres
  exact ⟨c, c', hc, hc', hjoining,
    ((stop_request_kept_iff 1 [] _ c hc).2 0 c' hstopping hc' hjoining).mpr (by rw [hpc]; exact nofun)⟩

/-- The worker begins only after the store in `stop`: it clears the flag, and the join waits for a worker that goes on. -/
theorem stop_request_lost : ¬∀ (acts : List (PoolAct Nat)) (c c' : PoolConfig Nat) (i : Nat), after 1 [] acts = some c →
    c.controller = .stopping i → c.step .controller = some c' → c'.controller = .joining i → StopKept c' i := by
  intro hall
  have hrun : ((after 1 [] (startedActs false)).bind fun c => (c.step .controller).bind fun c' =>
      (Lts.run step c' [.worker 0 quietRun]).map fun c'' =>
        (c.controller, c'.controller, (c''.pool.threads 0).stop, (c''.pool.threads 0).pc)) =
      some (.stopping 0, .joining 0, false, .test) := by decide +kernel
  obtain ⟨c, hc, hrun⟩ := Option.bind_eq_some_iff.mp hrun
  obtain ⟨c', hc', hrun⟩ := Option.bind_eq_some_iff.mp hrun
  obtain ⟨c'', hc'', hres⟩ := Option.map_eq_some_iff.mp hrun
  simp only [Prod.mk.injEq] at hres
  obtain ⟨hstopping, hjoining, hstop, -⟩ := hres
  have hkept := hall (startedActs false) c c' 0 hc hstopping hc' hjoining [(0, quietRun)] c'' hc''
  rw [hstop] at hkept
  cases hkept

end Blockmon
