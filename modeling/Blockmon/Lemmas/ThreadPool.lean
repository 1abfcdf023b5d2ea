import Blockmon.Lemmas.PoolSteps
import Blockmon.Lib.Count

/-!
# What a step of a thread pool does to its blocks

`Effect c c'` lists what a step can do to the queue, to the blocks that the workers execute and to the history; `step_effect` says
that every step does one of these. The bookkeeping of the blocks, `PoolInv`, and the order of the deliveries, `Ahead`, follow from
it.
-/

namespace Blockmon

open PoolLog Count

variable {β : Type}

/-- An event that is about no block entering, leaving or changing hands. -/
def PoolEvent.silent : PoolEvent β → Bool
  | .refused _ | .returned _ _ => true
  | _ => false

/-- One if the blocks are the same. -/
def one [DecidableEq β] (b b' : β) : Nat := if b' = b then 1 else 0

/-- What a step can do. -/
inductive Effect [DecidableEq β] (c c' : PoolConfig β) : Prop where
  | quiet (hlog : c'.log = c.log ∨ ∃ e : PoolEvent β, e.silent = true ∧ c'.log = c.log ++ [e])
      (hq : c'.pool.queue = c.pool.queue) (hx : ∀ b, c'.pool.executing b = c.pool.executing b)
  | added (b : β) (hlog : c'.log = c.log ++ [.added b]) (hq : c'.pool.queue = c.pool.queue ++ [b])
      (hx : ∀ b, c'.pool.executing b = c.pool.executing b)
  | removed (b : β) (hlog : c'.log = c.log ++ [.removed b]) (hq : c'.pool.queue = c.pool.queue.filter (· ≠ b))
      (hx : ∀ b, c'.pool.executing b = c.pool.executing b)
  | delivered (w : Nat) (b : β) (hlog : c'.log = c.log ++ [.delivered w b]) (hq : c.pool.queue = b :: c'.pool.queue)
      (hx : ∀ b', c'.pool.executing b' = c.pool.executing b' + one b b')
  | putBack (w : Nat) (b : β) (hlog : c'.log = c.log ++ [.putBack w b]) (hq : c'.pool.queue = c.pool.queue ++ [b])
      (hx : ∀ b', c'.pool.executing b' + one b b' = c.pool.executing b')
  | threw (w : Nat) (b : β) (msg : String) (hlog : c'.log = c.log ++ [.threw w b msg]) (hq : c'.pool.queue = c.pool.queue)
      (hx : ∀ b', c'.pool.executing b' + one b b' = c.pool.executing b')

/-! ## Which workers exist -/

/-- Which workers have no thread, from the controlling thread's position: all of them outside a running pool; in `ThreadPool::run`
those not started yet; in `ThreadPool::stop` those joined already. -/
def Dormant (c : PoolConfig β) : Prop :=
  match c.controller with
  | .idle => c.pool.running = false → ∀ w, (c.pool.threads w).pc = .off
  | .starting i => (∀ w, i ≤ w → (c.pool.threads w).pc = .off) ∧ (0 < i → affinityOk c.pool.affinity = true)
  | .stopping i | .joining i => ∀ w, w < i → (c.pool.threads w).pc = .off

/-- The workers beyond the pool's number of threads do not exist, and the others as `Dormant` says. -/
structure Staffed (c : PoolConfig β) : Prop where
  bounded : ∀ w, c.pool.threadnum ≤ w → (c.pool.threads w).pc = .off
  dormant : Dormant c

/-- A worker that makes a step exists. -/
theorem Staffed.lt_of_pc {c : PoolConfig β} (h : Staffed c) {w : Nat} (hpc : (c.pool.threads w).pc ≠ .off) :
    w < c.pool.threadnum := by
  by_contra hge
  exact hpc (h.bounded w (by omega))

/-- A worker that has a thread may change its state in any way. -/
theorem Staffed.setWorker {c : PoolConfig β} (h : Staffed c) {w : Nat} (hpc : (c.pool.threads w).pc ≠ .off) (x : Worker β) :
    Staffed (c.setWorker w x) := by
  have hother : ∀ j, (c.pool.threads j).pc = .off → (Function.update c.pool.threads w x j).pc = .off := by
    intro j hj
    by_cases hjw : j = w
    · subst hjw
      exact absurd hj hpc
    · rw [Function.update_of_ne hjw]
      exact hj
  refine ⟨fun j hj => hother j (h.bounded j hj), ?_⟩
  have hd := h.dormant
  unfold Dormant at hd ⊢
  cases hc : c.controller with
  | idle =>
    rw [hc] at hd
    simp only [PoolConfig.setWorker, hc]
    exact fun hr j => hother j (hd hr j)
  | starting i =>
    rw [hc] at hd
    simp only [PoolConfig.setWorker, hc]
    exact ⟨fun j hj => hother j (hd.1 j hj), hd.2⟩
  | stopping i =>
    rw [hc] at hd
    simp only [PoolConfig.setWorker, hc]
    exact fun j hj => hother j (hd j hj)
  | joining i =>
    rw [hc] at hd
    simp only [PoolConfig.setWorker, hc]
    exact fun j hj => hother j (hd j hj)

/-- A pool with another queue is still staffed. -/
theorem Staffed.setQueue {c : PoolConfig β} (h : Staffed c) (q : List β) : Staffed (c.setQueue q) := ⟨h.bounded, h.dormant⟩

/-- An event changes no staff. -/
theorem Staffed.emit {c : PoolConfig β} (h : Staffed c) (e : PoolEvent β) : Staffed (c.emit e) := ⟨h.bounded, h.dormant⟩

/-- A step of a worker keeps the staff. -/
theorem workerStep_staffed {c c' : PoolConfig β} {w : Nat} (h : Staffed c) (hs : WorkerStep c w c') : Staffed c' := by
  cases hs with
  | start hpc | goOn hpc | leave hpc | ends hpc => exact h.setWorker (by simp [hpc]) _
  | noTask hpc => exact (h.setQueue _).setWorker (by simp [PoolConfig.setQueue, hpc]) _
  | returns _ hpc | throws _ _ hpc => exact (h.setWorker (by simp [hpc]) _).emit _
  | fetch _ _ hpc | putBack _ hpc => exact ((h.setQueue _).setWorker (by simp [PoolConfig.setQueue, hpc]) _).emit _

/-- A step of the controller keeps the staff. -/
theorem controllerStep_staffed {c c' : PoolConfig β} (h : Staffed c) (hs : ControllerStep c c') : Staffed c' := by
  have hd := h.dormant
  unfold Dormant at hd
  cases hs with
  | starts i hc hi haff =>
    rw [hc] at hd
    refine ⟨fun j hj => ?_, fun j hj => ?_, fun _ => haff⟩
    · have hji : j ≠ i := by have : c.pool.threadnum ≤ j := hj; omega
      simpa [PoolConfig.setWorker, hji] using h.bounded j hj
    · have hji : j ≠ i := by omega
      simpa [PoolConfig.setWorker, hji] using hd.1 j (by omega)
  | refused i msg hc hi haff =>
    -- the affinity is looked at for every worker, so the first one is refused already
    rw [hc] at hd
    refine ⟨h.bounded, fun _ j => ?_⟩
    have hi0 : i = 0 := by
      by_contra hne
      exact absurd (haff.symm.trans (hd.2 (by omega))) nofun
    exact hd.1 j (by omega)
  | started i hc hi => exact ⟨h.bounded, fun hr => by cases hr⟩
  | asks i hc hi =>
    rw [hc] at hd
    refine ⟨fun j hj => ?_, fun j hj => ?_⟩
    · have hji : j ≠ i := by have : c.pool.threadnum ≤ j := hj; omega
      simpa [PoolConfig.setWorker, hji] using h.bounded j hj
    · have hji : j ≠ i := by omega
      simpa [PoolConfig.setWorker, hji] using hd j hj
  | stopped i hc hi =>
    rw [hc] at hd
    refine ⟨h.bounded, fun _ j => ?_⟩
    by_cases hj : j < i
    · exact hd j hj
    · exact h.bounded j (by omega)
  | joins i hc hended =>
    rw [hc] at hd
    refine ⟨fun j hj => ?_, fun j hj => ?_⟩
    · by_cases hji : j = i
      · subst hji; simp [PoolConfig.setWorker]
      · simpa [PoolConfig.setWorker, hji] using h.bounded j hj
    · by_cases hji : j = i
      · subst hji; simp [PoolConfig.setWorker]
      · simpa [PoolConfig.setWorker, hji] using hd j (by omega)

/-- Every step keeps the staff. -/
theorem step_staffed [DecidableEq β] {c c' : PoolConfig β} {a : PoolAct β} (h : Staffed c) (hs : c.step a = some c') :
    Staffed c' := by
  have hd := h.dormant
  unfold Dormant at hd
  cases poolStep_cases hs with
  | worker hw => exact workerStep_staffed h hw
  | controller hc => exact controllerStep_staffed h hc
  | refused => exact h.emit _
  | addTask | removeTask => exact (h.setQueue _).emit _
  | run hidle hrunning =>
    rw [hidle] at hd
    exact ⟨h.bounded, fun j _ => hd hrunning j, fun hlt => absurd hlt (Nat.lt_irrefl 0)⟩
  | stop hidle hrunning => exact ⟨h.bounded, fun j hj => absurd hj (Nat.not_lt_zero j)⟩

/-! ## The effect of a step -/

variable [DecidableEq β]

/-- A worker executes in two places only. -/
theorem executes_of_pc {x : Worker β} {b : β} (h1 : x.pc ≠ .run) (h2 : x.pc ≠ .giveBack) : x.executes b = false := by
  simp [Worker.executes, h1, h2]

/-- What a worker executes is its block. -/
theorem executes_of_torun {x : Worker β} {b b' : β} (h : x.pc = .run ∨ x.pc = .giveBack) (ht : x.torun = some b) :
    (x.executes b').toNat = one b b' := by
  by_cases hb : b' = b
  · subst hb
    simp [Worker.executes, h, ht, one]
  · have hb' : ¬b = b' := fun e => hb e.symm
    simp [Worker.executes, ht, one, hb, hb']

/-- The workers that execute a block, after the queue and the state of one worker changed. -/
theorem executing_setWorker {c : PoolConfig β} {w : Nat} (hw : w < c.pool.threadnum) (q : List β) (x : Worker β) (b : β) :
    ((c.setQueue q).setWorker w x).pool.executing b + ((c.pool.threads w).executes b).toNat =
      c.pool.executing b + (x.executes b).toNat := by
  have key := countP_range_update (fun j => (c.pool.threads j).executes b)
    (fun j => (Function.update c.pool.threads w x j).executes b) hw (fun j hj => by rw [Function.update_of_ne hj])
  rw [Function.update_self] at key
  exact key

/-- A change of a worker that starts or ends no execution. -/
theorem executing_setWorker_eq {c : PoolConfig β} {w : Nat} (hw : w < c.pool.threadnum) {x : Worker β}
    (hx : ∀ b, x.executes b = (c.pool.threads w).executes b) (b : β) :
    (c.setWorker w x).pool.executing b = c.pool.executing b := by
  have := executing_setWorker hw c.pool.queue x b
  rw [hx b] at this
  have heq : c.setQueue c.pool.queue = c := rfl
  rw [heq] at this
  omega

/-- A worker that neither executed a block nor does now. -/
theorem executing_setWorker_idle {c : PoolConfig β} {w : Nat} (hw : w < c.pool.threadnum) {x : Worker β}
    (hold : (c.pool.threads w).pc ≠ .run ∧ (c.pool.threads w).pc ≠ .giveBack) (hnew : x.pc ≠ .run ∧ x.pc ≠ .giveBack) (b : β) :
    (c.setWorker w x).pool.executing b = c.pool.executing b :=
  executing_setWorker_eq hw (fun b => by rw [executes_of_pc hnew.1 hnew.2, executes_of_pc hold.1 hold.2]) b

/-- What a step of a worker does to the blocks. -/
theorem workerStep_effect {c c' : PoolConfig β} {w : Nat} (h : Staffed c) (hs : WorkerStep c w c') : Effect c c' := by
  have hlt : (c.pool.threads w).pc ≠ .off → w < c.pool.threadnum := h.lt_of_pc
  cases hs with
  | start hpc | goOn hpc | leave hpc | ends hpc =>
    exact .quiet (Or.inl rfl) rfl (executing_setWorker_idle (hlt (by simp [hpc])) (by simp [hpc]) ⟨nofun, nofun⟩)
  | noTask hpc hqueue =>
    refine .quiet (Or.inl rfl) hqueue.symm fun b => ?_
    have key := executing_setWorker (hlt (by simp [hpc])) [] { c.pool.threads w with pc := .test, torun := none } b
    rw [executes_of_pc (x := c.pool.threads w) (by simp [hpc]) (by simp [hpc]),
      executes_of_pc (x := { c.pool.threads w with pc := .test, torun := none }) nofun nofun] at key
    exact key
  | fetch b q hpc hqueue =>
    refine .delivered w b rfl hqueue fun b' => ?_
    have key := executing_setWorker (hlt (by simp [hpc])) q { c.pool.threads w with pc := .run, torun := some b } b'
    rw [executes_of_pc (x := c.pool.threads w) (by simp [hpc]) (by simp [hpc]),
      executes_of_torun (x := { c.pool.threads w with pc := .run, torun := some b }) (Or.inl rfl) rfl] at key
    exact key
  | returns b hpc htorun =>
    refine .quiet (Or.inr ⟨_, rfl, rfl⟩) rfl (executing_setWorker_eq (hlt (by simp [hpc])) fun b' => ?_)
    simp [Worker.executes, hpc]
  | throws b msg hpc htorun =>
    refine .threw w b msg rfl rfl fun b' => ?_
    have key := executing_setWorker (hlt (by simp [hpc])) c.pool.queue { c.pool.threads w with pc := .test } b'
    rw [executes_of_torun (Or.inl hpc) htorun,
      executes_of_pc (x := { c.pool.threads w with pc := .test }) nofun nofun] at key
    exact key
  | putBack b hpc htorun =>
    refine .putBack w b rfl rfl fun b' => ?_
    have key := executing_setWorker (hlt (by simp [hpc])) (c.pool.queue ++ [b])
      { c.pool.threads w with pc := .test, torun := none } b'
    rw [executes_of_torun (Or.inr hpc) htorun,
      executes_of_pc (x := { c.pool.threads w with pc := .test, torun := none }) nofun nofun] at key
    exact key

/-- What a step of the controller does to the blocks. -/
theorem controllerStep_effect {c c' : PoolConfig β} (h : Staffed c) (hs : ControllerStep c c') : Effect c c' := by
  cases hs with
  | starts i hc hi =>
    have hd := h.dormant
    rw [Dormant, hc] at hd
    have hoff := hd.1 i (Nat.le_refl i)
    exact .quiet (Or.inl rfl) rfl (executing_setWorker_idle hi (by simp [hoff]) ⟨nofun, nofun⟩)
  | refused => exact .quiet (Or.inr ⟨_, rfl, rfl⟩) rfl fun _ => rfl
  | started | stopped => exact .quiet (Or.inl rfl) rfl fun _ => rfl
  | asks i hc hi => exact .quiet (Or.inl rfl) rfl (executing_setWorker_eq hi fun b => rfl)
  | joins i hc hended =>
    have hi := h.lt_of_pc (w := i) (by simp [hended])
    exact .quiet (Or.inl rfl) rfl (executing_setWorker_idle hi (by simp [hended]) ⟨nofun, nofun⟩)

/-- Every step has one of the effects. -/
theorem step_effect {c c' : PoolConfig β} {a : PoolAct β} (h : Staffed c) (hs : c.step a = some c') : Effect c c' := by
  cases poolStep_cases hs with
  | worker hw => exact workerStep_effect h hw
  | controller hc => exact controllerStep_effect h hc
  | refused => exact .quiet (Or.inr ⟨_, rfl, rfl⟩) rfl fun _ => rfl
  | addTask b => exact .added b rfl rfl fun _ => rfl
  | removeTask b => exact .removed b rfl rfl fun _ => rfl
  | run | stop => exact .quiet (Or.inl rfl) rfl fun _ => rfl

/-! ## The bookkeeping of the blocks -/

omit [DecidableEq β] in
/-- What was added in two parts of a log. -/
theorem added_append (l l' : List (PoolEvent β)) : added (l ++ l') = added l ++ added l' := List.filterMap_append ..

omit [DecidableEq β] in
/-- What was removed in two parts of a log. -/
theorem removed_append (l l' : List (PoolEvent β)) : removed (l ++ l') = removed l ++ removed l' := List.filterMap_append ..

omit [DecidableEq β] in
/-- What was delivered in two parts of a log. -/
theorem delivered_append (l l' : List (PoolEvent β)) : delivered (l ++ l') = delivered l ++ delivered l' :=
  List.filterMap_append ..

omit [DecidableEq β] in
/-- What was thrown in two parts of a log. -/
theorem thrown_append (l l' : List (PoolEvent β)) : thrown (l ++ l') = thrown l ++ thrown l' := List.filterMap_append ..

omit [DecidableEq β] in
/-- A silent event is in none of the readings of the history. -/
theorem silent_readings {e : PoolEvent β} (h : e.silent = true) :
    added [e] = [] ∧ removed [e] = [] ∧ delivered [e] = [] ∧ thrown [e] = [] := by
  cases e with
  | refused msg => exact ⟨rfl, rfl, rfl, rfl⟩
  | returned w b => exact ⟨rfl, rfl, rfl, rfl⟩
  | _ => cases h

/-- A list of one block counts one. -/
theorem count_singleton_one (b b' : β) : [b].count b' = one b b' := by
  unfold one
  rw [List.count_singleton]
  by_cases h : b' = b
  · simp [h]
  · have h' : ¬b = b' := fun e => h e.symm
    simp [h, h']

/-- Where the additions of a block went: to the queue, to a worker, or out of the rotation by an exception; for a block that was
never removed nothing else can have become of them. -/
structure PoolInv (c : PoolConfig β) : Prop where
  staffed : Staffed c
  bounded : ∀ b, c.pool.queue.count b + c.pool.executing b + (thrown c.log).count b ≤ (added c.log).count b
  conserved : ∀ b, b ∉ removed c.log →
    c.pool.queue.count b + c.pool.executing b + (thrown c.log).count b = (added c.log).count b

/-- The invariant holds of a new pool. -/
theorem poolInv_new (tnum : Nat) (affinity : List Nat) : PoolInv (PoolConfig.new (β := β) tnum affinity) := by
  have hx : ∀ b : β, (PoolConfig.new tnum affinity).pool.executing b = 0 := by
    intro b
    rw [ThreadPool.executing, List.countP_eq_zero]
    intro w _
    simp [PoolConfig.new, ThreadPool.new, Worker.new, Worker.executes]
  refine ⟨⟨fun _ _ => rfl, fun _ _ => rfl⟩, fun b => ?_, fun b _ => ?_⟩
  · rw [hx]
    exact Nat.zero_le _
  · rw [hx]
    rfl

omit [DecidableEq β] in
/-- A removal is seen in the log. -/
theorem removed_ne_of_log {c c' : PoolConfig β} {b : β} (hlog : c'.log = c.log ++ [.removed b]) : removed c'.log ≠ removed c.log := by
  intro hsame
  rw [hlog, removed_append] at hsame
  have hlen := congrArg List.length hsame
  rw [List.length_append] at hlen
  exact absurd hlen (Nat.ne_of_gt (Nat.lt_succ_self _))

/-- How the counts of a block change in a step that removes nothing. -/
theorem effect_balance {c c' : PoolConfig β} (h : Effect c c') (b : β) (hb : removed c'.log = removed c.log) :
    c'.pool.queue.count b + c'.pool.executing b + (thrown c'.log).count b + (added c.log).count b =
      c.pool.queue.count b + c.pool.executing b + (thrown c.log).count b + (added c'.log).count b := by
  cases h with
  | quiet hlog hq hx =>
    rcases hlog with hlog | ⟨e, he, hlog⟩
    · rw [hlog, hq, hx]
    · obtain ⟨ha, _, _, ht⟩ := silent_readings he
      rw [hlog, hq, hx, added_append, thrown_append, ha, ht, List.append_nil, List.append_nil]
  | added b' hlog hq hx =>
    have ha : PoolLog.added [PoolEvent.added b'] = [b'] := rfl
    have ht : thrown [PoolEvent.added b'] = [] := rfl
    rw [hlog, hq, hx, added_append, thrown_append, ha, ht, List.append_nil, List.count_append, List.count_append]
    omega
  | removed b' hlog hq hx =>
    exact absurd hb (removed_ne_of_log hlog)
  | delivered w b' hlog hq hx =>
    have ha : PoolLog.added [PoolEvent.delivered w b'] = [] := rfl
    have ht : thrown [PoolEvent.delivered w b'] = [] := rfl
    have hcount : c.pool.queue.count b = c'.pool.queue.count b + one b' b := by
      rw [hq, ← List.singleton_append, List.count_append, count_singleton_one]
      omega
    have := hx b
    rw [hlog, added_append, thrown_append, ha, ht, List.append_nil, List.append_nil]
    omega
  | putBack w b' hlog hq hx =>
    have ha : PoolLog.added [PoolEvent.putBack w b'] = [] := rfl
    have ht : thrown [PoolEvent.putBack w b'] = [] := rfl
    have := hx b
    rw [hlog, hq, added_append, thrown_append, ha, ht, List.append_nil, List.append_nil, List.count_append, count_singleton_one]
    omega
  | threw w b' msg hlog hq hx =>
    have ha : PoolLog.added [PoolEvent.threw w b' msg] = [] := rfl
    have ht : thrown [PoolEvent.threw w b' msg] = [b'] := rfl
    have := hx b
    rw [hlog, hq, added_append, thrown_append, ha, ht, List.append_nil, List.count_append, count_singleton_one]
    omega

/-- A step that removes a block is the removal of that block and does nothing else. -/
theorem effect_removal {c c' : PoolConfig β} (h : Effect c c') : removed c'.log = removed c.log ∨
    ∃ b, c'.log = c.log ++ [.removed b] ∧ c'.pool.queue = c.pool.queue.filter (· ≠ b) ∧
      ∀ b, c'.pool.executing b = c.pool.executing b := by
  cases h with
  | quiet hlog =>
    rcases hlog with hlog | ⟨e, he, hlog⟩
    · exact Or.inl (by rw [hlog])
    · obtain ⟨_, hrem, _, _⟩ := silent_readings he
      exact Or.inl (by rw [hlog, removed_append, hrem, List.append_nil])
  | removed b hlog hq hx => exact Or.inr ⟨b, hlog, hq, hx⟩
  | added b hlog | delivered w b hlog | putBack w b hlog | threw w b msg hlog =>
    refine Or.inl ?_
    rw [hlog, removed_append]
    exact List.append_nil _

/-- Every step keeps the invariant. -/
theorem step_poolInv {c c' : PoolConfig β} {a : PoolAct β} (h : PoolInv c) (hs : c.step a = some c') : PoolInv c' := by
  have heff := step_effect h.staffed hs
  rcases effect_removal heff with hsame | ⟨r, hlog, hq, hx⟩
  · refine ⟨step_staffed h.staffed hs, fun b => ?_, fun b hb => ?_⟩
    · have hbal := effect_balance heff b hsame
      have := h.bounded b
      omega
    · have hbal := effect_balance heff b hsame
      have := h.conserved b (hsame ▸ hb)
      omega
  · have ha : added c'.log = added c.log := by rw [hlog, added_append]; exact List.append_nil _
    have ht : thrown c'.log = thrown c.log := by rw [hlog, thrown_append]; exact List.append_nil _
    refine ⟨step_staffed h.staffed hs, fun b => ?_, fun b hb => ?_⟩
    · have hle : (c.pool.queue.filter (· ≠ r)).count b ≤ c.pool.queue.count b := List.filter_sublist.count_le b
      have := h.bounded b
      rw [ha, ht, hq, hx]
      omega
    · rw [hlog, removed_append, List.mem_append, not_or] at hb
      have hne : b ≠ r := fun e => hb.2 (by rw [e]; exact List.mem_singleton_self r)
      have hcount : (c.pool.queue.filter (· ≠ r)).count b = c.pool.queue.count b := List.count_filter (by simpa using hne)
      rw [ha, ht, hq, hx, hcount]
      exact h.conserved b hb.1

/-- The invariant holds after any steps. -/
theorem after_poolInv {tnum : Nat} {affinity : List Nat} {acts : List (PoolAct β)} {c : PoolConfig β}
    (hr : PoolConfig.after tnum affinity acts = some c) : PoolInv c :=
  Lts.run_inv (fun _ _ _ h hs => step_poolInv h hs) (poolInv_new tnum affinity) hr

/-- What an event says of the queue before and after it. -/
def PoolEvent.onQueue : PoolEvent β → List β → List β → Prop
  | .added b, q, q' | .putBack _ b, q, q' => q' = q ++ [b]
  | .removed b, q, q' => q' = q.filter (· ≠ b)
  | .delivered _ b, q, q' => q = b :: q'
  | .refused _, q, q' | .returned _ _, q, q' | .threw _ _ _, q, q' => q' = q

/-- The event that a step leaves in the history tells what the step did to the queue. -/
theorem effect_event {c c' : PoolConfig β} {e : PoolEvent β} (h : Effect c c') (hlog : c'.log = c.log ++ [e]) :
    e.onQueue c.pool.queue c'.pool.queue := by
  have hsame : ∀ {e' : PoolEvent β}, c'.log = c.log ++ [e'] → e = e' := by
    intro e' he
    rwa [hlog, List.append_cancel_left_eq, List.singleton_inj] at he
  cases h with
  | quiet hl hq =>
    rcases hl with hl | ⟨e', he, hl⟩
    · rw [hlog] at hl
      exact absurd (congrArg List.length hl) (by simp)
    · obtain rfl := hsame hl
      cases e with
      | refused msg => exact hq
      | returned w b => exact hq
      | _ => cases he
  | added b hl hq | removed b hl hq | delivered w b hl hq | putBack w b hl hq | threw w b msg hl hq =>
    obtain rfl := hsame hl
    exact hq

/-! ## The order of the deliveries -/

/-- Since the history was `past` and the queue was `ahead` followed by `b`: the blocks that were ahead of `b` are those delivered
in the meantime and those still ahead of `b`. -/
def Ahead (past : List (PoolEvent β)) (ahead : List β) (b : β) (c : PoolConfig β) : Prop :=
  ∃ seg still rest, c.log = past ++ seg ∧ c.pool.queue = still ++ b :: rest ∧ ahead = delivered seg ++ still

/-- A step that removes nothing keeps the order, unless it delivers the block itself: then every block ahead of it was
delivered. -/
theorem effect_ahead {c c' : PoolConfig β} {past : List (PoolEvent β)} {ahead : List β} {b : β} (h : Effect c c')
    (hb : removed c'.log = removed c.log) (ha : Ahead past ahead b c) :
    Ahead past ahead b c' ∨ ∃ w seg, c'.log = past ++ seg ++ [.delivered w b] ∧ delivered seg = ahead := by
  obtain ⟨seg, still, rest, hseg, hstill, rfl⟩ := ha
  cases h with
  | quiet hlog hq hx =>
    rcases hlog with hlog | ⟨e, he, hlog⟩
    · exact Or.inl ⟨seg, still, rest, by rw [hlog, hseg], by rw [hq, hstill], rfl⟩
    · obtain ⟨_, _, hdel, _⟩ := silent_readings he
      refine Or.inl ⟨seg ++ [e], still, rest, by rw [hlog, hseg, List.append_assoc], by rw [hq, hstill], ?_⟩
      rw [delivered_append, hdel, List.append_nil]
  | added b' hlog hq hx =>
    refine Or.inl ⟨seg ++ [.added b'], still, rest ++ [b'], by rw [hlog, hseg, List.append_assoc], ?_, ?_⟩
    · rw [hq, hstill, List.append_assoc, List.cons_append]
    · rw [delivered_append]
      exact congrArg (· ++ still) (List.append_nil _).symm
  | removed b' hlog hq hx =>
    exact absurd hb (removed_ne_of_log hlog)
  | delivered w b' hlog hq hx =>
    rw [hstill] at hq
    cases still with
    | nil =>
      rw [List.nil_append, List.cons.injEq] at hq
      obtain ⟨rfl, -⟩ := hq
      exact Or.inr ⟨w, seg, by rw [hlog, hseg], (List.append_nil _).symm⟩
    | cons x still =>
      rw [List.cons_append, List.cons.injEq] at hq
      obtain ⟨rfl, hq⟩ := hq
      refine Or.inl ⟨seg ++ [.delivered w x], still, rest, by rw [hlog, hseg, List.append_assoc], hq.symm, ?_⟩
      have hx : delivered [PoolEvent.delivered w x] = [x] := rfl
      rw [delivered_append, hx, List.append_assoc, List.singleton_append]
  | putBack w b' hlog hq hx =>
    refine Or.inl ⟨seg ++ [.putBack w b'], still, rest ++ [b'], by rw [hlog, hseg, List.append_assoc], ?_, ?_⟩
    · rw [hq, hstill, List.append_assoc, List.cons_append]
    · rw [delivered_append]
      exact congrArg (· ++ still) (List.append_nil _).symm
  | threw w b' msg hlog hq hx =>
    refine Or.inl ⟨seg ++ [.threw w b' msg], still, rest, by rw [hlog, hseg, List.append_assoc], by rw [hq, hstill], ?_⟩
    rw [delivered_append]
    exact congrArg (· ++ still) (List.append_nil _).symm

/-- Every step only adds to the history. -/
theorem poolStep_log {c c' : PoolConfig β} {a : PoolAct β} (hs : c.step a = some c') : c.log <+: c'.log := by
  cases poolStep_cases hs with
  | worker hw =>
    cases hw with
    | fetch | returns | throws | putBack => exact List.prefix_append _ _
    | start | goOn | leave | noTask | ends => exact List.prefix_rfl
  | controller hc =>
    cases hc with
    | refused => exact List.prefix_append _ _
    | starts | started | asks | stopped | joins => exact List.prefix_rfl
  | refused | addTask | removeTask => exact List.prefix_append _ _
  | run | stop => exact List.prefix_rfl

/-- Since the history was `past` the block `b` was not delivered and no block was removed. -/
def Waiting (past : List (PoolEvent β)) (b : β) (log : List (PoolEvent β)) : Prop :=
  ∀ seg, log = past ++ seg → b ∉ delivered seg ∧ removed seg = []

omit [DecidableEq β] in
/-- A block that waits has waited before. -/
theorem Waiting.of_earlier {past l l' : List (PoolEvent β)} {b : β} (hl : l <+: l') (h : Waiting past b l') :
    Waiting past b l := by
  obtain ⟨t, rfl⟩ := hl
  rintro seg rfl
  obtain ⟨h1, h2⟩ := h (seg ++ t) (List.append_assoc ..)
  rw [delivered_append, List.mem_append, not_or] at h1
  rw [removed_append, List.append_eq_nil_iff] at h2
  exact ⟨h1.1, h2.1⟩

/-- While a block waits, the blocks that were ahead of it stay ahead of it until they are delivered. -/
theorem run_ahead {acts : List (PoolAct β)} {c c' : PoolConfig β} {past : List (PoolEvent β)} {ahead : List β} {b : β}
    (h : PoolInv c) (ha : Ahead past ahead b c) (hr : Lts.run PoolConfig.step c acts = some c') (hw : Waiting past b c'.log) :
    PoolInv c' ∧ Ahead past ahead b c' := by
  refine Lts.run_inv_of_log PoolConfig.log (G := Waiting past b) (I := fun s => PoolInv s ∧ Ahead past ahead b s)
    (fun _ _ _ hs => poolStep_log hs) (fun _ _ hl h => h.of_earlier hl) ?_ ⟨h, ha⟩ hr hw
  rintro s a t ⟨hinv, hahead⟩ hs hwait
  refine ⟨step_poolInv hinv hs, ?_⟩
  have hrem : removed t.log = removed s.log := by
    obtain ⟨seg, _, _, hseg, _, _⟩ := hahead
    obtain ⟨new, hnew⟩ := poolStep_log hs
    have hseg' : t.log = past ++ (seg ++ new) := by rw [← hnew, hseg, List.append_assoc]
    obtain ⟨-, hnone⟩ := hwait _ hseg'
    rw [removed_append, List.append_eq_nil_iff] at hnone
    rw [← hnew, removed_append, hnone.2, List.append_nil]
  rcases effect_ahead (step_effect hinv.staffed hs) hrem hahead with hnext | ⟨w, seg, hlog, -⟩
  · exact hnext
  · obtain ⟨hnot, -⟩ := hwait _ (hlog.trans (List.append_assoc ..))
    exact absurd (by simp [delivered]) hnot

end Blockmon
