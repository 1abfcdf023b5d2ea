import Blockmon.Lemmas.PoolCalls

/-!
# What the calls on the directory of thread pools do

`start` and `stop` visit the pools in the order of their names. `Sound` is the invariant of the directory: a pool that is not running has no threads.
-/

namespace Blockmon

namespace PoolManager

variable {β : Type}

/-! ## The loops over the pools -/

/-- A visit of the pools leaves the flag. -/
theorem leaves_forPools (f : String → EStateM String (ThreadPool β) Unit) (m : PoolManager β) :
    Exn.leaves ((forPools f).run m) = { m with map := Exn.leaves ((OrdMap.visit f).run m.map) } := by
  simp only [forPools, EStateM.run]
  cases OrdMap.visit f m.map with
  | ok | error => rfl

/-- What a start leaves. -/
theorem leaves_start (m : PoolManager β) :
    Exn.leaves (start.run m) = { map := Exn.leaves ((OrdMap.visit fun _ => ThreadPool.run).run m.map), running := true } :=
  leaves_forPools _ { m with running := true }

/-- What a stop leaves. -/
theorem leaves_stop (left : String → Leftover β) (m : PoolManager β) :
    Exn.leaves ((stop left).run m) =
      { map := Exn.leaves ((OrdMap.visit fun name => ThreadPool.stop (left name)).run m.map), running := false } :=
  leaves_forPools _ { m with running := false }

/-! ## The invariant -/

/-- Every pool of the directory is as a pool is between two calls. -/
def Sound (m : PoolManager β) : Prop := ∀ name p, m.map.find? name = some p → Staffed (PoolConfig.between p)

/-- No pools are sound. -/
theorem sound_new : Sound (new : PoolManager β) := fun _ _ h => by cases h

/-- A staffed pool may be filed. -/
theorem Sound.assign {m : PoolManager β} (h : Sound m) {name : String} {p : ThreadPool β} (hp : Staffed (PoolConfig.between p)) :
    Sound { m with map := m.map.assign name p } := by
  intro name' p' hp'
  rw [OrdMap.find?_assign] at hp'
  split at hp'
  · cases hp'
    exact hp
  · exact h name' p' hp'

/-- A visit that keeps the staff keeps the pools sound. -/
theorem Sound.visit {m : PoolManager β} (h : Sound m) {f : String → EStateM String (ThreadPool β) Unit}
    (hf : ∀ name p, Staffed (PoolConfig.between p) → Staffed (PoolConfig.between (Exn.leaves ((f name).run p)))) (r : Bool) :
    Sound { map := Exn.leaves ((OrdMap.visit f).run m.map), running := r } := by
  intro name p' hp'
  obtain ⟨map', hvisit⟩ := OrdMap.visit_spec f m.map
  rw [hvisit.leaves_eq] at hp'
  obtain ⟨p, hp, rfl | rfl⟩ := hvisit.find?_eq_some hp'
  · exact h name p' hp
  · exact hf name p (h name p hp)

/-- So does a call on one pool. -/
theorem Sound.onPool {m : PoolManager β} (h : Sound m) {call : EStateM String (ThreadPool β) Unit}
    (hcall : ∀ p, Staffed (PoolConfig.between p) → Staffed (PoolConfig.between (Exn.leaves (call.run p)))) (name : String) :
    Sound (Exn.leaves ((onPool name call).run m)) := by
  simp only [PoolManager.onPool, EStateM.run]
  cases hp : m.map.find? name with
  | none => exact h
  | some p =>
    have hstaffed := hcall p (h name p hp)
    simp only [EStateM.run] at hstaffed
    cases hrun : call p with
    | ok _ p' | error _ p' =>
      rw [hrun] at hstaffed
      simp only [hrun]
      exact h.assign hstaffed

/-- `create_pool`, as a run. -/
theorem run_createPool (n : PoolNode) (m : PoolManager β) :
    (createPool n).run m =
      if n.id.length = 0 ∨ n.numThreads = 0 then .error "could not parse thread pool paramters" m
      else
        match PoolNode.affinity n.cores with
        | .error e => .error e m
        | .ok affinity =>
          if (m.map.find? n.id).isSome then .error (n.id ++ " : thread pool already exists") m
          else .ok () { m with map := m.map.assign n.id (ThreadPool.new n.numThreads.toNat affinity) } := by
  simp only [createPool]
  by_cases hparse : n.id.length = 0 ∨ n.numThreads = 0
  · simp only [if_pos hparse]
    rfl
  · simp only [if_neg hparse]
    cases PoolNode.affinity n.cores with
    | error e => rfl
    | ok affinity =>
      simp only [EStateM.run_bind, Exn.run_ofExcept, EStateM.run_get]
      split <;> rfl

/-- A new pool keeps the pools sound. -/
theorem Sound.createPool {m : PoolManager β} (h : Sound m) (n : PoolNode) : Sound (Exn.leaves ((createPool n).run m)) := by
  rw [run_createPool]
  split
  · exact h
  · split
    · exact h
    · split
      · exact h
      · exact h.assign (staffed_new _ _)

variable [DecidableEq β]

/-- So does every step. -/
theorem step_sound {m m' : PoolManager β} {a : DirectoryAct β} (h : Sound m) (hs : m.step a = some m') : Sound m' := by
  cases a with
  | createPool n =>
    cases hs
    exact h.createPool n
  | deletePool name =>
    simp only [step] at hs
    split at hs <;> cases hs
    exact fun name' p hp => h name' p (OrdMap.find?_erase_eq_some hp)
  | addToPool name b =>
    cases hs
    refine h.onPool (fun p hp => ?_) name
    rw [ThreadPool.run_addTask]
    split
    · exact hp
    · exact staffed_setQueue hp _
  | removeFromPool name b =>
    cases hs
    refine h.onPool (fun p hp => ?_) name
    rw [ThreadPool.run_removeTask]
    split
    · exact hp
    · exact staffed_setQueue hp _
  | start =>
    cases hs
    rw [leaves_start]
    refine h.visit (fun _ p hp => ?_) _
    cases hrefuses : p.refusesRun with
    | true =>
      obtain ⟨e, he⟩ := ThreadPool.run_run_of_refuses hrefuses
      rw [he]
      exact hp
    | false =>
      rw [ThreadPool.run_run_of_accepts hrefuses]
      exact staffed_started hp
  | stop left =>
    cases hs
    rw [leaves_stop]
    refine h.visit (fun _ p hp => ?_) _
    rw [ThreadPool.run_stop]
    split
    · exact staffed_stopped hp _
    · exact hp
  | worker name w inp =>
    obtain ⟨p, hp, hs⟩ := Option.bind_eq_some_iff.mp hs
    obtain ⟨c, hc, hs⟩ := Option.bind_eq_some_iff.mp hs
    cases hs
    exact h.assign (workerStep_between (h name p hp) hc)

/-- The invariant holds after any calls and steps. -/
theorem sound_after {acts : List (DirectoryAct β)} {m : PoolManager β} (h : after acts = some m) : Sound m :=
  Lts.run_inv (fun _ _ _ => step_sound) sound_new h

end PoolManager

end Blockmon
