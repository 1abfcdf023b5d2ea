import Blockmon.Lemmas.PoolManager

/-!
# Starting and stopping all the pools

`PoolManager::start` and `PoolManager::stop` end at the first pool whose own call throws. The pools with a name before it have been
started or stopped, the others are as they were, and nothing is undone.
-/

namespace Blockmon

open OrdMap

namespace PoolManager

variable {β : Type}

/-- A pool is started unless it refuses. -/
theorem returns_run {name : String} {p : ThreadPool β} :
    Returns (fun _ => ThreadPool.run) (name, p) ↔ p.refusesRun = false := by
  constructor
  · rintro ⟨p', hrun⟩
    cases h : p.refusesRun with
    | false => rfl
    | true =>
      obtain ⟨e, he⟩ := ThreadPool.run_run_of_refuses h
      rw [he] at hrun
      cases hrun
  · intro h
    exact ⟨_, ThreadPool.run_run_of_accepts h⟩

/-- A running pool is stopped. -/
theorem returns_stop {left : String → Leftover β} {name : String} {p : ThreadPool β} :
    Returns (fun name => ThreadPool.stop (left name)) (name, p) ↔ p.running = true := by
  simp only [Returns, ThreadPool.run_stop]
  cases p.running with
  | true => simp
  | false => simp

/-- The running pools are the first ones in the order of the names. -/
def RunningFirst (m : PoolManager β) : Prop :=
  ∀ name p name' p', m.map.find? name = some p → p.running = false → m.map.find? name' = some p' → p'.running = true → name' < name

/-- No pool refuses to run, or the pool with the least name does. -/
def AcceptsOrFirstRefuses (m : PoolManager β) : Prop :=
  (∀ name p, m.map.find? name = some p → p.refusesRun = false) ∨
    ∃ name p, m.map.find? name = some p ∧ p.refusesRun = true ∧ ∀ name' p', m.map.find? name' = some p' → name ≤ name'

/-- `stop` leaves no pool running exactly if the running pools come first. -/
theorem stop_stops_iff (left : String → Leftover β) (m : PoolManager β) :
    (∀ name p, (Exn.leaves ((stop left).run m)).map.find? name = some p → p.running = false) ↔ RunningFirst m := by
  rw [leaves_stop]
  obtain ⟨map', hvisit⟩ := visit_spec (fun name => ThreadPool.stop (left name)) m.map
  rw [hvisit.leaves_eq]
  have hstopped : ∀ name p, p.running = true → (visitedValue (fun name => ThreadPool.stop (left name)) name p).running = false := by
    intro name p hp
    rw [visitedValue, ThreadPool.run_stop, if_pos hp]
    rfl
  generalize (visit fun name => ThreadPool.stop (left name)).run m.map = r at hvisit
  cases hvisit with
  | returns hret hfind =>
    have hall : ∀ name p, m.map.find? name = some p → p.running = true := fun name p hp => returns_stop.mp (hret name p hp)
    constructor
    · intro _ name p _ _ hp hr _ _
      exact absurd (hall name p hp) (by simp [hr])
    · intro _ name p' hp'
      rw [hfind] at hp'
      obtain ⟨p, hp, rfl⟩ := Option.map_eq_some_iff.mp hp'
      exact hstopped name p (hall name p hp)
  | throws k v v' e hk he hret hfind =>
    -- the pools before `k` run, the pool `k` does not
    have hbefore : ∀ name p, name < k → m.map.find? name = some p → p.running = true :=
      fun name p hlt hp => returns_stop.mp (hret name p hlt hp)
    have hvk : v.running = false := by
      have hnot : ¬Returns (fun name => ThreadPool.stop (left name)) (k, v) := not_returns he
      rwa [returns_stop, Bool.not_eq_true] at hnot
    constructor
    · intro hafter name p name' p' hp hr hp' hr'
      have hk' : name' < k := by
        by_contra hge
        rcases eq_or_lt_of_le (not_lt.mp hge) with rfl | hlt
        · rw [hk] at hp'
          cases hp'
          exact absurd hr' (by simp [hvk])
        · have hsame := hfind name'
          rw [if_neg hlt.not_ge, hp'] at hsame
          exact absurd hr' (by simp [hafter name' p' hsame])
      have hname : k ≤ name := by
        by_contra hlt
        exact absurd (hbefore name p (not_le.mp hlt) hp) (by simp [hr])
      exact lt_of_lt_of_le hk' hname
    · intro hfirst name p' hp'
      rw [hfind] at hp'
      split at hp'
      · rename_i hle
        obtain ⟨p, hp, rfl⟩ := Option.map_eq_some_iff.mp hp'
        rcases eq_or_lt_of_le hle with rfl | hlt
        · rw [hk] at hp
          cases hp
          rw [visitedValue, ThreadPool.run_stop, if_neg (by simp [hvk])]
          exact hvk
        · exact hstopped name p (hbefore name p hlt hp)
      · rename_i hgt
        rw [← Bool.not_eq_true]
        intro hr
        exact hgt (hfirst k v name p' hk hvk hp' hr).le

/-- A start visits the pools in their order. -/
theorem run_start (m : PoolManager β) :
    start.run m =
      match (visit fun _ => ThreadPool.run).run m.map with
      | .ok _ map => .ok () { map := map, running := true }
      | .error e map => .error e { map := map, running := true } := rfl

/-- A `start` that throws leaves every stopped pool stopped, without a thread, exactly if it throws at the first pool. -/
theorem start_restores_iff {m : PoolManager β} (h : Sound m) :
    (∀ e m', start.run m = .error e m' → ∀ name p p', m.map.find? name = some p → p.running = false →
      m'.map.find? name = some p' → p'.running = false ∧ p'.hasThreads = false) ↔ AcceptsOrFirstRefuses m := by
  obtain ⟨map', hvisit⟩ := visit_spec (fun _ => ThreadPool.run) m.map
  generalize hr : (visit fun _ => ThreadPool.run).run m.map = r at hvisit
  rw [run_start, hr]
  cases hvisit with
  | returns hret hfind =>
    refine ⟨fun _ => Or.inl fun name p hp => returns_run.mp (hret name p hp), fun _ e m' hthrows => ?_⟩
    cases hthrows
  | throws k v v' e hk he hret hfind =>
    have hvk : v.refusesRun = true := by
      have hnot : ¬Returns (fun _ => ThreadPool.run) (k, v) := not_returns he
      rwa [returns_run, Bool.not_eq_false] at hnot
    have hsame : visitedValue (fun _ => ThreadPool.run) k v = v := by
      obtain ⟨e', he'⟩ := ThreadPool.run_run_of_refuses hvk
      rw [visitedValue, he']
      rfl
    by_cases hfirst : ∀ name p, m.map.find? name = some p → k ≤ name
    · -- nothing was started
      refine ⟨fun _ => Or.inr ⟨k, v, hk, hvk, hfirst⟩, fun _ e' m' hthrows name p p' hp hstopped hp' => ?_⟩
      cases hthrows
      have hpp : p' = p := by
        rw [hfind, hp] at hp'
        split at hp'
        · rename_i hle
          obtain rfl : name = k := le_antisymm hle (hfirst name p hp)
          rw [hk] at hp
          cases hp
          rw [Option.map_some, hsame] at hp'
          exact (Option.some.inj hp').symm
        · exact (Option.some.inj hp').symm
      subst hpp
      exact ⟨hstopped, (h name p' hp).hasThreads_eq_false hstopped⟩
    · -- a pool before `k` was stopped and runs now
      push Not at hfirst
      obtain ⟨name, p, hp, hlt⟩ := hfirst
      have haccepts := returns_run.mp (hret name p hlt hp)
      have hstopped : p.running = false := (Bool.or_eq_false_iff.mp haccepts).1
      have hstarted : map'.find? name = some p.started := by
        rw [hfind, if_pos hlt.le, hp, Option.map_some, visitedValue, ThreadPool.run_run_of_accepts haccepts]
        rfl
      refine ⟨fun hall => ?_, fun hcond => ?_⟩
      · exact absurd (hall e _ rfl name p p.started hp hstopped hstarted).1 (by simp [ThreadPool.started])
      · rcases hcond with hnone | ⟨name₀, p₀, hp₀, hrefuses, hleast⟩
        · exact absurd hvk (by simp [hnone k v hk])
        · have hlt₀ : name₀ < k := lt_of_le_of_lt (hleast name p hp) hlt
          exact absurd hrefuses (by simp [returns_run.mp (hret name₀ p₀ hlt₀ hp₀)])

variable [DecidableEq β]

/-- In every state of the directory: after `stop` no pool runs, whatever the workers leave, exactly if the running pools come first
in the order of the names; and a `start` that throws leaves the stopped pools stopped and without threads exactly if no pool
refuses to run or the first one does. -/
theorem start_stop_consistent_iff (acts : List (DirectoryAct β)) (m : PoolManager β) (h : after acts = some m) :
    (∀ left, (∀ name p, (Exn.leaves ((stop left).run m)).map.find? name = some p → p.running = false) ↔ RunningFirst m) ∧
    ((∀ e m', start.run m = .error e m' → ∀ name p p', m.map.find? name = some p → p.running = false →
      m'.map.find? name = some p' → p'.running = false ∧ p'.hasThreads = false) ↔ AcceptsOrFirstRefuses m) :=
  ⟨fun left => stop_stops_iff left m, start_restores_iff (sound_after h)⟩

/-- Two pools with one thread each are started. -/
def startedPools : List (DirectoryAct Nat) := [.createPool ⟨"a", 1, []⟩, .createPool ⟨"b", 1, ["0", "1"]⟩, .start]

/-- Two pools that run are stopped. -/
theorem start_stop_consistent_two_pools : ∃ m : PoolManager Nat, after startedPools = some m ∧ RunningFirst m ∧
    ∀ left name p, (Exn.leaves ((stop left).run m)).map.find? name = some p → p.running = false := by
  have hsome : (after startedPools).isSome = true := by decide +kernel
  obtain ⟨m, hm⟩ := Option.isSome_iff_exists.mp hsome
  have hall : ∀ e ∈ m.map.entries, e.2.running = true := by
    have hrun : (after startedPools).all (fun m => m.map.entries.all fun e => e.2.running) = true := by decide +kernel
    rw [hm] at hrun
    exact List.all_eq_true.mp hrun
  have hfirst : RunningFirst m := fun _ _ _ _ hp hr _ _ => absurd (hall _ (find?_eq_some.mp hp)) (by simp [hr])
  exact ⟨m, hm, hfirst, fun left => ((start_stop_consistent_iff startedPools m hm).1 left).mpr hfirst⟩

/-- A pool that was created after the others were started, with a name before theirs. -/
def createdLater : List (DirectoryAct Nat) := [.createPool ⟨"b", 1, []⟩, .start, .createPool ⟨"a", 1, []⟩]

/-- A pool whose affinity is refused, with a name after that of another pool. -/
def refusedLater : List (DirectoryAct Nat) := [.createPool ⟨"a", 1, []⟩, .createPool ⟨"b", 1, ["2000"]⟩]

/-- `stop` throws at a pool that does not run and leaves the next one running; `start` throws at a pool whose affinity is too high
and leaves the pool before it running. -/
theorem start_stop_inconsistent :
    (¬∀ (acts : List (DirectoryAct Nat)) (m : PoolManager Nat), after acts = some m →
      ∀ left name p, (Exn.leaves ((stop left).run m)).map.find? name = some p → p.running = false) ∧
    (¬∀ (acts : List (DirectoryAct Nat)) (m : PoolManager Nat), after acts = some m →
      ∀ e m', start.run m = .error e m' → ∀ name p p', m.map.find? name = some p → p.running = false →
        m'.map.find? name = some p' → p'.running = false ∧ p'.hasThreads = false) := by
  constructor
  · intro hall
    -- the pool `b` after the call on the directory that `createdLater` leaves
    have hruns : ((after createdLater).bind fun m => (Exn.leaves ((stop fun _ => ⟨[], fun _ => none⟩).run m)).map.find? "b").any
        (·.running) = true := by decide +kernel
    obtain ⟨p, hp, hr⟩ := (Option.any_eq_true _ _).mp hruns
    obtain ⟨m, hm, hp⟩ := Option.bind_eq_some_iff.mp hp
    exact absurd (hall createdLater m hm _ "b" p hp) (by simp [hr])
  · intro hall
    -- the pool `a` before and after the call on the directory that `refusedLater` leaves
    have hruns : (after refusedLater).any (fun m =>
        match start.run m with
        | .ok _ _ => false
        | .error _ m' => (m.map.find? "a").any (fun p => !p.running) && (m'.map.find? "a").any (·.running)) = true := by
      decide +kernel
    obtain ⟨m, hm, hruns⟩ := (Option.any_eq_true _ _).mp hruns
    cases hstart : start.run m with
    | ok _ m' =>
      rw [hstart] at hruns
      cases hruns
    | error e m' =>
      simp only [hstart, Bool.and_eq_true] at hruns
      obtain ⟨p, hp, hstopped⟩ := (Option.any_eq_true _ _).mp hruns.1
      obtain ⟨p', hp', hr⟩ := (Option.any_eq_true _ _).mp hruns.2
      exact absurd (hall refusedLater m hm e m' hstart "a" p p' hp (by simpa using hstopped) hp').1 (by simp [hr])

end PoolManager

end Blockmon
