import Blockmon.Lemmas.CompositionManager

/-!
# An installation that throws

`add_config_from_file` undoes nothing when it throws. What was in the directories before stays as it was, but for tasks added at the
end of the queues of the pools, and so do the links and the queues of the gates; the pools, the composition, the blocks, the tasks and the
links that were made before the exception stay too. The clock source is one of the process: it stays the one that the document selects.
-/

namespace Blockmon

open Exn

variable {π T : Type}

/-- The nodes an installation works on: those of a document that is accepted up to its `install` node. -/
def Document.target (doc : Document π) : Option (CompositionNode π × ClockSource × InstallNode π) := do
  let config ← doc.composition
  let clock ← (CompositionManager.clockSource config.general).toOption
  let install ← config.install
  return (config, clock, install)

/-- The clock source that a document selects, if its nodes up to `clock` are accepted. -/
def Document.selectedClock (doc : Document π) : Option ClockSource := do
  let config ← doc.composition
  (CompositionManager.clockSource config.general).toOption

namespace CompositionManager

/-- Where `addConfig` was when it threw `e`, and the process it left. -/
inductive Interrupted (factory : BlockFactory π) (doc : Document π) (w : Process T) (e : String) : Process T → Prop where
  /-- Before the `install` node, or where it is missing. -/
  | early (htarget : doc.target = none) : Interrupted factory doc w e { w with clock := doc.selectedClock.getD w.clock }
  /-- At a thread pool; those before it have been created. -/
  | pool {config : CompositionNode π} {clock : ClockSource} {install : InstallNode π} {before after : List PoolNode} {n : PoolNode}
      {pools : PoolManager Nat} (htarget : doc.target = some (config, clock, install))
      (hpools : install.threadpools = before ++ n :: after)
      (hbefore : (forM before PoolManager.createPool).run w.runtime.pools = .ok ⟨⟩ pools)
      (hthrows : (PoolManager.createPool n).run pools = .error e pools) :
      Interrupted factory doc w e { w with clock := clock, runtime := { w.runtime with pools := pools } }
  /-- At the identifier of the composition; all the thread pools have been created. -/
  | duplicate {config : CompositionNode π} {clock : ClockSource} {install : InstallNode π} {pools : PoolManager Nat}
      (htarget : doc.target = some (config, clock, install))
      (hpools : (forM install.threadpools PoolManager.createPool).run w.runtime.pools = .ok ⟨⟩ pools)
      (hexists : (w.configMap.find? config.id).isSome = true) (hthrows : e = config.id ++ " : composition already exists") :
      Interrupted factory doc w e { w with clock := clock, runtime := { w.runtime with pools := pools } }
  /-- In `Composition::install`; the new composition is in the directory with what the steps before have done. -/
  | inside {config : CompositionNode π} {clock : ClockSource} {install : InstallNode π} {pools : PoolManager Nat}
      {before after : List (InstallStep π)} {k : InstallStep π} {m s : Site T}
      (htarget : doc.target = some (config, clock, install))
      (hpools : (forM install.threadpools PoolManager.createPool).run w.runtime.pools = .ok ⟨⟩ pools)
      (hnew : w.configMap.find? config.id = none) (hsteps : install.steps = before ++ k :: after)
      (hbefore : (forM before (InstallStep.exec factory)).run
        ⟨Composition.new config.appId, { w.runtime with pools := pools }⟩ = .ok ⟨⟩ m)
      (hthrows : (k.exec factory).run m = .error e s) :
      Interrupted factory doc w e
        { configMap := w.configMap.assign config.id s.composition, clock := clock, runtime := s.runtime }

/-- The installation is refused before anything has been made: the document has no `install` node to reach, its first thread pool is
refused, or it has none and its composition exists. -/
def RefusedAtOnce (doc : Document π) (w : Process T) : Prop :=
  match doc.target with
  | none => True
  | some (config, _, install) =>
    match install.threadpools with
    | [] => (w.configMap.find? config.id).isSome = true
    | n :: _ => w.runtime.pools.refuses n = true

/-- A composition that is refused was there before, or one of its steps throws and the composition stays with the steps before it. -/
theorem installNew_throws {factory : BlockFactory π} {id appId : String} {install : InstallNode π} {w w' : Process T} {e : String}
    (h : (installNew factory id appId install).run w = .error e w') :
    ((w.configMap.find? id).isSome = true ∧ e = id ++ " : composition already exists" ∧ w' = w) ∨
      (w.configMap.find? id = none ∧ ∃ before k after m s, install.steps = before ++ k :: after ∧
        (forM before (InstallStep.exec factory)).run ⟨Composition.new appId, w.runtime⟩ = .ok ⟨⟩ m ∧
        (InstallStep.exec factory k).run m = .error e s ∧
        w' = { w with configMap := w.configMap.assign id s.composition, runtime := s.runtime }) := by
  rw [installNew, EStateM.run_bind, EStateM.run_get] at h
  dsimp only at h
  by_cases hexists : (w.configMap.find? id).isSome = true
  · rw [if_pos hexists] at h
    cases h
    exact Or.inl ⟨hexists, rfl, rfl⟩
  · rw [if_neg hexists, run_onPart, install_eq_steps] at h
    refine Or.inr ⟨by simpa using hexists, ?_⟩
    cases hrun : (forM install.steps (InstallStep.exec factory)).run (⟨Composition.new appId, w.runtime⟩ : Site T) with
    | ok u s =>
      rw [hrun] at h
      cases h
    | error e' s =>
      rw [hrun] at h
      cases h
      obtain ⟨before, k, after, m, hsteps, hbefore, hthrows⟩ := forM_throws_iff.mp hrun
      exact ⟨before, k, after, m, s, hsteps, hbefore, hthrows, rfl⟩

/-- The loop over the thread pool nodes is a loop on the directory of pools. -/
theorem run_createPools (ns : List PoolNode) (w : Process T) :
    (forM ns fun p => Process.onRuntime (Runtime.onPools (PoolManager.createPool p))).run w =
      match (forM ns PoolManager.createPool).run w.runtime.pools with
      | .ok _ pools => .ok ⟨⟩ { w with runtime := { w.runtime with pools := pools } }
      | .error e pools => .error e { w with runtime := { w.runtime with pools := pools } } := by
  simp only [Process.onRuntime, Runtime.onPools, onPart_onPart]
  rw [forM_onPart, run_onPart]
  · cases (forM ns PoolManager.createPool).run w.runtime.pools <;> rfl
  · exact fun _ _ => rfl
  · exact fun _ _ _ => rfl
  · exact fun _ => rfl

/-- A pool that is refused leaves the pools as they were. -/
theorem createPool_throws_same {n : PoolNode} {m m' : PoolManager Nat} {e : String}
    (h : (PoolManager.createPool n).run m = .error e m') : m' = m := by
  rcases PoolManager.createPool_cases n m with ⟨-, e', he⟩ | ⟨-, -, p, hp⟩
  · rw [he] at h
    cases h
    rfl
  · rw [hp] at h
    cases h

/-- How a call that throws has ended. -/
theorem interrupted {factory : BlockFactory π} {doc : Document π} {w w' : Process T} {e : String}
    (h : (addConfig factory doc).run w = .error e w') : Interrupted factory doc w e w' := by
  have hearly : doc.target = none → Interrupted factory doc w e { w with clock := doc.selectedClock.getD w.clock } := .early
  rw [addConfig] at h
  cases hdoc : doc.composition with
  | none =>
    rw [hdoc] at h
    cases h
    simpa [Document.selectedClock, hdoc] using hearly (by simp [Document.target, hdoc])
  | some config =>
    simp only [hdoc, EStateM.run_bind, run_ofExcept] at h
    cases hclock : clockSource config.general with
    | error e' =>
      rw [hclock] at h
      cases h
      have htarget : doc.target = none := by simp [Document.target, hdoc, hclock, Except.toOption]
      simpa [Document.selectedClock, hdoc, hclock, Except.toOption] using hearly htarget
    | ok clock =>
      have hmodify : (modify fun w => { w with clock := clock } : EStateM String (Process T) Unit).run w =
          .ok () { w with clock := clock } := rfl
      rw [hclock] at h
      dsimp only at h
      rw [hmodify] at h
      dsimp only at h
      cases hinstall : config.install with
      | none =>
        rw [hinstall] at h
        cases h
        have htarget : doc.target = none := by simp [Document.target, hdoc, hclock, hinstall, Except.toOption]
        simpa [Document.selectedClock, hdoc, hclock, Except.toOption] using hearly htarget
      | some install =>
        have htarget : doc.target = some (config, clock, install) := by
          simp [Document.target, hdoc, hclock, hinstall, Except.toOption]
        rw [hinstall] at h
        simp only [EStateM.run_bind, run_createPools] at h
        cases hpools : (forM install.threadpools PoolManager.createPool).run w.runtime.pools with
        | error e' pools =>
          rw [hpools] at h
          cases h
          obtain ⟨before, n, after, pools', hsplit, hbefore, hthrows⟩ := forM_throws_iff.mp hpools
          obtain rfl := createPool_throws_same hthrows
          exact .pool htarget hsplit hbefore hthrows
        | ok u pools =>
          rw [hpools] at h
          rcases installNew_throws h with ⟨hexists, rfl, rfl⟩ | ⟨hnew, before, k, after, m, s, hsteps, hbefore, hthrows, rfl⟩
          · exact .duplicate htarget hpools hexists rfl
          · exact .inside htarget hpools hnew hsteps hbefore hthrows

/-! ## What stays and what is new -/

variable {factory : BlockFactory π} {doc : Document π} {w w' : Process T} {e : String}

/-- The compositions that were there before are as they were. -/
theorem Interrupted.configMap_kept (h : Interrupted factory doc w e w') {id : String} {c : Composition}
    (hc : w.configMap.find? id = some c) : w'.configMap.find? id = some c := by
  cases h with
  | early _ => exact hc
  | pool _ _ _ _ => exact hc
  | duplicate _ _ _ _ => exact hc
  | inside _ _ hnew _ _ _ =>
    rw [OrdMap.find?_assign, if_neg]
    · exact hc
    · rintro rfl
      rw [hnew] at hc
      cases hc

/-- The pools that were there before have at most grown. -/
theorem Interrupted.pools_grown (h : Interrupted factory doc w e w') : PoolManager.Grown w.runtime.pools w'.runtime.pools := by
  have hcreated := fun ns : List PoolNode => keeps_forM (PoolManager.createPool_grown (β := Nat)) ns
  cases h with
  | early _ => exact PoolManager.Grown.refl _
  | pool _ _ hbefore _ => exact (hcreated _).of_ok hbefore
  | duplicate _ hpools _ _ => exact (hcreated _).of_ok hpools
  | inside _ hpools _ _ hbefore hthrows =>
    have hsteps := (keeps_forM (exec_grown factory) _).of_ok hbefore
    have hlast := (exec_grown factory _).of_error hthrows
    exact ((hcreated _).of_ok hpools).trans (hsteps.trans hlast)

/-- The nodes that are reached select the clock source. -/
theorem Document.selectedClock_of_target {config : CompositionNode π} {clock : ClockSource} {install : InstallNode π}
    (h : doc.target = some (config, clock, install)) : doc.selectedClock = some clock := by
  simp only [Document.target, Option.bind_eq_bind, Option.bind_eq_some_iff, Option.pure_def, Option.some.injEq] at h
  obtain ⟨config', hdoc, clock', hclock, install', -, heq⟩ := h
  cases heq
  simp [Document.selectedClock, hdoc, hclock]

/-- The clock is the one that the document selects, if it came to that. -/
theorem Interrupted.clock_eq (h : Interrupted factory doc w e w') : w'.clock = doc.selectedClock.getD w.clock := by
  cases h with
  | early _ => rfl
  | pool htarget _ _ _ => rw [Document.selectedClock_of_target htarget]; rfl
  | duplicate htarget _ _ _ => rw [Document.selectedClock_of_target htarget]; rfl
  | inside htarget _ _ _ _ _ => rw [Document.selectedClock_of_target htarget]; rfl

/-- The blocks of the installation have addresses from the next one on, so that every gate made before is left alone. -/
theorem Interrupted.gates_kept (h : Interrupted factory doc w e w') :
    w.runtime.gates.KeptBelow w.runtime.nextAddr w'.runtime.gates ∧ w'.runtime.running = w.runtime.running := by
  have hrefl := refl_of (Gates.KeptBelow w.runtime.nextAddr) w.runtime.gates
  cases h with
  | early _ => exact ⟨hrefl, rfl⟩
  | pool _ _ _ _ => exact ⟨hrefl, rfl⟩
  | duplicate _ _ _ _ => exact ⟨hrefl, rfl⟩
  | inside _ _ _ _ hbefore hthrows =>
    have hsteps := (keeps_forM (exec_others w.runtime.nextAddr factory) _).of_ok hbefore
    have hlast := (exec_others w.runtime.nextAddr factory _).of_error hthrows
    refine (trans_of (Site.OthersKept w.runtime.nextAddr) hsteps hlast ⟨le_refl _, ?_⟩).2
    intro name b hb
    cases hb

/-- The directories are as they were exactly if the installation was refused at once. -/
theorem Interrupted.unchanged_iff (h : Interrupted factory doc w e w') :
    (w'.configMap = w.configMap ∧ w'.runtime.pools = w.runtime.pools) ↔ RefusedAtOnce doc w := by
  cases h with
  | early htarget => simp [RefusedAtOnce, htarget]
  | @pool config clock install before after n pools htarget hpools hbefore hthrows =>
    simp only [RefusedAtOnce, htarget, hpools]
    cases before with
    | nil =>
      cases hbefore
      refine iff_of_true ⟨trivial, rfl⟩ ?_
      rcases PoolManager.createPool_cases n w.runtime.pools with ⟨hrefuses, -⟩ | ⟨-, -, p, hp⟩
      · exact hrefuses
      · rw [hp] at hthrows
        cases hthrows
    | cons n₀ before =>
      obtain ⟨haccepts, hnone, hsome⟩ := PoolManager.forM_createPool_cons hbefore
      refine iff_of_false (fun hsame => ?_) (by simp [haccepts])
      exact hsome (by rw [hsame.2]; exact hnone)
  | @duplicate config clock install pools htarget hpools hexists hthrows =>
    simp only [RefusedAtOnce, htarget]
    cases hns : install.threadpools with
    | nil =>
      rw [hns] at hpools
      cases hpools
      exact iff_of_true ⟨trivial, rfl⟩ hexists
    | cons n₀ ns =>
      rw [hns] at hpools
      obtain ⟨haccepts, hnone, hsome⟩ := PoolManager.forM_createPool_cons hpools
      refine iff_of_false (fun hsame => ?_) (by simp [haccepts])
      exact hsome (by rw [hsame.2]; exact hnone)
  | @inside config clock install pools before after k m s htarget hpools hnew hsteps hbefore hthrows =>
    simp only [RefusedAtOnce, htarget]
    refine iff_of_false (fun hsame => ?_) ?_
    · have hfound : (w.configMap.assign config.id s.composition).find? config.id = some s.composition := by
        rw [OrdMap.find?_assign, if_pos rfl]
      rw [hsame.1, hnew] at hfound
      cases hfound
    · cases hns : install.threadpools with
      | nil => simp [hnew]
      | cons n₀ ns =>
        rw [hns] at hpools
        simp [(PoolManager.forM_createPool_cons hpools).1]

/-- A factory with one class, whose objects have an output gate and never throw. -/
def sourceFactory : BlockFactory Unit where
  registered type :=
    if type = "Source" then
      some
        { settles := id, inputGates := [], outputGates := ["out"], construct := fun _ => .ok (), configure := fun _ _ => .ok () }
    else none
  initializeBlock _ := .ok ()

/-- A document with a thread pool, a block for it and a block of a type that is not registered. -/
def unknownBlock : Document Unit where
  composition := some
    { id := "c", appId := "app", general := some ⟨some ⟨some "wall"⟩⟩
      install := some
        { threadpools := [⟨"p", 1, []⟩]
          blocks := [⟨"src", "Source", "p", "", "indirect", ()⟩, ⟨"dst", "Printer", "", "", "", ()⟩]
          connections := [⟨"src", "out", "dst", "in"⟩] } }

/-- The pool, the composition and the task of its first block are left behind. -/
theorem run_unknownBlock : ∃ w', (addConfigFromFile sourceFactory (.ok unknownBlock)).run (Process.new : Process Unit) =
      .error "Printer: block type not supported" w' ∧
    (w'.runtime.pools.map.find? "p").map (·.queue) = some [0] ∧ (w'.configMap.find? "c").isSome = true := by
  have hcheck : (match (addConfigFromFile sourceFactory (.ok unknownBlock)).run (Process.new : Process Unit) with
      | .ok _ _ => false
      | .error e w' => decide (e = "Printer: block type not supported") &&
          decide ((w'.runtime.pools.map.find? "p").map (·.queue) = some [0]) && (w'.configMap.find? "c").isSome) = true := by
    decide +kernel
  cases hrun : (addConfigFromFile sourceFactory (.ok unknownBlock)).run (Process.new : Process Unit) with
  | ok _ w' =>
    rw [hrun] at hcheck
    cases hcheck
  | error e w' =>
    simp only [hrun, Bool.and_eq_true, decide_eq_true_eq] at hcheck
    obtain ⟨⟨rfl, hpool⟩, hcomp⟩ := hcheck
    exact ⟨w', rfl, hpool, hcomp⟩

end CompositionManager

end Blockmon
