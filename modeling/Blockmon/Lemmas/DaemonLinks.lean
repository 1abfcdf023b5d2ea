import Blockmon.Lemmas.DaemonPool

/-!
# What the daemon's methods do to the links

The gates of a block are in what a block is but for its invocation (`shape`). The calls on the pools and `update_block` leave this and
the links alone; `delete_block` takes a block out of the map. `create_connection` and
`delete_connection` write both halves of a link between two gates.
-/

namespace Blockmon

open Exn HalfEdges

variable {π T α : Type}

deriving instance DecidableEq for ConnectionNode

/-! ## The gates of the blocks of a process -/

namespace Process

/-- The block of a composition. -/
def block? (w : Process T) (c n : String) : Option Block := (w.configMap.find? c).bind fun m => m.map.find? n

theorem getBlock_eq_ok {w : Process T} {c n : String} {b : Block} : w.getBlock c n = .ok b ↔ w.block? c n = some b := by
  unfold getBlock getComposition block? Composition.getBlock
  cases w.configMap.find? c with
  | none => simp [bind, Except.bind]
  | some m => cases hb : m.map.find? n <;> simp [bind, Except.bind, hb]

/-- The block of a composition but for its invocation. -/
def shape (w : Process T) (c n : String) : Option Block := (w.block? c n).map fun b => { b with invocation := .Direct }

theorem shape_eq_some {w : Process T} {c n : String} {b : Block} :
    w.shape c n = some b ↔ ∃ b', w.block? c n = some b' ∧ b = { b' with invocation := .Direct } := by
  unfold shape
  rw [Option.map_eq_some_iff]
  simp only [eq_comm]

theorem block?_of_getBlock_error {w : Process T} {c n e : String} (h : w.getBlock c n = .error e) : w.block? c n = none := by
  by_contra hne
  obtain ⟨b, hb⟩ := Option.ne_none_iff_exists'.mp hne
  rw [getBlock_eq_ok.mpr hb] at h
  cases h

theorem getOutputGate_eq_ok {w : Process T} {c n g : String} {x : GateRef} :
    w.getOutputGate c n g = .ok x ↔ ∃ b id, w.shape c n = some b ∧ b.outputIds.find? g = some id ∧ x = ⟨b.addr, id⟩ := by
  unfold getOutputGate shape
  cases hb : w.getBlock c n with
  | error e => simp [bind, Except.bind, block?_of_getBlock_error hb]
  | ok b =>
    rw [getBlock_eq_ok.mp hb]
    simp only [bind, Except.bind, Block.getOutputGate, Option.map_some]
    cases hid : b.outputIds.find? g with
    | none => simp [hid]
    | some id => simp [hid, eq_comm]

theorem getInputGate_eq_ok {w : Process T} {c n g : String} {y : GateRef} :
    w.getInputGate c n g = .ok y ↔ ∃ b id, w.shape c n = some b ∧ b.inputIds.find? g = some id ∧ y = ⟨b.addr, id⟩ := by
  unfold getInputGate shape
  cases hb : w.getBlock c n with
  | error e => simp [bind, Except.bind, block?_of_getBlock_error hb]
  | ok b =>
    rw [getBlock_eq_ok.mp hb]
    simp only [bind, Except.bind, Block.getInputGate, Option.map_some]
    cases hid : b.inputIds.find? g with
    | none => simp [hid]
    | some id => simp [hid, eq_comm]

/-- The gates and their links are as before, and so are the blocks that workers have taken; only blocks in `gone` may have
disappeared. -/
structure Without (gone : String → String → Prop) (w w' : Process T) : Prop where
  gates : w'.runtime.gates = w.runtime.gates
  running : w'.runtime.running = w.runtime.running
  blocks : ∀ c n, w'.shape c n = w.shape c n ∨ (gone c n ∧ w'.shape c n = none)

variable {gone : String → String → Prop}

instance : Std.Refl (Without (T := T) gone) := ⟨fun _ => ⟨rfl, rfl, fun _ _ => Or.inl rfl⟩⟩

instance : IsTrans (Process T) (Without gone) where
  trans _ _ _ h h' := by
    refine ⟨h'.gates.trans h.gates, h'.running.trans h.running, fun c n => ?_⟩
    rcases h'.blocks c n with h' | h'
    · rcases h.blocks c n with h | ⟨hg, h⟩
      · exact Or.inl (h'.trans h)
      · exact Or.inr ⟨hg, h'.trans h⟩
    · exact Or.inr h'

/-- The blocks are those of the compositions. -/
theorem shape_congr {w w' : Process T} (h : w'.configMap = w.configMap) (c n : String) : w'.shape c n = w.shape c n := by
  unfold shape block?
  rw [h]

theorem Without.of_configMap {w w' : Process T} (h : w'.configMap = w.configMap) (hg : w'.runtime.gates = w.runtime.gates)
    (hr : w'.runtime.running = w.runtime.running) : Without gone w w' :=
  ⟨hg, hr, fun c n => Or.inl (shape_congr h c n)⟩

/-- What a call on a composition leaves of the blocks. -/
theorem block?_onComposition {c : String} {m : Composition} {w : Process T} (hm : w.configMap.find? c = some m)
    (call : EStateM String (Site T) α) (c' n : String) :
    (leaves ((onComposition c call).run w)).block? c' n =
      if c' = c then (leaves (call.run ⟨m, w.runtime⟩)).composition.map.find? n else w.block? c' n := by
  simp only [onComposition, EStateM.run, hm]
  cases call ⟨m, w.runtime⟩ with
  | ok a s | error e s =>
    simp only [leaves, block?, OrdMap.find?_assign]
    split <;> rfl

theorem runtime_onComposition {c : String} {m : Composition} {w : Process T} (hm : w.configMap.find? c = some m)
    (call : EStateM String (Site T) α) :
    (leaves ((onComposition c call).run w)).runtime = (leaves (call.run ⟨m, w.runtime⟩)).runtime := by
  simp only [onComposition, EStateM.run, hm]
  cases call ⟨m, w.runtime⟩ <;> rfl

theorem leaves_onComposition_of_none {c : String} {w : Process T} (hm : w.configMap.find? c = none)
    (call : EStateM String (Site T) α) : leaves ((onComposition c call).run w) = w := by
  simp only [onComposition, EStateM.run, hm]
  rfl

/-- The process with other links. -/
def withPeers (w : Process T) (a : Adj GateRef) : Process T :=
  { w with runtime := { w.runtime with gates := { w.runtime.gates with peers := a } } }

@[simp] theorem shape_withPeers (w : Process T) (a : Adj GateRef) (c n : String) : (w.withPeers a).shape c n = w.shape c n := rfl

/-- The gates that the names of a link stand for. -/
def ends (w : Process T) (c : String) (l : ConnectionNode) : Option (GateRef × GateRef) :=
  match w.getOutputGate c l.srcBlock l.srcGate, w.getInputGate c l.dstBlock l.dstGate with
  | .ok x, .ok y => some (x, y)
  | _, _ => none

theorem ends_eq_some {w : Process T} {c : String} {l : ConnectionNode} {x y : GateRef} : w.ends c l = some (x, y) ↔
    w.getOutputGate c l.srcBlock l.srcGate = .ok x ∧ w.getInputGate c l.dstBlock l.dstGate = .ok y := by
  unfold ends
  cases w.getOutputGate c l.srcBlock l.srcGate with
  | error e => simp
  | ok x' => cases w.getInputGate c l.dstBlock l.dstGate <;> simp

/-- The ends of a link depend on the two blocks only. -/
theorem ends_congr {w w' : Process T} {c : String} {l : ConnectionNode} (hsrc : w'.shape c l.srcBlock = w.shape c l.srcBlock)
    (hdst : w'.shape c l.dstBlock = w.shape c l.dstBlock) : w'.ends c l = w.ends c l := by
  ext ⟨x, y⟩
  rw [ends_eq_some, ends_eq_some, getOutputGate_eq_ok, getOutputGate_eq_ok, getInputGate_eq_ok, getInputGate_eq_ok, hsrc, hdst]

end Process

/-- The schedulers change neither the compositions nor the links. -/
theorem Process.schedule_kept {w w' : Process T} {act : SchedulerAct} (h : w.schedule act = some w') :
    w'.configMap = w.configMap ∧ w'.runtime.gates = w.runtime.gates := by
  cases act with
  | startSchedulers | stopSchedulers | worker =>
    simp only [schedule, Option.map_eq_some_iff] at h
    obtain ⟨pools, -, rfl⟩ := h
    exact ⟨rfl, rfl⟩

/-! ## The functions of the backend that leave the links alone -/

/-- The compositions and the links are as before, there are no new objects, and no worker has taken a block. -/
structure ConfigKept (w w' : Process T) : Prop where
  configMap : w'.configMap = w.configMap
  gates : w'.runtime.gates = w.runtime.gates
  nextAddr : w'.runtime.nextAddr = w.runtime.nextAddr
  running : w'.runtime.running = w.runtime.running

instance : Std.Refl (ConfigKept (T := T)) := ⟨fun _ => ⟨rfl, rfl, rfl, rfl⟩⟩

instance : IsTrans (Process T) ConfigKept where
  trans _ _ _ h h' :=
    ⟨h'.configMap.trans h.configMap, h'.gates.trans h.gates, h'.nextAddr.trans h.nextAddr, h'.running.trans h.running⟩

namespace Backend

theorem onPools_kept (call : EStateM String (PoolManager Nat) Unit) :
    Keeps ConfigKept (Process.onRuntime (T := T) (Runtime.onPools call)) :=
  keeps_onPart (Q := fun r r' : Runtime T => r'.gates = r.gates ∧ r'.nextAddr = r.nextAddr ∧ r'.running = r.running)
    (keeps_onPart (Q := fun _ _ => True) (fun _ => trivial) fun _ _ _ => ⟨rfl, rfl, rfl⟩) fun _ _ h => ⟨rfl, h.1, h.2.1, h.2.2⟩

theorem addBlockToThreadPool_kept (c n pool : String) : Keeps (ConfigKept (T := T)) (addBlockToThreadPool c n pool) :=
  keeps_bind keeps_get fun _ => keeps_bind (keeps_ofExcept _) fun _ => onPools_kept _

theorem removeBlockFromThreadPool_kept (c n pool : String) : Keeps (ConfigKept (T := T)) (removeBlockFromThreadPool c n pool) :=
  keeps_bind keeps_get fun _ => keeps_bind (keeps_ofExcept _) fun _ => onPools_kept _

variable {gone : String → String → Prop}

/-- A call on a composition that leaves the gates as they are, and the shapes of the blocks. -/
theorem onComposition_without {c : String} {m : Composition} {w : Process T} (hm : w.configMap.find? c = some m) {call : EStateM String (Site T) α}
    (hgates : (leaves (call.run ⟨m, w.runtime⟩)).runtime.gates = w.runtime.gates)
    (hrunning : (leaves (call.run ⟨m, w.runtime⟩)).runtime.running = w.runtime.running)
    (hshape : ∀ n, ((leaves (call.run ⟨m, w.runtime⟩)).composition.map.find? n).map (fun b => { b with invocation := .Direct }) =
      (m.map.find? n).map fun b => { b with invocation := .Direct }) :
    Process.Without gone w (leaves ((Process.onComposition c call).run w)) := by
  have hruntime := Process.runtime_onComposition hm call
  refine ⟨(congrArg Runtime.gates hruntime).trans hgates, (congrArg Runtime.running hruntime).trans hrunning, fun c' n => Or.inl ?_⟩
  unfold Process.shape
  rw [Process.block?_onComposition hm]
  by_cases hc : c' = c
  · rw [if_pos hc, hshape, Process.block?, hc, hm]
    rfl
  · rw [if_neg hc]

theorem deleteBlock_without {c n : String} (hgone : gone c n) : Keeps (Process.Without (T := T) gone) (deleteBlock c n) := by
  intro w
  unfold deleteBlock
  cases hm : w.configMap.find? c with
  | none =>
    rw [Process.leaves_onComposition_of_none hm]
    exact refl_of (Process.Without gone) w
  | some m =>
    have hleaves : leaves ((Composition.deleteBlock (T := T) n).run ⟨m, w.runtime⟩) =
        if (m.map.find? n).isNone then ⟨m, w.runtime⟩ else ⟨{ m with map := m.map.erase n }, w.runtime⟩ := by
      simp only [Composition.deleteBlock, EStateM.run_bind, EStateM.run_get]
      split <;> rfl
    have hfind : ∀ n', (leaves ((Composition.deleteBlock (T := T) n).run ⟨m, w.runtime⟩)).composition.map.find? n' =
        if n' = n then none else m.map.find? n' := by
      intro n'
      rw [hleaves]
      split
      · rename_i hnone
        split
        · rename_i hn
          rw [hn]
          exact Option.isNone_iff_eq_none.mp hnone
        · rfl
      · exact OrdMap.find?_erase m.map n n'
    refine ⟨?_, ?_, fun c' n' => ?_⟩
    · rw [Process.runtime_onComposition hm, hleaves]
      split <;> rfl
    · rw [Process.runtime_onComposition hm, hleaves]
      split <;> rfl
    · unfold Process.shape
      rw [Process.block?_onComposition hm, hfind]
      by_cases hc : c' = c
      · rw [if_pos hc]
        by_cases hn : n' = n
        · rw [if_pos hn, hc, hn]
          exact Or.inr ⟨hgone, rfl⟩
        · rw [if_neg hn, Process.block?, hc, hm]
          exact Or.inl rfl
      · rw [if_neg hc]
        exact Or.inl rfl

/-- Changing the invocation of a block. -/
theorem putBlock_without (gone : String → String → Prop) {c n : String} {b : Block} {w : Process T} (hb : w.block? c n = some b)
    (inv : InvocationType) :
    Process.Without gone w (Daemon.putBlock c n { b with invocation := inv } w) := by
  obtain ⟨m, hm, hb⟩ := Option.bind_eq_some_iff.mp hb
  unfold Daemon.putBlock
  refine onComposition_without hm rfl rfl fun n' => ?_
  simp only [EStateM.run_modify, leaves, OrdMap.find?_assign]
  by_cases hn : n' = n
  · rw [if_pos hn, hn, hb]
    rfl
  · rw [if_neg hn]

theorem updateBlock_without (library : BlockLibrary π) (c n : String) (inv : InvocationType) (params : ConfigText π) :
    Keeps (Process.Without (T := T) gone) (updateBlock library c n inv params) := by
  intro w
  cases params with
  | malformed | block | other => exact refl_of (Process.Without gone) w
  | params node =>
    rw [Daemon.run_backendUpdate]
    cases hb : w.getBlock c n with
    | error e => exact refl_of (Process.Without gone) w
    | ok b =>
      have hput := putBlock_without gone (Process.getBlock_eq_ok.mp hb) inv
      dsimp only
      split
      · exact refl_of (Process.Without gone) w
      · cases library.updateConfig { b with invocation := inv } node <;> exact hput

/-- `create_block` finds no block in parameters. -/
theorem createBlock_params_without (library : BlockLibrary π) (c n type : String) (inv : InvocationType) (node : π) :
    Keeps (Process.Without (T := T) gone) (createBlock library c n type inv (.params node)) := by
  intro w
  unfold createBlock
  cases hm : w.configMap.find? c with
  | none =>
    rw [Process.leaves_onComposition_of_none hm]
    exact refl_of (Process.Without gone) w
  | some m => exact onComposition_without hm rfl rfl fun _ => rfl

end Backend

/-! ## The functions of the backend that write links -/

namespace Backend

theorem run_createConnection (c : String) (l : ConnectionNode) (w : Process T) :
    (createConnection c l.srcBlock l.srcGate c l.dstBlock l.dstGate).run w =
      match w.getOutputGate c l.srcBlock l.srcGate, w.getInputGate c l.dstBlock l.dstGate with
      | .error e, _ => .error e w
      | .ok _, .error e => .error e w
      | .ok x, .ok y => .ok () (w.withPeers ((w.runtime.gates.peers.link .right x y).link .left y x)) := by
  unfold createConnection
  simp only [EStateM.run_bind, EStateM.run_get, run_ofExcept]
  cases w.getOutputGate c l.srcBlock l.srcGate with
  | error e => rfl
  | ok x =>
    dsimp only
    cases w.getInputGate c l.dstBlock l.dstGate <;> rfl

/-- The half in the output gate is removed first. -/
theorem run_deleteConnection (c : String) (l : ConnectionNode) (w : Process T) :
    (deleteConnection c l.srcBlock l.srcGate c l.dstBlock l.dstGate).run w =
      match w.getOutputGate c l.srcBlock l.srcGate, w.getInputGate c l.dstBlock l.dstGate with
      | .error e, _ => .error e w
      | .ok _, .error e => .error e w
      | .ok x, .ok y =>
        if y ∈ w.runtime.gates.peers .right x then
          if x ∈ (w.runtime.gates.peers.unlink .right x y) .left y then
            .ok () (w.withPeers ((w.runtime.gates.peers.unlink .right x y).unlink .left y x))
          else .error "trying to disconect a non-connected gate" (w.withPeers (w.runtime.gates.peers.unlink .right x y))
        else .error "trying to disconect a non-connected gate" w := by
  unfold deleteConnection
  simp only [EStateM.run_bind, EStateM.run_get, run_ofExcept]
  cases w.getOutputGate c l.srcBlock l.srcGate with
  | error e => rfl
  | ok x =>
    dsimp only
    cases w.getInputGate c l.dstBlock l.dstGate with
    | error e => rfl
    | ok y =>
      simp only [Process.onRuntime, Runtime.onGates, OutGate.disconnect, InGate.disconnect, run_onPart, Gates.run_disconnect]
      by_cases hy : y ∈ w.runtime.gates.peers .right x
      · simp only [if_pos hy]
        by_cases hx : x ∈ (w.runtime.gates.peers.unlink .right x y) .left y
        · simp only [if_pos hx]
          rfl
        · simp only [if_neg hx]
          rfl
      · simp only [if_neg hy]

end Backend

/-! ## The methods of `Block` -/

namespace Daemon

/-- The records are filed under their names, belong to the composition, and the one under `name` has the given parameters. -/
structure Filed (c name : String) (params : ConfigText π) (d : Daemon π T) : Prop where
  compId : d.compId = c
  named : ∀ key b, d.blocks.find? key = some b → b.name = key ∧ b.compId = c
  params : ∀ b, d.blocks.find? name = some b → b.params = params

/-- The records stay filed, none disappears, and the links are as before but for the blocks in `gone`. -/
def Follows (gone : String → String → Prop) (c name : String) (params : ConfigText π) (d d' : Daemon π T) : Prop :=
  Filed c name params d →
    Filed c name params d' ∧ d.process.Without gone d'.process ∧
      ∀ key, (d.blocks.find? key).isSome = true → (d'.blocks.find? key).isSome = true

section Follows

variable {gone : String → String → Prop} {c name : String} {params : ConfigText π}

instance : Std.Refl (Follows (T := T) gone c name params) := ⟨fun d h => ⟨h, refl_of (Process.Without gone) d.process, fun _ hk => hk⟩⟩

instance : IsTrans (Daemon π T) (Follows gone c name params) where
  trans _ _ _ h h' hfiled := by
    obtain ⟨hfiled, hwithout, hgrows⟩ := h hfiled
    obtain ⟨hfiled', hwithout', hgrows'⟩ := h' hfiled
    exact ⟨hfiled', trans_of (Process.Without gone) hwithout hwithout', fun key hk => hgrows' key (hgrows key hk)⟩

theorem onBackend_follows {call : EStateM String (Process T) α} (h : Keeps (Process.Without gone) call) :
    Keeps (Follows gone c name params) (onBackend call) :=
  keeps_onPart h fun _ _ hw hfiled => ⟨⟨hfiled.compId, hfiled.named, hfiled.params⟩, hw, fun _ hk => hk⟩

/-- A change of the pools of the daemon. -/
theorem modify_follows {f : Daemon π T → Daemon π T} (hcomp : ∀ d, (f d).compId = d.compId) (hblocks : ∀ d, (f d).blocks = d.blocks)
    (hprocess : ∀ d, (f d).process = d.process) : Keeps (Follows gone c name params) (modify f : EStateM String (Daemon π T) PUnit) := by
  refine keeps_modify fun d hfiled => ⟨⟨(hcomp d).trans hfiled.compId, ?_, ?_⟩, ?_, ?_⟩
  · rw [hblocks]
    exact hfiled.named
  · rw [hblocks]
    exact hfiled.params
  · rw [hprocess]
    exact refl_of (Process.Without gone) d.process
  · rw [hblocks]
    exact fun _ hk => hk

theorem setBlock_follows {b : DaemonBlock π} (hcomp : b.compId = c) (hparams : b.name = name → b.params = params) :
    Keeps (Follows (T := T) gone c name params) (setBlock b) := by
  refine keeps_modify fun d hfiled => ⟨⟨hfiled.compId, fun key b' hb' => ?_, fun b' hb' => ?_⟩, refl_of (Process.Without gone) d.process,
    fun key hk => ?_⟩
  · rw [OrdMap.find?_assign] at hb'
    split at hb'
    · cases hb'
      rename_i hkey
      exact ⟨hkey.symm, hcomp⟩
    · exact hfiled.named key b' hb'
  · rw [OrdMap.find?_assign] at hb'
    split at hb'
    · cases hb'
      rename_i hkey
      exact hparams hkey.symm
    · exact hfiled.params b' hb'
  · rw [OrdMap.find?_assign]
    split
    · rfl
    · exact hk

theorem getBlock_follows {n : String} {f : DaemonBlock π → EStateM String (Daemon π T) α}
    (hf : ∀ b, b.name = n → b.compId = c → (n = name → b.params = params) → Keeps (Follows gone c name params) (f b)) :
    Keeps (Follows gone c name params) (getBlock n >>= f) := by
  intro d hfiled
  cases hb : d.blocks.find? n with
  | none =>
    have hthrows : (getBlock n).run d = .error n d := by
      unfold getBlock
      simp only [EStateM.run_bind, EStateM.run_get, hb]
      rfl
    rw [EStateM.run_bind, hthrows]
    exact refl_of (Follows gone c name params) d hfiled
  | some b =>
    rw [EStateM.run_bind, run_getBlock hb]
    obtain ⟨hname, hcomp⟩ := hfiled.named n b hb
    exact hf b hname hcomp (fun hn => hfiled.params b (hn ▸ hb)) d hfiled

theorem onTpool_follows {tpool : Option String} {method : String} {call : String → EStateM String (Daemon π T) Unit}
    (h : ∀ pool, Keeps (Follows gone c name params) (call pool)) : Keeps (Follows gone c name params) (onTpool tpool method call) := by
  cases tpool with
  | none => exact keeps_throw _
  | some pool => exact h pool

theorem ConfigKept.without {w w' : Process T} (h : ConfigKept w w') : w.Without gone w' :=
  Process.Without.of_configMap h.configMap h.gates h.running

theorem poolAddBlock_follows (pool c' n : String) : Keeps (Follows (T := T) gone c name params) (poolAddBlock pool c' n) := by
  refine keeps_bind (modify_follows (fun _ => rfl) (fun _ => rfl) fun _ => rfl) fun _ => keeps_bind (onBackend_follows fun w => ?_) fun _ =>
    modify_follows (fun _ => rfl) (fun _ => rfl) fun _ => rfl
  exact ConfigKept.without (Backend.addBlockToThreadPool_kept c' n pool w)

theorem poolRemoveBlock_follows (pool c' n : String) : Keeps (Follows (T := T) gone c name params) (poolRemoveBlock pool c' n) := by
  refine keeps_bind keeps_get fun _ => keeps_check ?_
  refine keeps_bind (modify_follows (fun _ => rfl) (fun _ => rfl) fun _ => rfl) fun _ => keeps_bind (onBackend_follows fun w => ?_) fun _ =>
    modify_follows (fun _ => rfl) (fun _ => rfl) fun _ => rfl
  exact ConfigKept.without (Backend.removeBlockFromThreadPool_kept c' n pool w)

theorem changePool_follows {self : DaemonBlock π} (tpool : Option String) (hcomp : self.compId = c)
    (hparams : self.name = name → self.params = params) : Keeps (Follows (T := T) gone c name params) (changePool self tpool) :=
  keeps_bind (onTpool_follows fun _ => poolAddBlock_follows _ _ _) fun _ =>
    keeps_bind (setBlock_follows hcomp hparams) fun _ => onTpool_follows fun _ => poolRemoveBlock_follows _ _ _

theorem removeBlock_follows {self : DaemonBlock π} (hgone : gone self.compId self.name) :
    Keeps (Follows (T := T) gone c name params) (removeBlock self) := by
  have hdelete : Keeps (Follows (T := T) gone c name params) (onBackend (Backend.deleteBlock self.compId self.name)) :=
    onBackend_follows (Backend.deleteBlock_without hgone)
  unfold removeBlock
  split
  · exact keeps_bind (onTpool_follows fun _ => poolRemoveBlock_follows _ _ _) fun _ => hdelete
  · exact hdelete

/-- A block that is restored with parameters only is not made. -/
theorem restoreBlock_follows {library : BlockLibrary π} {self : DaemonBlock π} {node : π} (hnode : self.params = .params node) :
    Keeps (Follows (T := T) gone c name params) (restoreBlock library self) := by
  intro d
  unfold restoreBlock
  rw [hnode]
  refine leaves_bind (P := Follows gone c name params d) ?_ ?_
  · intro u m hm
    obtain ⟨e, w, hw⟩ := run_createBlock_params library self.compId self.name self.blockType self.inv node d.process
    rw [onBackend, run_onPart, hw] at hm
    cases hm
  · intro e m hm
    exact (onBackend_follows (Backend.createBlock_params_without library _ _ _ _ node)).of_error hm

theorem reconfigure_follows {library : BlockLibrary π} {self : DaemonBlock π} {node : π} (hgone : gone c name)
    (hnode : params = .params node) : Keeps (Follows (T := T) gone c name params) (reconfigure library name self) := by
  unfold reconfigure
  refine keeps_bind (onBackend_follows (Backend.updateBlock_without library _ _ _ _)) fun answer => keeps_ite ?_ (keeps_pure _)
  refine getBlock_follows fun b hname hcomp hparams => ?_
  rw [← hname, ← hcomp] at hgone
  exact keeps_bind (removeBlock_follows hgone) fun _ => restoreBlock_follows ((hparams rfl).trans hnode)

end Follows

/-- Whether an update is refused does not depend on the invocation the block has. -/
theorem refuses_iff {library : BlockLibrary π} {w : Process T} {c n : String} {inv : InvocationType} {params : ConfigText π} :
    Refuses library w c n inv params ↔
      ∃ node b, params = .params node ∧ w.shape c n = some b ∧ b.addr ∉ w.runtime.running ∧
        library.updateConfig { b with invocation := inv } node = .ok false := by
  constructor
  · rintro ⟨node, b, hnode, hb, hrest⟩
    exact ⟨node, _, hnode, Process.shape_eq_some.mpr ⟨b, Process.getBlock_eq_ok.mp hb, rfl⟩, hrest⟩
  · rintro ⟨node, b, hnode, hb, hrest⟩
    obtain ⟨b', hb', rfl⟩ := Process.shape_eq_some.mp hb
    exact ⟨node, b', hnode, Process.getBlock_eq_ok.mpr hb', hrest⟩

/-- The block that an update may take out of the map: the one it is about, if its class refuses. -/
def Rebuilt (library : BlockLibrary π) (d : Daemon π T) (name : String) (inv : InvocationType) (node : π) (c n : String) : Prop :=
  Refuses library d.process d.compId name inv (.params node) ∧ c = d.compId ∧ n = name

/-- The rest of an update, after the record of the block is written. -/
theorem update_follows (library : BlockLibrary π) (invocation : String) (tpool : Option String) {node : π} {d : Daemon π T}
    {old : DaemonBlock π} (hcomp : old.compId = d.compId) (hfiled : Filed d.compId old.name (.params node) d) :
    Follows (Rebuilt library d old.name (Backend.toInvocType invocation) node) d.compId old.name (.params node) d
      (leaves ((if queuedInvocation invocation ∧ tpool ≠ old.tpool then do
          changePool (told old invocation (.params node)) tpool
          reconfigure library old.name (told old invocation (.params node))
        else reconfigure library old.name (told old invocation (.params node))).run d)) := by
  have hchange : Keeps (Follows (T := T) (Rebuilt library d old.name (Backend.toInvocType invocation) node) d.compId old.name
      (.params node)) (changePool (told old invocation (.params node)) tpool) := changePool_follows tpool hcomp fun _ => rfl
  by_cases href : Refuses library d.process d.compId old.name (Backend.toInvocType invocation) (.params node)
  · have hgone : Rebuilt library d old.name (Backend.toInvocType invocation) node d.compId old.name := ⟨href, rfl, rfl⟩
    split
    · exact keeps_bind hchange (fun _ => reconfigure_follows hgone rfl) d
    · exact reconfigure_follows hgone rfl d
  · -- nothing is gone, so the class refuses no later either
    have hrest : ∀ m, Follows (Rebuilt library d old.name (Backend.toInvocType invocation) node) d.compId old.name (.params node) d m →
        Follows (Rebuilt library d old.name (Backend.toInvocType invocation) node) d.compId old.name (.params node) d
          (leaves ((reconfigure library old.name (told old invocation (.params node))).run m)) := by
      intro m hm
      have hshape : m.process.shape old.compId old.name = d.process.shape d.compId old.name := by
        rcases (hm hfiled).2.1.blocks old.compId old.name with h | h
        · rw [h, hcomp]
        · exact absurd h.1.1 href
      have href' : ¬Refuses library m.process old.compId old.name (Backend.toInvocType invocation) (.params node) := by
        rw [refuses_iff, hshape, (hm hfiled).2.1.running, ← refuses_iff]
        exact href
      rw [leaves_reconfigure_of_not_refuses (told old invocation (.params node)) href']
      exact trans_of (Follows _ _ _ _) hm (onBackend_follows (Backend.updateBlock_without library _ _ _ _) m)
    split
    · refine leaves_bind (P := Follows _ d.compId old.name (.params node) d) ?_ ?_
      · intro u m hm
        exact hrest m (hchange.of_ok hm)
      · intro e m hm
        exact hchange.of_error hm
    · exact hrest d (refl_of (Follows _ _ _ _) d)

/-- What an update leaves of the records and of the links. -/
theorem leaves_updateBlock (library : BlockLibrary π) (name invocation : String) (node : π) (tpool : Option String) {d : Daemon π T}
    (hnamed : ∀ key b, d.blocks.find? key = some b → b.name = key ∧ b.compId = d.compId) :
    let d' := leaves ((updateBlock library name invocation (.params node) tpool).run d)
    d'.compId = d.compId ∧ (∀ key b, d'.blocks.find? key = some b → b.name = key ∧ b.compId = d.compId) ∧
      (∀ key, (d.blocks.find? key).isSome = true → (d'.blocks.find? key).isSome = true) ∧
      d.process.Without (Rebuilt library d name (Backend.toInvocType invocation) node) d'.process := by
  intro d'
  cases hold : d.blocks.find? name with
  | none =>
    have hthrows : (updateBlock library name invocation (.params node) tpool).run d = .error name d := by
      unfold updateBlock getBlock
      simp only [EStateM.run_bind, EStateM.run_get, hold]
      rfl
    have hd' : d' = d := congrArg leaves hthrows
    rw [hd']
    exact ⟨rfl, hnamed, fun _ hk => hk, refl_of (Process.Without _) d.process⟩
  | some old =>
    obtain ⟨rfl, hcomp⟩ := hnamed name old hold
    obtain ⟨d₁, hpools, hprocess, hblocks, hrun⟩ := run_updateBlock library invocation (.params node) tpool hold
    have hfiled : Filed d.compId old.name (.params node) d₁ := by
      refine ⟨hpools.compId, fun key b hb => ?_, fun b hb => ?_⟩
      · rw [hblocks, OrdMap.find?_assign] at hb
        split at hb
        · cases hb
          rename_i hkey
          exact ⟨hkey.symm, hcomp⟩
        · exact hnamed key b hb
      · rw [hblocks, OrdMap.find?_assign, if_pos rfl] at hb
        cases hb
        rfl
    have hgrows : ∀ key, (d.blocks.find? key).isSome = true → (d₁.blocks.find? key).isSome = true := by
      intro key hk
      rw [hblocks, OrdMap.find?_assign]
      split
      · rfl
      · exact hk
    have hfollows := update_follows library invocation tpool (hcomp.trans hpools.compId.symm) (hpools.compId.symm ▸ hfiled)
    have hd' : d' = _ := congrArg leaves hrun
    rw [← hd', hpools.compId] at hfollows
    obtain ⟨hfiled', hwithout, hgrows'⟩ := hfollows hfiled
    unfold Rebuilt at hwithout
    rw [hprocess, hpools.compId] at hwithout
    exact ⟨hfiled'.compId, hfiled'.named, fun key hk => hgrows' key (hgrows key hk), hwithout⟩

/-! ## Connecting and disconnecting -/

/-- A call on two blocks of the daemon, which both have to be known. -/
theorem run_onBlocks (b1 b2 : String) (f : DaemonBlock π → DaemonBlock π → EStateM String (Daemon π T) Unit) (d : Daemon π T) :
    (do let src ← getBlock b1; let dst ← getBlock b2; f src dst).run d =
      match d.blocks.find? b1, d.blocks.find? b2 with
      | some src, some dst => (f src dst).run d
      | some _, none => .error b2 d
      | none, _ => .error b1 d := by
  unfold getBlock
  cases hsrc : d.blocks.find? b1 with
  | none =>
    simp only [EStateM.run_bind, EStateM.run_get, hsrc]
    rfl
  | some src =>
    cases hdst : d.blocks.find? b2 with
    | none =>
      simp only [EStateM.run_bind, EStateM.run_get, hsrc, EStateM.run_pure, hdst]
      rfl
    | some dst => simp only [EStateM.run_bind, EStateM.run_get, hsrc, EStateM.run_pure, hdst]

/-- The records that `connect_blocks` writes when the gates are linked. -/
def recordConnection (l : ConnectionNode) (src dst : DaemonBlock π) : EStateM String (Daemon π T) Unit := do
  setBlock (addConnection src l.srcGate dst l.dstGate .right)
  setBlock (addConnection (← getBlock l.dstBlock) l.dstGate src l.srcGate .left)

/-- The records that `disconnect_blocks` changes when the gates are not linked any more. -/
def recordDisconnection (l : ConnectionNode) (src dst : DaemonBlock π) : EStateM String (Daemon π T) Unit := do
  setBlock (← ofExcept (removeConnection src l.srcGate dst l.dstGate))
  setBlock (← ofExcept (removeConnection (← getBlock l.dstBlock) l.dstGate src l.srcGate))

/-- A connection is made in the process and noted at both blocks. -/
theorem run_connectBlocks (l : ConnectionNode) (d : Daemon π T) :
    (connectBlocks l.srcBlock l.srcGate l.dstBlock l.dstGate).run d =
      match d.blocks.find? l.srcBlock, d.blocks.find? l.dstBlock with
      | some src, some dst =>
        (do
          onBackend (Backend.createConnection src.compId src.name l.srcGate dst.compId dst.name l.dstGate)
          recordConnection l src dst).run d
      | some _, none => .error l.dstBlock d
      | none, _ => .error l.srcBlock d :=
  run_onBlocks _ _ _ d

/-- A connection is removed in the process and from both blocks. -/
theorem run_disconnectBlocks (l : ConnectionNode) (d : Daemon π T) :
    (disconnectBlocks l.srcBlock l.srcGate l.dstBlock l.dstGate).run d =
      match d.blocks.find? l.srcBlock, d.blocks.find? l.dstBlock with
      | some src, some dst =>
        (do
          onBackend (Backend.deleteConnection src.compId src.name l.srcGate dst.compId dst.name l.dstGate)
          recordDisconnection l src dst).run d
      | some _, none => .error l.dstBlock d
      | none, _ => .error l.srcBlock d :=
  run_onBlocks _ _ _ d

/-- `connect_blocks` raises and changes nothing, or it links the two gates and goes on to the records. -/
theorem connectBlocks_cases (l : ConnectionNode) {d : Daemon π T}
    (hnamed : ∀ key b, d.blocks.find? key = some b → b.name = key ∧ b.compId = d.compId) :
    (∃ e, (connectBlocks l.srcBlock l.srcGate l.dstBlock l.dstGate).run d = .error e d) ∨
      ∃ src dst x y, d.blocks.find? l.srcBlock = some src ∧ d.blocks.find? l.dstBlock = some dst ∧
        d.process.ends d.compId l = some (x, y) ∧
        (connectBlocks l.srcBlock l.srcGate l.dstBlock l.dstGate).run d =
          (recordConnection l src dst).run
            { d with process := d.process.withPeers ((d.process.runtime.gates.peers.link .right x y).link .left y x) } := by
  rw [run_connectBlocks]
  cases hsrc : d.blocks.find? l.srcBlock with
  | none => exact Or.inl ⟨_, rfl⟩
  | some src =>
    cases hdst : d.blocks.find? l.dstBlock with
    | none => exact Or.inl ⟨_, rfl⟩
    | some dst =>
      obtain ⟨hsname, hscomp⟩ := hnamed _ src hsrc
      obtain ⟨hdname, hdcomp⟩ := hnamed _ dst hdst
      dsimp only
      rw [EStateM.run_bind, onBackend, run_onPart, hscomp, hdcomp, hsname, hdname, Backend.run_createConnection]
      cases hx : d.process.getOutputGate d.compId l.srcBlock l.srcGate with
      | error e => exact Or.inl ⟨e, rfl⟩
      | ok x =>
        cases hy : d.process.getInputGate d.compId l.dstBlock l.dstGate with
        | error e => exact Or.inl ⟨e, rfl⟩
        | ok y => exact Or.inr ⟨src, dst, x, y, rfl, rfl, Process.ends_eq_some.mpr ⟨hx, hy⟩, rfl⟩

/-- `disconnect_blocks` raises and changes nothing, or it unlinks the two gates, if both held the link, and goes on to the records. It
does not raise first if the blocks are recorded, the gates are there and one holds the link. -/
theorem disconnectBlocks_cases (l : ConnectionNode) {d : Daemon π T}
    (hnamed : ∀ key b, d.blocks.find? key = some b → b.name = key ∧ b.compId = d.compId)
    (hboth : ∀ x y, y ∈ d.process.runtime.gates.peers .right x → x ∈ d.process.runtime.gates.peers .left y) :
    ((∃ e, (disconnectBlocks l.srcBlock l.srcGate l.dstBlock l.dstGate).run d = .error e d) ∧
        ∀ x y, (d.blocks.find? l.srcBlock).isSome = true → (d.blocks.find? l.dstBlock).isSome = true →
          d.process.ends d.compId l = some (x, y) → y ∉ d.process.runtime.gates.peers .right x) ∨
      ∃ src dst x y, d.blocks.find? l.srcBlock = some src ∧ d.process.ends d.compId l = some (x, y) ∧
        y ∈ d.process.runtime.gates.peers .right x ∧
        (disconnectBlocks l.srcBlock l.srcGate l.dstBlock l.dstGate).run d =
          (recordDisconnection l src dst).run
            { d with process := d.process.withPeers ((d.process.runtime.gates.peers.unlink .right x y).unlink .left y x) } := by
  rw [run_disconnectBlocks]
  cases hsrc : d.blocks.find? l.srcBlock with
  | none => exact Or.inl ⟨⟨_, rfl⟩, fun _ _ hs => by cases hs⟩
  | some src =>
    cases hdst : d.blocks.find? l.dstBlock with
    | none => exact Or.inl ⟨⟨_, rfl⟩, fun _ _ _ hd => by cases hd⟩
    | some dst =>
      obtain ⟨hsname, hscomp⟩ := hnamed _ src hsrc
      obtain ⟨hdname, hdcomp⟩ := hnamed _ dst hdst
      dsimp only
      rw [EStateM.run_bind, onBackend, run_onPart, hscomp, hdcomp, hsname, hdname, Backend.run_deleteConnection]
      cases hx : d.process.getOutputGate d.compId l.srcBlock l.srcGate with
      | error e =>
        refine Or.inl ⟨⟨e, rfl⟩, fun x y _ _ hends => ?_⟩
        rw [(Process.ends_eq_some.mp hends).1] at hx
        cases hx
      | ok x =>
        cases hy : d.process.getInputGate d.compId l.dstBlock l.dstGate with
        | error e =>
          refine Or.inl ⟨⟨e, rfl⟩, fun x y _ _ hends => ?_⟩
          rw [(Process.ends_eq_some.mp hends).2] at hy
          cases hy
        | ok y =>
          have hends : d.process.ends d.compId l = some (x, y) := Process.ends_eq_some.mpr ⟨hx, hy⟩
          dsimp only
          by_cases hmem : y ∈ d.process.runtime.gates.peers .right x
          · have hother : x ∈ (d.process.runtime.gates.peers.unlink .right x y) .left y := by
              rw [Adj.unlink, Adj.set_of_ne (Or.inl (by decide))]
              exact hboth x y hmem
            rw [if_pos hmem, if_pos hother]
            exact Or.inr ⟨src, dst, x, y, rfl, hends, hmem, rfl⟩
          · rw [if_neg hmem]
            refine Or.inl ⟨⟨_, rfl⟩, fun x' y' _ _ hends' => ?_⟩
            obtain ⟨rfl, rfl⟩ := Prod.mk.inj (Option.some.inj (hends.symm.trans hends'))
            exact hmem

section Records

variable {c : String} {gone : String → String → Prop} {l : ConnectionNode} {src dst : DaemonBlock π}

/-- A connection that is added leaves the name, the composition and the parameters. -/
theorem addConnection_spec (b other : DaemonBlock π) (mygate othergate : String) (direction : Side) :
    (addConnection b mygate other othergate direction).name = b.name ∧
      (addConnection b mygate other othergate direction).compId = b.compId ∧
      (addConnection b mygate other othergate direction).params = b.params := by
  cases direction <;> exact ⟨rfl, rfl, rfl⟩

/-- A connection that is removed leaves the name, the composition and the parameters. -/
theorem removeConnection_spec {b other b' : DaemonBlock π} {mygate othergate : String}
    (h : removeConnection b mygate other othergate = .ok b') : b'.name = b.name ∧ b'.compId = b.compId ∧ b'.params = b.params := by
  unfold removeConnection at h
  split at h
  · cases hg : removeGate b.ingates mygate other.compId other.name othergate with
    | error e =>
      rw [hg] at h
      cases h
    | ok gates =>
      rw [hg] at h
      cases h
      exact ⟨rfl, rfl, rfl⟩
  · cases hg : removeGate b.outgates mygate other.compId other.name othergate with
    | error e =>
      rw [hg] at h
      cases h
    | ok gates =>
      rw [hg] at h
      cases h
      exact ⟨rfl, rfl, rfl⟩

/-- Noting a connection keeps to the block. -/
theorem recordConnection_follows (hcomp : src.compId = c) :
    Keeps (Follows (T := T) gone c src.name src.params) (recordConnection l src dst) := by
  obtain ⟨-, hc, hp⟩ := addConnection_spec src dst l.srcGate l.dstGate .right
  refine keeps_bind (setBlock_follows (hc.trans hcomp) fun _ => hp) fun _ => getBlock_follows fun b hname hb hparams => ?_
  obtain ⟨hn', hc', hp'⟩ := addConnection_spec b src l.dstGate l.srcGate .left
  refine setBlock_follows (hc'.trans hb) fun hn => hp'.trans (hparams ?_)
  exact hname.symm.trans (hn'.symm.trans hn)

/-- The records of the two blocks are there, so nothing is raised. -/
theorem returns_recordConnection (l : ConnectionNode) (src dst : DaemonBlock π) {d : Daemon π T} (hdst : (d.blocks.find? l.dstBlock).isSome = true) :
    returns ((recordConnection l src dst).run d) = true := by
  have hfind : ((d.blocks.assign src.name (addConnection src l.srcGate dst l.dstGate .right)).find? l.dstBlock).isSome = true := by
    rw [OrdMap.find?_assign]
    split
    · rfl
    · exact hdst
  obtain ⟨b, hb⟩ := Option.isSome_iff_exists.mp hfind
  have hget : (getBlock l.dstBlock).run
      { d with blocks := d.blocks.assign src.name (addConnection src l.srcGate dst l.dstGate .right) } = .ok b _ := run_getBlock hb
  have hset : (setBlock (addConnection src l.srcGate dst l.dstGate .right)).run d =
      .ok () { d with blocks := d.blocks.assign src.name (addConnection src l.srcGate dst l.dstGate .right) } := rfl
  unfold recordConnection
  rw [EStateM.run_bind, hset]
  dsimp only
  rw [EStateM.run_bind, hget]
  rfl

/-- Noting a removal keeps to the block. -/
theorem recordDisconnection_follows (hcomp : src.compId = c) :
    Keeps (Follows (T := T) gone c src.name src.params) (recordDisconnection l src dst) := by
  refine keeps_ofExcept_bind fun b hb => ?_
  obtain ⟨-, hc, hp⟩ := removeConnection_spec hb
  refine keeps_bind (setBlock_follows (hc.trans hcomp) fun _ => hp) fun _ => getBlock_follows fun b₂ hname hb₂ hparams => ?_
  refine keeps_ofExcept_bind fun b₃ hb₃ => ?_
  obtain ⟨hn', hc', hp'⟩ := removeConnection_spec hb₃
  refine setBlock_follows (hc'.trans hb₂) fun hn => hp'.trans (hparams ?_)
  exact hname.symm.trans (hn'.symm.trans hn)

end Records

end Daemon

end Blockmon
