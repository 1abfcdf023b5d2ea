import Blockmon.Daemon

/-!
# What the daemon's methods do to the block lists of the pools

A call to the backend and an assignment to a block leave the block lists and the two histories alone (`PoolsKept`), so the lists
change only in `add_block` and `remove_block` of a pool.
-/

namespace Blockmon

open Exn

variable {π T α : Type}

namespace Daemon

/-- The block lists and the histories are as before. -/
structure PoolsKept (d d' : Daemon π T) : Prop where
  compId : d'.compId = d.compId
  threadPools : d'.threadPools = d.threadPools
  listed : d'.listed = d.listed
  received : d'.received = d.received

/-- The blocks are as before. -/
def BlocksKept (d d' : Daemon π T) : Prop := d'.compId = d.compId ∧ d'.blocks = d.blocks

instance : Std.Refl (PoolsKept (π := π) (T := T)) := ⟨fun _ => ⟨rfl, rfl, rfl, rfl⟩⟩

instance : IsTrans (Daemon π T) PoolsKept where
  trans _ _ _ h h' :=
    ⟨h'.compId.trans h.compId, h'.threadPools.trans h.threadPools, h'.listed.trans h.listed, h'.received.trans h.received⟩

instance : Std.Refl (BlocksKept (π := π) (T := T)) := ⟨fun _ => ⟨rfl, rfl⟩⟩

instance : IsTrans (Daemon π T) BlocksKept where
  trans _ _ _ h h' := ⟨h'.1.trans h.1, h'.2.trans h.2⟩

/-- Kept pools have the same blocks. -/
theorem PoolsKept.blocksOf {d d' : Daemon π T} (h : PoolsKept d d') (p : String) : d'.blocksOf p = d.blocksOf p := by
  unfold Daemon.blocksOf
  rw [h.threadPools]

/-- A call on the process keeps the pools of the daemon. -/
theorem onBackend_pools (call : EStateM String (Process T) α) : Keeps PoolsKept (onBackend (π := π) call) :=
  keeps_onPart (Q := fun _ _ => True) (fun _ => trivial) fun _ _ _ => ⟨rfl, rfl, rfl, rfl⟩

/-- A call on the process keeps the blocks of the daemon. -/
theorem onBackend_blocks (call : EStateM String (Process T) α) : Keeps BlocksKept (onBackend (π := π) call) :=
  keeps_onPart (Q := fun _ _ => True) (fun _ => trivial) fun _ _ _ => ⟨rfl, rfl⟩

/-- A block that is filed keeps the pools. -/
theorem setBlock_pools (b : DaemonBlock π) : Keeps PoolsKept (setBlock (T := T) b) :=
  keeps_modify fun _ => ⟨rfl, rfl, rfl, rfl⟩

/-- A block that is filed is there. -/
theorem setBlock_ok {b : DaemonBlock π} {d d' : Daemon π T} (h : (setBlock b).run d = .ok () d') :
    d'.blocks.find? b.name = some b := by
  cases h
  exact (OrdMap.find?_assign _ _ _ _).trans (if_pos rfl)

/-- The list of a pool with one more block. -/
theorem blocksOf_addToList (pool c n p : String) (d : Daemon π T) :
    (addToList pool c n d).blocksOf p = if p = pool then d.blocksOf p ++ [(c, n)] else d.blocksOf p := by
  unfold addToList Daemon.blocksOf
  rw [OrdMap.find?_assign]
  by_cases hp : p = pool
  · rw [if_pos hp, if_pos hp, hp]
    rfl
  · rw [if_neg hp, if_neg hp]

/-- The list of a pool without a block. -/
theorem blocksOf_removeFromList (pool c n p : String) (d : Daemon π T) :
    (removeFromList pool c n d).blocksOf p = if p = pool then (d.blocksOf p).erase (c, n) else d.blocksOf p := by
  unfold removeFromList Daemon.blocksOf
  rw [OrdMap.find?_assign]
  by_cases hp : p = pool
  · rw [if_pos hp, if_pos hp, hp]
    rfl
  · rw [if_neg hp, if_neg hp]

/-! ## `add_block` and `remove_block` -/

/-- What `add_block` and `remove_block` do when the list is written. -/
def tellBackend (call : EStateM String (Process T) Unit) (c : PoolCall) : EStateM String (Daemon π T) Unit := do
  onBackend call
  modify fun d => { d with received := d.received ++ [c] }

/-- A call on the process changes no list. -/
theorem blocksOf_tellBackend (call : EStateM String (Process T) Unit) (c : PoolCall) (d : Daemon π T) (p : String) :
    (leaves ((tellBackend call c).run d)).blocksOf p = d.blocksOf p := by
  unfold tellBackend
  refine leaves_bind (P := fun d' : Daemon π T => d'.blocksOf p = d.blocksOf p) ?_ ?_
  · intro u m hm
    exact ((onBackend_pools _).of_ok hm).blocksOf p
  · intro e m hm
    exact ((onBackend_pools _).of_error hm).blocksOf p

/-- A call on the process, with its note, keeps the blocks. -/
theorem tellBackend_blocks (call : EStateM String (Process T) Unit) (c : PoolCall) :
    Keeps BlocksKept (tellBackend (π := π) call c) :=
  keeps_bind (onBackend_blocks _) fun _ => keeps_modify fun _ => ⟨rfl, rfl⟩

/-- `add_block` lists the block and tells the process. -/
theorem run_poolAddBlock (pool c n : String) (d : Daemon π T) :
    (poolAddBlock pool c n).run d =
      (tellBackend (Backend.addBlockToThreadPool c n pool) (.add pool c n)).run (addToList pool c n d) := rfl

/-- A block that is not in the list cannot be removed. -/
theorem run_poolRemoveBlock (pool c n : String) (d : Daemon π T) :
    (poolRemoveBlock pool c n).run d =
      if (c, n) ∈ d.blocksOf pool then
        (tellBackend (Backend.removeBlockFromThreadPool c n pool) (.remove pool c n)).run (removeFromList pool c n d)
      else .error "list.remove(x): x not in list" d := by
  unfold poolRemoveBlock
  by_cases h : (c, n) ∈ d.blocksOf pool
  · simp only [EStateM.run_bind, EStateM.run_get, if_neg (not_not.mpr h), if_pos h]
    rfl
  · simp only [EStateM.run_bind, EStateM.run_get, if_neg h, if_pos h]
    rfl

/-- The block is in the list also if the backend throws. -/
theorem leaves_poolAddBlock (pool c n p : String) (d : Daemon π T) :
    (leaves ((poolAddBlock pool c n).run d)).blocksOf p = if p = pool then d.blocksOf p ++ [(c, n)] else d.blocksOf p := by
  rw [run_poolAddBlock, blocksOf_tellBackend, blocksOf_addToList]

/-- `remove_block` takes the block off the list. -/
theorem leaves_poolRemoveBlock {pool c n : String} {d : Daemon π T} (h : (c, n) ∈ d.blocksOf pool) (p : String) :
    (leaves ((poolRemoveBlock pool c n).run d)).blocksOf p =
      if p = pool then (d.blocksOf p).erase (c, n) else d.blocksOf p := by
  rw [run_poolRemoveBlock, if_pos h, blocksOf_tellBackend, blocksOf_removeFromList]

/-- `add_block` keeps the blocks. -/
theorem poolAddBlock_blocks (pool c n : String) : Keeps BlocksKept (poolAddBlock (π := π) (T := T) pool c n) := by
  intro d
  rw [run_poolAddBlock]
  exact tellBackend_blocks _ _ (addToList pool c n d)

/-- When `add_block` returns, the pool of the backend was told what the list was told. -/
theorem poolAddBlock_ok {pool c n : String} {d d' : Daemon π T} (h : (poolAddBlock pool c n).run d = .ok () d') :
    d'.listed = d.listed ++ [.add pool c n] ∧ d'.received = d.received ++ [.add pool c n] := by
  rw [run_poolAddBlock] at h
  unfold tellBackend at h
  obtain ⟨u, m, hbackend, h⟩ := bind_eq_ok.mp h
  cases h
  have hkept := (onBackend_pools _).of_ok hbackend
  exact ⟨hkept.listed, congrArg (· ++ [PoolCall.add pool c n]) hkept.received⟩

/-! ## `update_block` and `create_block` of the backend -/

/-- The process with `b` in the place of a block of a composition. -/
def putBlock (c n : String) (b : Block) (w : Process T) : Process T :=
  leaves ((Process.onComposition c (modify fun s =>
    { s with composition := { s.composition with map := s.composition.map.assign n b } })).run w)

/-- A block that a worker has taken is not changed. Another one has its invocation changed before the class is asked, and it stays
changed. -/
theorem run_backendUpdate (library : BlockLibrary π) (c n : String) (inv : InvocationType) (node : π) (w : Process T) :
    (Backend.updateBlock library c n inv (.params node)).run w =
      match w.getBlock c n with
      | .error e => .error e w
      | .ok b =>
        if b.addr ∈ w.runtime.running then .error "cannot change invocation while block is running" w
        else
          match library.updateConfig { b with invocation := inv } node with
          | .ok answer => .ok answer (putBlock c n { b with invocation := inv } w)
          | .error e => .error e (putBlock c n { b with invocation := inv } w) := by
  unfold Backend.updateBlock putBlock
  simp only [EStateM.run_bind, EStateM.run_get, run_ofExcept]
  cases hb : w.getBlock c n with
  | error e => rfl
  | ok b =>
    dsimp only
    unfold Process.setInvocation
    by_cases hrunning : b.addr ∈ w.runtime.running
    · rw [if_pos hrunning, if_pos hrunning]
    rw [if_neg hrunning, if_neg hrunning]
    unfold Process.getBlock Process.getComposition at hb
    simp only [Process.onComposition, EStateM.run]
    cases hm : w.configMap.find? c with
    | none =>
      rw [hm] at hb
      cases hb
    | some m => cases library.updateConfig { b with invocation := inv } node <;> rfl

/-- No worker has taken the block yet, and its class answers that it cannot take the new parameters. -/
def Refuses (library : BlockLibrary π) (w : Process T) (c n : String) (inv : InvocationType) (params : ConfigText π) : Prop :=
  ∃ node b, params = .params node ∧ w.getBlock c n = .ok b ∧ b.addr ∉ w.runtime.running ∧
    library.updateConfig { b with invocation := inv } node = .ok false

/-- `update_block` returns false exactly if the class refuses. -/
theorem backendUpdate_false_iff {library : BlockLibrary π} {c n : String} {inv : InvocationType} {params : ConfigText π}
    {w : Process T} :
    (∃ w', (Backend.updateBlock library c n inv params).run w = .ok false w') ↔ Refuses library w c n inv params := by
  constructor
  · rintro ⟨w', h⟩
    cases params with
    | malformed | block | other => cases h
    | params node =>
      rw [run_backendUpdate] at h
      split at h
      · cases h
      · rename_i b hb
        split at h
        · cases h
        · rename_i hrunning
          split at h
          · rename_i answer hanswer
            cases h
            exact ⟨node, b, rfl, hb, hrunning, hanswer⟩
          · cases h
  · rintro ⟨node, b, rfl, hb, hrunning, hanswer⟩
    rw [run_backendUpdate, hb]
    simp only [hanswer, if_neg hrunning]
    exact ⟨_, rfl⟩

/-- What is passed to `update_block` is no text from which `create_block` makes a block. -/
theorem run_createBlock_params (library : BlockLibrary π) (c n type : String) (inv : InvocationType) (node : π) (w : Process T) :
    ∃ e w', (Backend.createBlock library c n type inv (.params node)).run w = .error e w' := by
  unfold Backend.createBlock Process.onComposition
  simp only [EStateM.run]
  cases w.configMap.find? c with
  | none => exact ⟨_, _, rfl⟩
  | some m => exact ⟨_, _, rfl⟩

/-! ## Rebuilding a block -/

/-- A block that is restored with parameters only is not made, so nothing after that is done. -/
theorem restoreBlock_params {R : Daemon π T → Daemon π T → Prop} (library : BlockLibrary π) {self : DaemonBlock π} {node : π}
    (h : self.params = .params node)
    (hcreate : Keeps R (onBackend (Backend.createBlock library self.compId self.name self.blockType self.inv self.params))) :
    Keeps R (restoreBlock library self) := by
  intro d
  unfold restoreBlock
  refine leaves_bind (P := R d) ?_ ?_
  · intro u m hm
    rw [h] at hm
    obtain ⟨e, w, hw⟩ := run_createBlock_params library self.compId self.name self.blockType self.inv node d.process
    rw [onBackend, run_onPart, hw] at hm
    cases hm
  · intro e m hm
    exact hcreate.of_error hm

/-- A restored block keeps the pools. -/
theorem restoreBlock_pools (library : BlockLibrary π) {self : DaemonBlock π} {node : π} (h : self.params = .params node) :
    Keeps PoolsKept (restoreBlock (T := T) library self) := restoreBlock_params library h (onBackend_pools _)

/-- A restored block keeps the others. -/
theorem restoreBlock_blocks (library : BlockLibrary π) {self : DaemonBlock π} {node : π} (h : self.params = .params node) :
    Keeps BlocksKept (restoreBlock (T := T) library self) := restoreBlock_params library h (onBackend_blocks _)

/-- Without a queue a removed block keeps the pools. -/
theorem removeBlock_pools {self : DaemonBlock π} (h : queuedInvocation self.invocation = false) :
    Keeps PoolsKept (removeBlock (T := T) self) := by
  unfold removeBlock
  rw [h]
  exact onBackend_pools _

/-- Without a queue a removed block keeps the others. -/
theorem removeBlock_blocks {self : DaemonBlock π} (h : queuedInvocation self.invocation = false) :
    Keeps BlocksKept (removeBlock (T := T) self) := by
  unfold removeBlock
  rw [h]
  exact onBackend_blocks _

/-! ## `update` -/

/-- The part of `update` after the change of the pool. -/
def reconfigure (library : BlockLibrary π) (name : String) (self : DaemonBlock π) : EStateM String (Daemon π T) Unit := do
  let updated ← onBackend (Backend.updateBlock library self.compId self.name self.inv self.params)
  if !updated then
    let self ← getBlock name
    removeBlock self
    restoreBlock library self

/-- The block with what `update` writes first. -/
def told (b : DaemonBlock π) (invocation : String) (params : ConfigText π) : DaemonBlock π :=
  { b with params := params, invocation := invocation, inv := Backend.toInvocType invocation }

/-- A block of the daemon is found. -/
theorem run_getBlock {name : String} {d : Daemon π T} {b : DaemonBlock π} (h : d.blocks.find? name = some b) :
    (getBlock name).run d = .ok b d := by
  unfold getBlock
  simp only [EStateM.run_bind, EStateM.run_get, h]
  rfl

/-- `update` writes the record of the block first. -/
theorem run_updateBlock (library : BlockLibrary π) (invocation : String) (params : ConfigText π) (tpool : Option String)
    {d : Daemon π T} {old : DaemonBlock π} (h : d.blocks.find? old.name = some old) :
    ∃ d₁, PoolsKept d d₁ ∧ d₁.process = d.process ∧ d₁.blocks = d.blocks.assign old.name (told old invocation params) ∧
      (updateBlock library old.name invocation params tpool).run d =
        (if queuedInvocation invocation ∧ tpool ≠ old.tpool then do
            changePool (told old invocation params) tpool
            reconfigure library old.name (told old invocation params)
          else reconfigure library old.name (told old invocation params)).run d₁ := by
  refine ⟨{ d with blocks := d.blocks.assign old.name (told old invocation params) }, ⟨rfl, rfl, rfl, rfl⟩, rfl, rfl, ?_⟩
  unfold updateBlock
  rw [EStateM.run_bind, run_getBlock h]
  rfl

section Reconfigure

variable {library : BlockLibrary π} {name : String} {self : DaemonBlock π} {d : Daemon π T}

/-- When the class does not refuse, `update_block` is the last thing that is done. -/
theorem leaves_reconfigure_of_not_refuses (self : DaemonBlock π) (h : ¬Refuses library d.process self.compId self.name self.inv self.params) :
    leaves ((reconfigure library name self).run d) =
      leaves ((onBackend (Backend.updateBlock library self.compId self.name self.inv self.params)).run d) := by
  unfold reconfigure
  rw [EStateM.run_bind]
  cases hrun : (onBackend (Backend.updateBlock library self.compId self.name self.inv self.params)).run d with
  | error e m => rfl
  | ok answer m =>
    cases answer with
    | true => rfl
    | false =>
      rw [onBackend, run_onPart] at hrun
      split at hrun
      · rename_i answer w hw
        cases hrun
        exact absurd (backendUpdate_false_iff.mp ⟨w, hw⟩) h
      · cases hrun

/-- When the class refuses, the block is removed and `restore` is called. -/
theorem leaves_reconfigure_of_refuses (hself : d.blocks.find? name = some self)
    (h : Refuses library d.process self.compId self.name self.inv self.params) :
    ∃ m, (onBackend (Backend.updateBlock library self.compId self.name self.inv self.params)).run d = .ok false m ∧
      leaves ((reconfigure library name self).run d) = leaves ((do removeBlock self; restoreBlock library self).run m) := by
  obtain ⟨w, hw⟩ := backendUpdate_false_iff.mpr h
  have hrun : (onBackend (Backend.updateBlock library self.compId self.name self.inv self.params)).run d =
      .ok false { d with process := w } := by rw [onBackend, run_onPart, hw]
  refine ⟨{ d with process := w }, hrun, ?_⟩
  have hget : (getBlock name).run { d with process := w } = .ok self { d with process := w } := run_getBlock hself
  unfold reconfigure
  rw [EStateM.run_bind, hrun]
  simp only [Bool.not_false, if_true, EStateM.run_bind, hget]

/-- A block without a pool is rebuilt outside the pools. -/
theorem reconfigure_of_direct (hself : d.blocks.find? name = some self) (hdirect : queuedInvocation self.invocation = false) :
    PoolsKept d (leaves ((reconfigure library name self).run d)) ∧ BlocksKept d (leaves ((reconfigure library name self).run d)) := by
  by_cases h : Refuses library d.process self.compId self.name self.inv self.params
  · obtain ⟨m, hm, hleaves⟩ := leaves_reconfigure_of_refuses hself h
    obtain ⟨node, -, hnode, -, -⟩ := h
    rw [hleaves]
    have hpools := keeps_bind (removeBlock_pools (T := T) hdirect) (fun _ => restoreBlock_pools library hnode) m
    have hblocks := keeps_bind (removeBlock_blocks (T := T) hdirect) (fun _ => restoreBlock_blocks library hnode) m
    exact ⟨trans_of PoolsKept ((onBackend_pools _).of_ok hm) hpools, trans_of BlocksKept ((onBackend_blocks _).of_ok hm) hblocks⟩
  · rw [leaves_reconfigure_of_not_refuses self h]
    exact ⟨onBackend_pools _ d, onBackend_blocks _ d⟩

/-- A block that is rebuilt is in the list of its pool no more. -/
theorem count_reconfigure_of_queued (library : BlockLibrary π) (hself : d.blocks.find? name = some self)
    (hqueued : queuedInvocation self.invocation = true)
    {pool : String} (hpool : self.tpool = some pool) (hone : (d.blocksOf pool).count (self.compId, self.name) ≤ 1)
    (hrefuses : (d.blocksOf pool).count (self.compId, self.name) = 1 →
      Refuses library d.process self.compId self.name self.inv self.params) :
    ((leaves ((reconfigure library name self).run d)).blocksOf pool).count (self.compId, self.name) = 0 := by
  by_cases h : Refuses library d.process self.compId self.name self.inv self.params
  · obtain ⟨m, hm, hleaves⟩ := leaves_reconfigure_of_refuses hself h
    obtain ⟨node, -, hnode, -, -⟩ := h
    have hlist : m.blocksOf pool = d.blocksOf pool := ((onBackend_pools _).of_ok hm).blocksOf pool
    have hremove : removeBlock (T := T) self =
        (do poolRemoveBlock pool self.compId self.name; onBackend (Backend.deleteBlock self.compId self.name)) := by
      unfold removeBlock
      rw [hqueued, hpool]
      rfl
    have hrest : Keeps PoolsKept (do onBackend (Backend.deleteBlock self.compId self.name); restoreBlock (T := T) library self) :=
      keeps_bind (onBackend_pools _) fun _ => restoreBlock_pools library hnode
    have hafter : ((leaves ((poolRemoveBlock pool self.compId self.name).run m)).blocksOf pool).count (self.compId, self.name) = 0 := by
      by_cases hmem : (self.compId, self.name) ∈ m.blocksOf pool
      · rw [leaves_poolRemoveBlock hmem, if_pos rfl, List.count_erase_self, hlist]
        exact Nat.sub_eq_zero_of_le hone
      · rw [run_poolRemoveBlock, if_neg hmem]
        exact List.count_eq_zero.mpr hmem
    rw [hleaves, hremove, bind_assoc]
    refine leaves_bind (P := fun d' : Daemon π T => (d'.blocksOf pool).count (self.compId, self.name) = 0) ?_ ?_
    · intro u m' hm'
      rw [hm'] at hafter
      rw [(hrest m').blocksOf]
      exact hafter
    · intro e m' hm'
      rw [hm'] at hafter
      exact hafter
  · rw [leaves_reconfigure_of_not_refuses self h, (onBackend_pools _ d).blocksOf]
    by_contra hne
    exact h (hrefuses (by omega))

end Reconfigure

/-- The block is added to the pool it leaves, and cannot be removed from the pool it goes to. -/
theorem changePool_throws (self : DaemonBlock π) {pool : String} {d : Daemon π T} (hpool : self.tpool ≠ some pool)
    (hnot : (self.compId, self.name) ∉ d.blocksOf pool) :
    ∃ e d', (changePool self (some pool)).run d = .error e d' ∧
      ∀ p, (d'.blocksOf p).count (self.compId, self.name) =
        (d.blocksOf p).count (self.compId, self.name) + if self.tpool = some p then 1 else 0 := by
  unfold changePool
  cases hself : self.tpool with
  | none => exact ⟨_, d, rfl, by simp⟩
  | some p₀ =>
    have hadd : ∀ p, ((leaves ((poolAddBlock p₀ self.compId self.name).run d)).blocksOf p).count (self.compId, self.name) =
        (d.blocksOf p).count (self.compId, self.name) + if some p₀ = some p then 1 else 0 := by
      intro p
      rw [leaves_poolAddBlock]
      by_cases hp : p = p₀
      · rw [if_pos hp, hp]
        simp
      · have hne : ¬some p₀ = some p := fun h => hp (Option.some.inj h).symm
        rw [if_neg hp, if_neg hne, Nat.add_zero]
    rw [EStateM.run_bind, onTpool]
    cases hrun : (poolAddBlock p₀ self.compId self.name).run d with
    | error e m =>
      rw [hrun] at hadd
      exact ⟨e, m, rfl, hadd⟩
    | ok u m =>
      rw [hrun] at hadd
      have hnot' : (self.compId, self.name) ∉ m.blocksOf pool := by
        have hcount := hadd pool
        rw [List.count_eq_zero.mpr hnot, if_neg (hself ▸ hpool)] at hcount
        exact List.count_eq_zero.mp hcount
      refine ⟨"list.remove(x): x not in list", { m with blocks := m.blocks.assign self.name { self with tpool := some pool } }, ?_,
        hadd⟩
      exact (run_poolRemoveBlock pool self.compId self.name _).trans (if_neg hnot')

/-! ## The name of the composition -/

/-- A call keeps the name of the composition. -/
def SameComposition (d d' : Daemon π T) : Prop := d'.compId = d.compId

instance : Std.Refl (SameComposition (π := π) (T := T)) := ⟨fun _ => rfl⟩

instance : IsTrans (Daemon π T) SameComposition where
  trans _ _ _ h h' := Eq.trans h' h

/-- A call on the process keeps the composition. -/
theorem onBackend_composition (call : EStateM String (Process T) α) : Keeps SameComposition (onBackend (π := π) call) :=
  fun d => (onBackend_pools call d).compId

/-- `add_block` keeps the composition. -/
theorem poolAddBlock_composition (pool c n : String) : Keeps SameComposition (poolAddBlock (π := π) (T := T) pool c n) :=
  fun d => (poolAddBlock_blocks pool c n d).1

/-- `remove_block` keeps the composition. -/
theorem poolRemoveBlock_composition (pool c n : String) : Keeps SameComposition (poolRemoveBlock (π := π) (T := T) pool c n) := by
  intro d
  rw [run_poolRemoveBlock]
  split
  · exact (tellBackend_blocks _ _ (removeFromList pool c n d)).1
  · exact refl_of SameComposition d

/-- A call on the pool of a block keeps the composition. -/
theorem onTpool_composition {tpool : Option String} {method : String} {call : String → EStateM String (Daemon π T) Unit}
    (h : ∀ pool, Keeps SameComposition (call pool)) : Keeps SameComposition (onTpool tpool method call) := by
  cases tpool with
  | none => exact keeps_throw _
  | some pool => exact h pool

/-- Finding a block keeps the composition. -/
theorem getBlock_composition (name : String) : Keeps SameComposition (getBlock (π := π) (T := T) name) := by
  unfold getBlock
  refine keeps_bind keeps_get fun d => ?_
  split
  · exact keeps_throw _
  · exact keeps_pure _

/-- Filing a block keeps the composition. -/
theorem setBlock_composition (b : DaemonBlock π) : Keeps SameComposition (setBlock (T := T) b) := keeps_modify fun _ => rfl

/-- The change of a pool keeps the composition. -/
theorem changePool_composition (self : DaemonBlock π) (tpool : Option String) :
    Keeps SameComposition (changePool (T := T) self tpool) :=
  keeps_bind (onTpool_composition fun _ => poolAddBlock_composition _ _ _) fun _ =>
    keeps_bind (setBlock_composition _) fun _ => onTpool_composition fun _ => poolRemoveBlock_composition _ _ _

/-- A removed block keeps the composition. -/
theorem removeBlock_composition (self : DaemonBlock π) : Keeps SameComposition (removeBlock (T := T) self) := by
  unfold removeBlock
  split
  · exact keeps_bind (onTpool_composition fun _ => poolRemoveBlock_composition _ _ _) fun _ => onBackend_composition _
  · exact onBackend_composition _

/-- A restored block keeps the composition. -/
theorem restoreBlock_composition (library : BlockLibrary π) (self : DaemonBlock π) :
    Keeps SameComposition (restoreBlock (T := T) library self) := by
  unfold restoreBlock
  refine keeps_bind (onBackend_composition _) fun _ => keeps_bind (keeps_forM (fun _ => onBackend_composition _) _) fun _ => ?_
  split
  · exact onTpool_composition fun _ => poolAddBlock_composition _ _ _
  · exact keeps_pure _

/-- An update keeps the composition. -/
theorem updateBlock_composition (library : BlockLibrary π) (name invocation : String) (params : ConfigText π) (tpool : Option String) :
    Keeps SameComposition (updateBlock (T := T) library name invocation params tpool) := by
  have hrebuild : Keeps SameComposition (do
      let self ← getBlock (T := T) name
      removeBlock self
      restoreBlock library self) :=
    keeps_bind (getBlock_composition _) fun _ => keeps_bind (removeBlock_composition _) fun _ => restoreBlock_composition _ _
  unfold updateBlock
  refine keeps_bind (getBlock_composition _) fun old => keeps_bind (setBlock_composition _) fun _ => ?_
  split
  · refine keeps_bind (changePool_composition _ _) fun _ => keeps_bind (onBackend_composition _) fun answer => ?_
    exact keeps_ite hrebuild (keeps_pure _)
  · refine keeps_bind (onBackend_composition _) fun answer => ?_
    exact keeps_ite hrebuild (keeps_pure _)

end Daemon

end Blockmon
