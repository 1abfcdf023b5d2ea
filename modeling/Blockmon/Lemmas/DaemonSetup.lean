import Blockmon.Lemmas.DaemonLinks
import Blockmon.Lemmas.Installed

/-!
# Building a composition

The blocks of a composition are made one after the other, each with gates that it numbers itself and at an address of its own. A
composition that is built so has no links (`Daemon.Unlinked`).
-/

namespace Blockmon

open Exn HalfEdges

variable {π T : Type}

/-- A call that builds a composition without links. -/
inductive SetupCall (π : Type) where
  | createPool (n : PoolNode)
  | createBlock (n : BlockNode π)

def SetupCall.exec (library : BlockLibrary π) : SetupCall π → EStateM String (Daemon π T) Unit
  | .createPool n => Daemon.createPool n
  | .createBlock n => Daemon.createNode library n

/-- The composition after the calls that build it. -/
def Daemon.built [Inhabited T] (library : BlockLibrary π) (compId : String) (setup : List (SetupCall π)) : Daemon π T :=
  runCalls (SetupCall.exec library) (Daemon.new compId) setup

/-! ## The gates of a new block -/

/-- The numbers of the gates of a block are below its counters and differ. -/
structure Block.Numbered (b : Block) : Prop where
  inBelow : ∀ g id, b.inputIds.find? g = some id → id < b.lastInId
  outBelow : ∀ g id, b.outputIds.find? g = some id → id < b.lastOutId
  inputs : ∀ g g' id, b.inputIds.find? g = some id → b.inputIds.find? g' = some id → g = g'
  outputs : ∀ g g' id, b.outputIds.find? g = some id → b.outputIds.find? g' = some id → g = g'

/-- A new number for a name that has none. -/
theorem OrdMap.find?_insert_next {m : OrdMap String Nat} {last : Nat} (hbelow : ∀ g id, m.find? g = some id → id < last)
    (hinj : ∀ g g' id, m.find? g = some id → m.find? g' = some id → g = g') (name : String) :
    (∀ g id, (m.insert name last).find? g = some id → id < last + 1) ∧
      ∀ g g' id, (m.insert name last).find? g = some id → (m.insert name last).find? g' = some id → g = g' := by
  unfold OrdMap.insert
  split
  · exact ⟨fun g id h => Nat.lt_succ_of_lt (hbelow g id h), hinj⟩
  · simp only [OrdMap.find?_assign]
    refine ⟨fun g id h => ?_, fun g g' id h h' => ?_⟩
    · split at h
      · cases h
        exact Nat.lt_succ_self last
      · exact Nat.lt_succ_of_lt (hbelow g id h)
    · split at h <;> split at h'
      · rename_i hg hg'
        exact hg.trans hg'.symm
      · cases h
        exact absurd (hbelow g' last h') (Nat.lt_irrefl last)
      · cases h'
        exact absurd (hbelow g last h) (Nat.lt_irrefl last)
      · exact hinj g g' id h h'

theorem Block.Numbered.registerInputGate {b : Block} (h : b.Numbered) (name : String) : (b.registerInputGate name).Numbered := by
  obtain ⟨hbelow, hinj⟩ := OrdMap.find?_insert_next h.inBelow h.inputs name
  exact ⟨hbelow, h.outBelow, hinj, h.outputs⟩

theorem Block.Numbered.registerOutputGate {b : Block} (h : b.Numbered) (name : String) : (b.registerOutputGate name).Numbered := by
  obtain ⟨hbelow, hinj⟩ := OrdMap.find?_insert_next h.outBelow h.outputs name
  exact ⟨h.inBelow, hbelow, h.inputs, hinj⟩

theorem BlockClass.block_numbered (cls : BlockClass π) (addr : Nat) (name : String) (invocation : InvocationType) :
    (cls.block addr name invocation).Numbered := by
  have hin : ∀ (names : List String) (b : Block), b.Numbered → (names.foldl Block.registerInputGate b).Numbered := by
    intro names
    induction names with
    | nil => exact fun _ h => h
    | cons name names ih => exact fun b h => ih _ (h.registerInputGate name)
  have hout : ∀ (names : List String) (b : Block), b.Numbered → (names.foldl Block.registerOutputGate b).Numbered := by
    intro names
    induction names with
    | nil => exact fun _ h => h
    | cons name names ih => exact fun b h => ih _ (h.registerOutputGate name)
  refine hout _ _ (hin _ _ ⟨?_, ?_, ?_, ?_⟩) <;> intros <;> contradiction

/-! ## The blocks of a new composition -/

/-- A composition without links: the blocks have addresses that were given out and no two of them the same. -/
structure Process.Unlinked (c : String) (w : Process T) : Prop where
  addresses : ∀ n n' b b', w.block? c n = some b → w.block? c n' = some b' → b.addr = b'.addr → n = n'
  below : ∀ n b, w.block? c n = some b → b.addr < w.runtime.nextAddr
  numbered : ∀ n b, w.block? c n = some b → b.Numbered
  empty : w.runtime.gates.peers = Adj.empty

/-- The same blocks and no links. -/
theorem Process.Unlinked.of_same {c : String} {w w' : Process T} (h : w.Unlinked c) (hblock : ∀ n, w'.block? c n = w.block? c n)
    (hgates : w'.runtime.gates = w.runtime.gates) (hnext : w.runtime.nextAddr ≤ w'.runtime.nextAddr) : w'.Unlinked c := by
  refine ⟨fun n n' b b' => ?_, fun n b hb => ?_, fun n b => ?_, ?_⟩
  · rw [hblock, hblock]
    exact h.addresses n n' b b'
  · rw [hblock] at hb
    exact Nat.lt_of_lt_of_le (h.below n b hb) hnext
  · rw [hblock]
    exact h.numbered n b
  · rw [hgates]
    exact h.empty

theorem Process.Unlinked.createBlock {c : String} (library : BlockLibrary π) (name type : String) (inv : InvocationType)
    (config : ConfigText π) {w : Process T} (h : w.Unlinked c) :
    (leaves ((Backend.createBlock library c name type inv config).run w)).Unlinked c := by
  unfold Backend.createBlock
  cases hm : w.configMap.find? c with
  | none =>
    rw [Process.leaves_onComposition_of_none hm]
    exact h
  | some m =>
    have hblock := fun n => Process.block?_onComposition hm (Composition.createBlock library name type inv config) c n
    have hruntime := Process.runtime_onComposition hm (Composition.createBlock library name type inv config)
    have hold : ∀ n, w.block? c n = m.map.find? n := by
      intro n
      rw [Process.block?, hm]
      rfl
    simp only [if_true] at hblock
    cases config with
    | malformed | params | other =>
      refine h.of_same (fun n => ?_) (congrArg Runtime.gates hruntime) (congrArg Runtime.nextAddr hruntime).ge
      rw [hblock, hold]
      rfl
    | block node =>
      obtain ⟨hgates, -, hnext, hmap⟩ :=
        Composition.leaves_createBlockFromParsed library.toBlockFactory type name inv node ⟨m, w.runtime⟩
      have hleaves : leaves ((Composition.createBlock library name type inv (.block node)).run ⟨m, w.runtime⟩) =
          leaves ((Composition.createBlockFromParsed library.toBlockFactory type name inv node).run ⟨m, w.runtime⟩) := by
        unfold Composition.createBlock
        rw [EStateM.run_bind]
        cases (Composition.createBlockFromParsed library.toBlockFactory type name inv node).run ⟨m, w.runtime⟩ <;> rfl
      rw [hleaves] at hblock hruntime
      rw [← hruntime] at hgates hnext hmap
      rcases hmap with hmap | ⟨cls, hmap, hnext'⟩
      · refine h.of_same (fun n => ?_) hgates hnext
        rw [hblock, hold, hmap]
      · -- the new block is the only one at its address
        have hfind : ∀ n b, (leaves ((Process.onComposition c (Composition.createBlock library name type inv (.block node))).run w)).block?
            c n = some b → (n = name ∧ b = cls.block w.runtime.nextAddr name inv) ∨ w.block? c n = some b := by
          intro n b hb
          rw [hblock, hmap, OrdMap.find?_assign] at hb
          split at hb
          · rename_i hn
            exact Or.inl ⟨hn, (Option.some.inj hb).symm⟩
          · exact Or.inr ((hold n).trans hb)
        have haddr : (cls.block w.runtime.nextAddr name inv).addr = w.runtime.nextAddr := (cls.block_spec _ _ _).1
        refine ⟨fun n n' b b' hb hb' he => ?_, fun n b hb => ?_, fun n b hb => ?_, hgates ▸ h.empty⟩
        · rcases hfind n b hb with ⟨hn, rfl⟩ | hb <;> rcases hfind n' b' hb' with ⟨hn', rfl⟩ | hb'
          · exact hn.trans hn'.symm
          · have := h.below n' b' hb'
            omega
          · have := h.below n b hb
            omega
          · exact h.addresses n n' b b' hb hb' he
        · rw [hnext']
          rcases hfind n b hb with ⟨-, rfl⟩ | hb
          · rw [haddr]
            exact Nat.lt_succ_self _
          · exact Nat.lt_succ_of_lt (h.below n b hb)
        · rcases hfind n b hb with ⟨-, rfl⟩ | hb
          · exact cls.block_numbered _ _ _
          · exact h.numbered n b hb

/-! ## The records of a new composition -/

namespace Daemon

/-- The composition has no links and its records are filed under their names. -/
structure Unlinked (c : String) (d : Daemon π T) : Prop where
  compId : d.compId = c
  named : ∀ key b, d.blocks.find? key = some b → b.name = key ∧ b.compId = c
  process : d.process.Unlinked c

/-- A call leaves a composition without links. -/
def StaysUnlinked (c : String) (d d' : Daemon π T) : Prop := d.Unlinked c → d'.Unlinked c

variable {c : String}

instance : Std.Refl (StaysUnlinked (π := π) (T := T) c) := ⟨fun _ h => h⟩

instance : IsTrans (Daemon π T) (StaysUnlinked c) where
  trans _ _ _ h h' hd := h' (h hd)

theorem onBackend_unlinked {call : EStateM String (Process T) Unit} (h : Keeps ConfigKept call) :
    Keeps (StaysUnlinked (π := π) c) (onBackend call) := by
  refine keeps_onPart h fun d w hw hd => ⟨hd.compId, hd.named, hd.process.of_same (fun n => ?_) hw.gates hw.nextAddr.ge⟩
  unfold Process.block?
  rw [hw.configMap]

theorem modify_unlinked {f : Daemon π T → Daemon π T} (hcomp : ∀ d, (f d).compId = d.compId) (hblocks : ∀ d, (f d).blocks = d.blocks)
    (hprocess : ∀ d, (f d).process = d.process) : Keeps (StaysUnlinked c) (modify f : EStateM String (Daemon π T) PUnit) := by
  refine keeps_modify fun d hd => ⟨(hcomp d).trans hd.compId, ?_, ?_⟩
  · rw [hblocks]
    exact hd.named
  · rw [hprocess]
    exact hd.process

theorem setBlock_unlinked {b : DaemonBlock π} (hcomp : b.compId = c) : Keeps (StaysUnlinked (T := T) c) (setBlock b) := by
  refine keeps_modify fun d hd => ⟨hd.compId, fun key b' hb' => ?_, hd.process⟩
  rw [OrdMap.find?_assign] at hb'
  split at hb'
  · cases hb'
    rename_i hkey
    exact ⟨hkey.symm, hcomp⟩
  · exact hd.named key b' hb'

theorem createPool_unlinked (n : PoolNode) : Keeps (StaysUnlinked (π := π) (T := T) c) (createPool n) :=
  keeps_bind (onBackend_unlinked (Backend.onPools_kept _)) fun _ => modify_unlinked (fun _ => rfl) (fun _ => rfl) fun _ => rfl

theorem poolAddBlock_unlinked (pool c' n : String) : Keeps (StaysUnlinked (π := π) (T := T) c) (poolAddBlock pool c' n) :=
  keeps_bind (modify_unlinked (fun _ => rfl) (fun _ => rfl) fun _ => rfl) fun _ =>
    keeps_bind (onBackend_unlinked (Backend.addBlockToThreadPool_kept _ _ _)) fun _ =>
      modify_unlinked (fun _ => rfl) (fun _ => rfl) fun _ => rfl

theorem initBlock_unlinked (library : BlockLibrary π) (name blockType invocation : String) (params : ConfigText π)
    (tpool : Option String) {d : Daemon π T} (h : d.Unlinked c) :
    (leaves ((initBlock library name blockType invocation params tpool).run d)).Unlinked c := by
  obtain rfl := h.compId
  have hcreate : Keeps (StaysUnlinked (π := π) (T := T) d.compId)
      (onBackend (Backend.createBlock library d.compId name blockType (Backend.toInvocType invocation) params)) := by
    intro m hm
    rw [onBackend, leaves_onPart]
    exact ⟨hm.compId, hm.named, hm.process.createBlock library name blockType _ params⟩
  have htpool : Keeps (StaysUnlinked (π := π) (T := T) d.compId)
      (onTpool (π := π) tpool "add_block" fun pool => poolAddBlock pool d.compId name) := by
    cases tpool with
    | none => exact keeps_throw _
    | some pool => exact poolAddBlock_unlinked pool d.compId name
  unfold initBlock
  rw [EStateM.run_bind, EStateM.run_get]
  refine keeps_bind hcreate (fun _ => ?_) d h
  split
  · exact keeps_bind htpool fun _ => setBlock_unlinked rfl
  · exact setBlock_unlinked rfl

theorem setup_unlinked (library : BlockLibrary π) (call : SetupCall π) {d : Daemon π T} (h : d.Unlinked c) :
    (leaves ((call.exec library).run d)).Unlinked c := by
  cases call with
  | createPool n => exact createPool_unlinked n d h
  | createBlock n =>
    have hrun : ((SetupCall.createBlock n).exec library).run d =
        match d.nodePool (nodeInvocation n.invocation) n.threadpool with
        | .ok tpool => (initBlock library n.id n.type (nodeInvocation n.invocation) (.block n) tpool).run d
        | .error e => .error e d := by
      simp only [SetupCall.exec, createNode, EStateM.run_bind, EStateM.run_get, run_ofExcept]
      cases d.nodePool (nodeInvocation n.invocation) n.threadpool <;> rfl
    rw [hrun]
    cases d.nodePool (nodeInvocation n.invocation) n.threadpool with
    | error e => exact h
    | ok tpool => exact initBlock_unlinked library _ _ _ _ tpool h

/-- The name of the composition is new in a new process. -/
theorem new_process [Inhabited T] (compId : String) :
    (Daemon.new compId : Daemon π T).process =
      { (Process.new : Process T) with configMap := OrdMap.empty.assign compId (Composition.new compId) } := rfl

theorem built_unlinked [Inhabited T] (library : BlockLibrary π) (compId : String) (setup : List (SetupCall π)) :
    (built library compId setup : Daemon π T).Unlinked compId := by
  refine runCalls_inv (I := fun d : Daemon π T => d.Unlinked compId) (fun d call h => setup_unlinked library call h) ?_ setup
  have hblock : ∀ n, (Daemon.new compId : Daemon π T).process.block? compId n = none := by
    intro n
    simp only [new_process, Process.block?, OrdMap.find?_assign, if_true]
    rfl
  refine ⟨rfl, ?_, fun n n' b b' hb => ?_, fun n b hb => ?_, fun n b hb => ?_, rfl⟩
  · intro key b hb
    cases hb
  all_goals
    rw [hblock] at hb
    cases hb

end Daemon

end Blockmon
