import Blockmon.CompositionManager
import Blockmon.Lemmas.PoolManager

/-!
# What an installation does to the directories

No step of an installation takes anything away: `Grown` says that the pools that were there are still there with the tasks they had,
and `exec_grown` that every step of `Composition::install` keeps it. `refuses` are the pool nodes that `create_pool` throws on. `OthersKept`
says that the gates of the blocks that were there keep their links, and `exec_others` that every step keeps that too.
-/

namespace Blockmon

namespace PoolManager

variable {β : Type}

/-! ## Pools are added and get tasks -/

/-- Every pool is still there, as it was but for tasks added at the end of its queue. -/
def Grown (m m' : PoolManager β) : Prop :=
  ∀ name p, m.map.find? name = some p → ∃ tasks, m'.map.find? name = some { p with queue := p.queue ++ tasks }

theorem Grown.refl (m : PoolManager β) : Grown m m := fun name p hp => ⟨[], by rw [List.append_nil]; exact hp⟩

theorem Grown.trans {m m' m'' : PoolManager β} (h : Grown m m') (h' : Grown m' m'') : Grown m m'' := by
  intro name p hp
  obtain ⟨tasks, ht⟩ := h name p hp
  obtain ⟨tasks', ht'⟩ := h' name _ ht
  exact ⟨tasks ++ tasks', by rw [← List.append_assoc]; exact ht'⟩

instance : Std.Refl (Grown : PoolManager β → PoolManager β → Prop) := ⟨Grown.refl⟩

instance : IsTrans (PoolManager β) Grown := ⟨fun _ _ _ => Grown.trans⟩

/-- The nodes that `create_pool` throws on. -/
def refuses (m : PoolManager β) (n : PoolNode) : Bool :=
  n.id.length = 0 ∨ n.numThreads = 0 ∨ (PoolNode.affinity n.cores).toOption = none ∨ (m.map.find? n.id).isSome

/-- `create_pool` throws on the nodes it refuses, and changes nothing then; another node adds a pool under a new name. -/
theorem createPool_cases (n : PoolNode) (m : PoolManager β) :
    (m.refuses n = true ∧ ∃ e, (createPool n).run m = .error e m) ∨
      (m.refuses n = false ∧ m.map.find? n.id = none ∧
        ∃ p, (createPool n).run m = .ok () { m with map := m.map.assign n.id p }) := by
  rw [run_createPool]
  by_cases hparse : n.id.length = 0 ∨ n.numThreads = 0
  · refine Or.inl ⟨decide_eq_true ?_, _, if_pos hparse⟩
    exact hparse.elim Or.inl fun h => Or.inr (Or.inl h)
  · rw [if_neg hparse]
    push Not at hparse
    cases haff : PoolNode.affinity n.cores with
    | error e => exact Or.inl ⟨by simp [refuses, haff, Except.toOption], e, rfl⟩
    | ok affinity =>
      cases hfind : m.map.find? n.id with
      | some p => exact Or.inl ⟨by simp [refuses, hfind], _, rfl⟩
      | none => exact Or.inr ⟨by simp [refuses, hparse, haff, hfind, Except.toOption], rfl, _, rfl⟩

theorem Grown.assign_new {m : PoolManager β} {name : String} (hnew : m.map.find? name = none) (p : ThreadPool β) :
    Grown m { m with map := m.map.assign name p } := by
  intro name' p' hp'
  have hne : name' ≠ name := by
    rintro rfl
    rw [hnew] at hp'
    cases hp'
  exact ⟨[], by rw [OrdMap.find?_assign, if_neg hne, List.append_nil]; exact hp'⟩

theorem createPool_grown (n : PoolNode) : Exn.Keeps Grown (createPool n : EStateM String (PoolManager β) Unit) := by
  intro m
  rcases createPool_cases n m with ⟨-, e, he⟩ | ⟨-, hnew, p, hp⟩
  · rw [he]
    exact Grown.refl m
  · rw [hp]
    exact Grown.assign_new hnew p

theorem addToPool_grown (name : String) (b : β) : Exn.Keeps Grown (addToPool name b) := by
  intro m
  simp only [addToPool, onPool, EStateM.run]
  cases hp : m.map.find? name with
  | none => exact Grown.refl m
  | some p =>
    -- the call changes only the pool, and that by one task or not at all
    have htask : ∃ tasks, Exn.leaves ((ThreadPool.addTask b).run p) = { p with queue := p.queue ++ tasks } := by
      rw [ThreadPool.run_addTask]
      split
      · exact ⟨[], by rw [List.append_nil]; rfl⟩
      · exact ⟨[b], rfl⟩
    obtain ⟨tasks, htasks⟩ := htask
    have hgrown : Grown m { m with map := m.map.assign name { p with queue := p.queue ++ tasks } } := by
      intro name' p' hp'
      rw [OrdMap.find?_assign]
      split
      · rename_i heq
        subst heq
        rw [hp] at hp'
        cases hp'
        exact ⟨tasks, rfl⟩
      · exact ⟨[], by rw [List.append_nil]; exact hp'⟩
    simp only [EStateM.run] at htasks
    rw [← htasks] at hgrown
    cases hrun : ThreadPool.addTask b p with
    | ok _ p' | error _ p' =>
      rw [hrun] at hgrown
      simp only [hrun]
      exact hgrown

/-- When all the nodes have been accepted, the pool of the first one is new and there. -/
theorem forM_createPool_cons {n : PoolNode} {ns : List PoolNode} {m m' : PoolManager β}
    (h : (forM (n :: ns) createPool).run m = .ok ⟨⟩ m') :
    m.refuses n = false ∧ m.map.find? n.id = none ∧ m'.map.find? n.id ≠ none := by
  rw [List.forM_cons, EStateM.run_bind] at h
  rcases createPool_cases n m with ⟨-, e, he⟩ | ⟨haccepts, hnew, p, hp⟩
  · rw [he] at h
    cases h
  · rw [hp] at h
    dsimp only at h
    refine ⟨haccepts, hnew, ?_⟩
    have hrest := Exn.keeps_forM createPool_grown ns { m with map := m.map.assign n.id p }
    rw [h] at hrest
    obtain ⟨tasks, ht⟩ := hrest n.id p (by rw [OrdMap.find?_assign, if_pos rfl])
    rw [Exn.leaves] at ht
    rw [ht]
    exact Option.some_ne_none _

end PoolManager

/-! ## The steps of an installation -/

/-- A step of `Composition::install`: an iteration of one of its loops, or the call of `initialize`. -/
inductive InstallStep (π : Type) where
  | block (n : BlockNode π)
  | link (l : ConnectionNode)
  | initializeBlocks

variable {π T : Type}

def InstallStep.exec (factory : BlockFactory π) : InstallStep π → EStateM String (Site T) Unit
  | .block n => Composition.installBlock factory n
  | .link l => Composition.installLink l
  | .initializeBlocks => Composition.initializeBlocks factory

def InstallNode.steps (config : InstallNode π) : List (InstallStep π) :=
  config.blocks.map .block ++ config.connections.map .link ++ [.initializeBlocks]

/-- `Composition::install` makes its steps one after the other. -/
theorem install_eq_steps (factory : BlockFactory π) (config : InstallNode π) :
    (Composition.install factory config : EStateM String (Site T) Unit) = forM config.steps (InstallStep.exec factory) := by
  have hlast : (InstallStep.exec factory .initializeBlocks >>= fun _ => pure ⟨⟩ : EStateM String (Site T) Unit) =
      Composition.initializeBlocks factory := bind_pure _
  simp only [InstallNode.steps, List.forM_append, List.forM_map, List.forM_cons, List.forM_nil, hlast, bind_assoc]
  rfl

/-! ## The steps only add -/

/-- Pools are added and get tasks between two states of an installation. -/
def Site.Grown (s s' : Site T) : Prop := PoolManager.Grown s.runtime.pools s'.runtime.pools

instance : Std.Refl (Site.Grown : Site T → Site T → Prop) := ⟨fun s => PoolManager.Grown.refl s.runtime.pools⟩

instance : IsTrans (Site T) Site.Grown := ⟨fun _ _ _ => PoolManager.Grown.trans⟩

open Exn

/-- A change of a site that leaves the pools alone. -/
theorem grown_of_pools_eq {s s' : Site T} (h : s'.runtime.pools = s.runtime.pools) : s.Grown s' := by
  rw [Site.Grown, h]
  exact PoolManager.Grown.refl _

theorem createBlockFromParsed_grown (factory : BlockFactory π) (type name : String) (invocation : InvocationType)
    (n : BlockNode π) :
    Keeps Site.Grown (Composition.createBlockFromParsed factory type name invocation n : EStateM String (Site T) Block) := by
  simp only [Composition.createBlockFromParsed]
  cases factory.registered type with
  | none => exact keeps_throw _
  | some cls =>
    refine keeps_bind keeps_get fun s => keeps_bind (keeps_ofExcept _) fun _ => ?_
    refine keeps_bind (keeps_modify fun _ => grown_of_pools_eq rfl) fun _ => keeps_bind (keeps_ofExcept _) fun _ => ?_
    exact keeps_bind (keeps_modify fun _ => grown_of_pools_eq rfl) fun _ => keeps_pure _

theorem addToPool_site_grown (name : String) (b : Nat) :
    Keeps Site.Grown (Site.onRuntime (Runtime.onPools (PoolManager.addToPool name b)) : EStateM String (Site T) Unit) := by
  refine keeps_onPart (Q := fun r r' : Runtime T => PoolManager.Grown r.pools r'.pools) ?_ fun _ _ h => h
  exact keeps_onPart (PoolManager.addToPool_grown name b) fun _ _ h => h

theorem installBlock_grown (factory : BlockFactory π) (n : BlockNode π) :
    Keeps Site.Grown (Composition.installBlock factory n : EStateM String (Site T) Unit) := by
  refine keeps_check (keeps_bind (createBlockFromParsed_grown factory _ _ _ n) fun sp => keeps_ite ?_ (keeps_pure _))
  exact keeps_check (addToPool_site_grown _ _)

theorem installLink_grown (l : ConnectionNode) : Keeps Site.Grown (Composition.installLink l : EStateM String (Site T) Unit) := by
  refine keeps_check (keeps_check (keeps_check (keeps_check (keeps_bind keeps_get fun s => ?_))))
  refine keeps_onPart (Q := fun r r' : Runtime T => r'.pools = r.pools) ?_ fun _ _ h => grown_of_pools_eq h
  exact keeps_onPart (Q := fun _ _ => True) (fun _ => trivial) fun _ _ _ => rfl

/-- The links are in the gates, and `initialize` changes neither the composition nor the pools. -/
theorem exec_grown (factory : BlockFactory π) (k : InstallStep π) :
    Keeps Site.Grown (k.exec factory : EStateM String (Site T) Unit) := by
  cases k with
  | block n => exact installBlock_grown factory n
  | link l => exact installLink_grown l
  | initializeBlocks => exact keeps_bind keeps_get fun s => keeps_forM (fun e => keeps_ofExcept _) _

/-! ## The object of a node -/

theorem foldl_registerInputGate (names : List String) (b : Block) :
    (names.foldl Block.registerInputGate b).addr = b.addr ∧ (names.foldl Block.registerInputGate b).invocation = b.invocation := by
  induction names generalizing b with
  | nil => exact ⟨rfl, rfl⟩
  | cons name names ih => exact ih (b.registerInputGate name)

theorem foldl_registerOutputGate (names : List String) (b : Block) :
    (names.foldl Block.registerOutputGate b).addr = b.addr ∧
      (names.foldl Block.registerOutputGate b).invocation = b.invocation := by
  induction names generalizing b with
  | nil => exact ⟨rfl, rfl⟩
  | cons name names ih => exact ih (b.registerOutputGate name)

/-- Registering gates changes neither the address nor the invocation. -/
theorem BlockClass.block_spec (cls : BlockClass π) (addr : Nat) (name : String) (invocation : InvocationType) :
    (cls.block addr name invocation).addr = addr ∧ (cls.block addr name invocation).invocation = cls.settles invocation := by
  have hout := foldl_registerOutputGate cls.outputGates
    (cls.inputGates.foldl Block.registerInputGate (Block.new addr name (cls.settles invocation)))
  have hin := foldl_registerInputGate cls.inputGates (Block.new addr name (cls.settles invocation))
  exact ⟨hout.1.trans hin.1, hout.2.trans hin.2⟩

/-- What making a block leaves: no new block, or one of a class at the next address. -/
theorem Composition.leaves_createBlockFromParsed (factory : BlockFactory π) (type name : String) (invocation : InvocationType)
    (n : BlockNode π) (s : Site T) :
    let s' := leaves ((createBlockFromParsed factory type name invocation n).run s)
    s'.runtime.gates = s.runtime.gates ∧ s'.runtime.running = s.runtime.running ∧ s.runtime.nextAddr ≤ s'.runtime.nextAddr ∧
      (s'.composition.map = s.composition.map ∨
        ∃ cls : BlockClass π, s'.composition.map = s.composition.map.assign name (cls.block s.runtime.nextAddr name invocation) ∧
          s'.runtime.nextAddr = s.runtime.nextAddr + 1) := by
  intro s'
  have hs' : s' = leaves ((createBlockFromParsed factory type name invocation n).run s) := rfl
  unfold createBlockFromParsed at hs'
  cases hcls : factory.registered type with
  | none =>
    rw [hcls] at hs'
    rw [hs']
    exact ⟨rfl, rfl, le_refl _, Or.inl rfl⟩
  | some cls =>
    rw [hcls] at hs'
    simp only [EStateM.run_bind, EStateM.run_get, run_ofExcept] at hs'
    cases hconstruct : cls.construct (cls.block s.runtime.nextAddr name invocation) with
    | error e =>
      rw [hconstruct] at hs'
      rw [hs']
      exact ⟨rfl, rfl, le_refl _, Or.inl rfl⟩
    | ok u =>
      cases hconfigure : cls.configure (cls.block s.runtime.nextAddr name invocation) n with
      | error e =>
        simp only [hconstruct, hconfigure] at hs'
        rw [hs']
        exact ⟨rfl, rfl, Nat.le_succ _, Or.inl rfl⟩
      | ok u =>
        simp only [hconstruct, hconfigure] at hs'
        rw [hs']
        exact ⟨rfl, rfl, Nat.le_succ _, Or.inr ⟨cls, rfl, rfl⟩⟩

/-! ## The links of the blocks that were there -/

/-- The gates of the blocks before address `a` have the peers they had, and no queue has changed. -/
def Gates.KeptBelow (a : Nat) (g g' : Gates T) : Prop :=
  (∀ s x, x.block < a → g'.peers s x = g.peers s x) ∧ g'.queue = g.queue

instance (a : Nat) : Std.Refl (Gates.KeptBelow (T := T) a) := ⟨fun _ => ⟨fun _ _ _ => rfl, rfl⟩⟩

instance (a : Nat) : IsTrans (Gates T) (Gates.KeptBelow a) where
  trans _ _ _ h h' := ⟨fun s x hx => (h'.1 s x hx).trans (h.1 s x hx), h'.2.trans h.2⟩

/-- A gate of a later block gets a peer. -/
theorem Gates.connect_kept {a : Nat} (s : HalfEdges.Side) {x : GateRef} (hx : a ≤ x.block) (y : GateRef) :
    Keeps (KeptBelow (T := T) a) (connect s x y) := by
  refine keeps_modify fun g => ⟨fun s' x' hx' => HalfEdges.Adj.set_of_ne (Or.inr ?_), rfl⟩
  rintro rfl
  exact absurd hx' (Nat.not_lt.mpr hx)

/-- All the blocks of the composition have addresses from `a` on. -/
def Composition.From (a : Nat) (m : Composition) : Prop := ∀ name b, m.map.find? name = some b → a ≤ b.addr

/-- The gates that are linked are those of blocks of the composition. -/
theorem Composition.createLink_kept {a : Nat} {m : Composition} (hm : m.From a) (fromBlock fromGate toBlock toGate : String) :
    Keeps (Gates.KeptBelow (T := T) a) (m.createLink fromBlock fromGate toBlock toGate) := by
  have hsource : ∀ src, m.findOutputGate fromBlock fromGate = .ok src → a ≤ src.block := by
    intro src hsrc
    unfold findOutputGate at hsrc
    cases hb : m.map.find? fromBlock with
    | none =>
      rw [hb] at hsrc
      cases hsrc
    | some b =>
      simp only [hb, Block.getOutputGate] at hsrc
      split at hsrc
      · cases hsrc
      · cases hsrc
        exact hm fromBlock b hb
  have htarget : ∀ dst, m.findInputGate toBlock toGate = .ok dst → a ≤ dst.block := by
    intro dst hdst
    unfold findInputGate at hdst
    cases hb : m.map.find? toBlock with
    | none =>
      rw [hb] at hdst
      cases hdst
    | some b =>
      simp only [hb, Block.getInputGate] at hdst
      split at hdst
      · cases hdst
      · cases hdst
        exact hm toBlock b hb
  refine keeps_ofExcept_bind fun src hsrc => keeps_ofExcept_bind fun dst hdst => ?_
  exact keeps_bind (Gates.connect_kept .left (htarget dst hdst) src) fun _ => Gates.connect_kept .right (hsource src hsrc) dst

/-- An installation whose blocks have addresses from `a` on leaves the other blocks alone: their links, their queues and whether a worker
has taken them. -/
def Site.OthersKept (a : Nat) (s s' : Site T) : Prop :=
  a ≤ s.runtime.nextAddr ∧ s.composition.From a →
    (a ≤ s'.runtime.nextAddr ∧ s'.composition.From a) ∧ s.runtime.gates.KeptBelow a s'.runtime.gates ∧
      s'.runtime.running = s.runtime.running

instance (a : Nat) : Std.Refl (Site.OthersKept (T := T) a) :=
  ⟨fun s h => ⟨h, refl_of (Gates.KeptBelow a) s.runtime.gates, rfl⟩⟩

instance (a : Nat) : IsTrans (Site T) (Site.OthersKept a) where
  trans _ _ _ h h' hs := by
    obtain ⟨hm, hgates, hrunning⟩ := h hs
    obtain ⟨hs', hgates', hrunning'⟩ := h' hm
    exact ⟨hs', trans_of (Gates.KeptBelow a) hgates hgates', hrunning'.trans hrunning⟩

/-- A block that is made has the next address. -/
theorem createBlockFromParsed_others (a : Nat) (factory : BlockFactory π) (type name : String) (invocation : InvocationType)
    (n : BlockNode π) : Keeps (Site.OthersKept (T := T) a) (Composition.createBlockFromParsed factory type name invocation n) := by
  rintro s ⟨hnext, hfrom⟩
  obtain ⟨hgates, hrunning, hnext', hmap⟩ := Composition.leaves_createBlockFromParsed factory type name invocation n s
  refine ⟨⟨Nat.le_trans hnext hnext', ?_⟩, hgates ▸ refl_of (Gates.KeptBelow a) s.runtime.gates, hrunning⟩
  intro name' b hb
  rcases hmap with hmap | ⟨cls, hmap, -⟩
  · rw [hmap] at hb
    exact hfrom name' b hb
  · rw [hmap, OrdMap.find?_assign] at hb
    split at hb
    · cases hb
      rw [(cls.block_spec _ _ _).1]
      exact hnext
    · exact hfrom name' b hb

/-- The pools are not part of what is kept. -/
theorem installBlock_others (a : Nat) (factory : BlockFactory π) (n : BlockNode π) :
    Keeps (Site.OthersKept (T := T) a) (Composition.installBlock factory n) := by
  refine keeps_check (keeps_bind (createBlockFromParsed_others a factory _ _ _ n) fun sp => keeps_ite ?_ (keeps_pure _))
  refine keeps_check (keeps_onPart (Q := fun r r' : Runtime T => r'.gates = r.gates ∧ r'.nextAddr = r.nextAddr ∧ r'.running = r.running) ?_ ?_)
  · exact keeps_onPart (Q := fun _ _ => True) (fun _ => trivial) fun _ _ _ => ⟨rfl, rfl, rfl⟩
  · rintro s r ⟨hgates, hnext, hrunning⟩ ⟨hle, hfrom⟩
    exact ⟨⟨hnext.symm ▸ hle, hfrom⟩, hgates.symm ▸ refl_of (Gates.KeptBelow a) s.runtime.gates, hrunning⟩

/-- A link is between blocks of the new composition. -/
theorem installLink_others (a : Nat) (l : ConnectionNode) : Keeps (Site.OthersKept (T := T) a) (Composition.installLink l) := by
  refine keeps_check (keeps_check (keeps_check (keeps_check ?_)))
  rintro s ⟨hnext, hfrom⟩
  have hkept := Composition.createLink_kept (T := T) hfrom l.srcBlock l.srcGate l.dstBlock l.dstGate s.runtime.gates
  rw [EStateM.run_bind, EStateM.run_get]
  dsimp only
  rw [Site.onRuntime, leaves_onPart, Runtime.onGates, leaves_onPart]
  exact ⟨⟨hnext, hfrom⟩, hkept, rfl⟩

/-- Every step of an installation leaves the other blocks alone. -/
theorem exec_others (a : Nat) (factory : BlockFactory π) (k : InstallStep π) :
    Keeps (Site.OthersKept (T := T) a) (k.exec factory) := by
  cases k with
  | block n => exact installBlock_others a factory n
  | link l => exact installLink_others a l
  | initializeBlocks => exact keeps_bind keeps_get fun s => keeps_forM (fun e => keeps_ofExcept _) _

end Blockmon
