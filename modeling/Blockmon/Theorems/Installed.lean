import Mathlib.Data.List.Nodup
import Blockmon.Lemmas.Installed

/-!
# The pools serve the queued blocks

`InGate::receive` queues a message for a block whose own invocation is not `Direct`, so such a block needs a pool to run it.
`install` puts a block into a pool by the invocation that its node asks for, and the block's constructor may settle on another one.
-/

namespace Blockmon

variable {π T : Type}

/-- Every block that queues its messages is a task of one pool, once; the other blocks are tasks of none; every task is a block of
the composition. -/
structure Site.ServesBlocks (s : Site T) : Prop where
  queued : ∀ name b, s.composition.map.find? name = some b → b.invocation ≠ .Direct →
    ∃ pool p, s.runtime.pools.map.find? pool = some p ∧ p.queue.count b.addr = 1 ∧
      ∀ pool' p', s.runtime.pools.map.find? pool' = some p' → b.addr ∈ p'.queue → pool' = pool
  direct : ∀ name b, s.composition.map.find? name = some b → b.invocation = .Direct →
    ∀ pool p, s.runtime.pools.map.find? pool = some p → b.addr ∉ p.queue
  blocks : ∀ pool p, s.runtime.pools.map.find? pool = some p → ∀ a ∈ p.queue,
    ∃ name b, s.composition.map.find? name = some b ∧ b.addr = a

/-- Every node whose name a later node takes asks for direct invocation, and every other node asks for a thread pool exactly if
its class settles on an invocation other than `Direct`. -/
def AsksAsSettled (factory : BlockFactory π) (ns : List (BlockNode π)) : Prop :=
  ∀ (i : Nat) (n : BlockNode π), ns[i]? = some n →
    if n.replaced ns i then n.queued = false else (n.queued = true ↔ n.settled factory ≠ .Direct)

namespace Placed

variable {factory : BlockFactory π} {start : Nat} {ns : List (BlockNode π)} {s : Site T}

/-- Two nodes with objects at the same address are the same node. -/
theorem same_node {i j : Nat} {n n' : BlockNode π} (hi : ns[i]? = some n) (hj : ns[j]? = some n') (h : start + i = start + j) :
    i = j ∧ n = n' := by
  obtain rfl : i = j := by omega
  rw [hi] at hj
  exact ⟨rfl, Option.some.inj hj⟩

/-- A node that nothing replaces has its object in the map. -/
theorem find?_of_last (h : Placed factory start ns s) (hreg : ∀ n ∈ ns, (factory.registered n.type).isSome) {i : Nat}
    {n : BlockNode π} (hi : ns[i]? = some n) (hlast : n.replaced ns i = false) :
    ∃ b, s.composition.map.find? n.id = some b ∧ b.addr = start + i ∧ b.invocation = n.settled factory := by
  obtain ⟨cls, hcls⟩ := Option.isSome_iff_exists.mp (hreg n (List.mem_of_getElem? hi))
  have hobject : n.object factory (start + i) = some (cls.block (start + i) n.id n.invocationType) := by
    rw [BlockNode.object, hcls]
    rfl
  obtain ⟨haddr, hinv⟩ := BlockNode.object_spec hobject
  exact ⟨_, (h.map n.id _).mpr ⟨i, n, hi, hlast, rfl, hobject⟩, haddr, hinv⟩

/-- Blocks that are served ask for what they have been installed with. -/
theorem asksAsSettled (h : Placed factory start ns s) (hreg : ∀ n ∈ ns, (factory.registered n.type).isSome)
    (hserves : s.ServesBlocks) : AsksAsSettled factory ns := by
  intro i n hi
  cases hlast : n.replaced ns i with
  | true =>
    -- a task of a node that was replaced is no block of the map
    rw [if_pos rfl]
    by_contra hq
    rw [Bool.not_eq_false] at hq
    obtain ⟨p, hp⟩ := h.served i n hi hq
    obtain ⟨name, b, hb, haddr⟩ := hserves.blocks _ p hp (start + i) ((h.tasks _ p hp _).mpr ⟨i, n, hi, hq, rfl, rfl⟩)
    obtain ⟨j, n', hj, hlast', -, hobject⟩ := (h.map name b).mp hb
    obtain ⟨rfl, rfl⟩ := same_node hj hi ((BlockNode.object_spec hobject).1.symm.trans haddr)
    rw [hlast] at hlast'
    cases hlast'
  | false =>
    simp only [Bool.false_eq_true, if_false]
    obtain ⟨b, hb, haddr, hinv⟩ := h.find?_of_last hreg hi hlast
    constructor
    · intro hq hdirect
      obtain ⟨p, hp⟩ := h.served i n hi hq
      refine hserves.direct n.id b hb (hinv.trans hdirect) _ p hp ?_
      rw [haddr]
      exact (h.tasks _ p hp _).mpr ⟨i, n, hi, hq, rfl, rfl⟩
    · intro hsettled
      obtain ⟨pool, p, hp, hcount, -⟩ := hserves.queued n.id b hb (by rw [hinv]; exact hsettled)
      have hmem : b.addr ∈ p.queue := List.count_pos_iff.mp (by omega)
      rw [haddr] at hmem
      obtain ⟨j, n', hj, hq', -, haddr'⟩ := (h.tasks pool p hp _).mp hmem
      obtain ⟨rfl, rfl⟩ := same_node hi hj haddr'
      exact hq'

/-- Blocks that ask for what they have been installed with are served. -/
theorem servesBlocks (h : Placed factory start ns s) (hreg : ∀ n ∈ ns, (factory.registered n.type).isSome)
    (hasks : AsksAsSettled factory ns) : s.ServesBlocks := by
  refine ⟨fun name b hb hinv => ?_, fun name b hb hinv pool p hp hmem => ?_, fun pool p hp a ha => ?_⟩
  · obtain ⟨i, n, hi, hlast, -, hobject⟩ := (h.map name b).mp hb
    obtain ⟨haddr, hsettled⟩ := BlockNode.object_spec hobject
    have hn := hasks i n hi
    rw [hlast] at hn
    have hq : n.queued = true := hn.mpr (by rw [← hsettled]; exact hinv)
    obtain ⟨p, hp⟩ := h.served i n hi hq
    refine ⟨n.threadpool, p, hp, ?_, fun pool' p' hp' hmem => ?_⟩
    · refine List.count_eq_one_of_mem (h.nodup _ p hp) ?_
      rw [haddr]
      exact (h.tasks _ p hp _).mpr ⟨i, n, hi, hq, rfl, rfl⟩
    · rw [haddr] at hmem
      obtain ⟨j, n', hj, -, hpool, haddr'⟩ := (h.tasks pool' p' hp' _).mp hmem
      obtain ⟨rfl, rfl⟩ := same_node hi hj haddr'
      exact hpool.symm
  · obtain ⟨i, n, hi, hlast, -, hobject⟩ := (h.map name b).mp hb
    obtain ⟨haddr, hsettled⟩ := BlockNode.object_spec hobject
    rw [haddr] at hmem
    obtain ⟨j, n', hj, hq, -, haddr'⟩ := (h.tasks pool p hp _).mp hmem
    obtain ⟨rfl, rfl⟩ := same_node hi hj haddr'
    have hn := hasks i n hi
    rw [hlast] at hn
    exact hn.mp hq (hsettled.symm.trans hinv)
  · obtain ⟨i, n, hi, hq, -, rfl⟩ := (h.tasks pool p hp a).mp ha
    have hn := hasks i n hi
    cases hlast : n.replaced ns i with
    | true =>
      rw [hlast, if_pos rfl, hq] at hn
      cases hn
    | false =>
      obtain ⟨b, hb, haddr, -⟩ := h.find?_of_last hreg hi hlast
      exact ⟨n.id, b, hb, haddr⟩

end Placed

/-- An installation that returns has found the class of every block. -/
theorem install_registered {factory : BlockFactory π} {config : InstallNode π} {s s' : Site T}
    (hrun : (Composition.install factory config).run s = .ok () s') :
    ∀ n ∈ config.blocks, (factory.registered n.type).isSome := by
  unfold Composition.install at hrun
  obtain ⟨u, m, hblocks, -⟩ := Exn.bind_eq_ok.mp hrun
  refine Exn.forM_ok_inv (I := fun done _ => ∀ n ∈ done, (factory.registered n.type).isSome) ?_ (by simp) hblocks
  intro done k t t' hdone hk n hn
  rcases List.mem_append.mp hn with hn | hn
  · exact hdone n hn
  · obtain rfl := List.mem_singleton.mp hn
    obtain ⟨b, hobject, -⟩ := installBlock_ok hk
    unfold BlockNode.object at hobject
    obtain ⟨cls, hcls, -⟩ := Option.map_eq_some_iff.mp hobject
    rw [hcls]
    rfl

/-- After an installation into empty pools that returned, the pools serve the blocks exactly if the document asks for a pool where
the block classes settle on a queued invocation. -/
theorem install_serves_iff (factory : BlockFactory π) (config : InstallNode π) (appId : String) (r : Runtime T) (s : Site T)
    (hempty : ∀ pool p, r.pools.map.find? pool = some p → p.queue = [])
    (hrun : (Composition.install factory config).run ⟨Composition.new appId, r⟩ = .ok () s) :
    s.ServesBlocks ↔ AsksAsSettled factory config.blocks := by
  have hplaced := install_placed hempty hrun
  have hreg := install_registered hrun
  exact ⟨hplaced.asksAsSettled hreg, hplaced.servesBlocks hreg⟩

/-- `FlowMeter` is `Indirect` whatever its constructor is given. -/
def meterFactory : BlockFactory Unit where
  registered type :=
    if type = "FlowMeter" then
      some
        { settles := fun _ => .Indirect, inputGates := ["in_pkt"], outputGates := ["out_flow"], construct := fun _ => .ok ()
          configure := fun _ _ => .ok () }
    else none
  initializeBlock _ := .ok ()

/-- A flow meter with the given `invocation` attribute, and `threadpool` set. -/
def meterInstall (invocation : String) : InstallNode Unit :=
  { threadpools := [], blocks := [⟨"meter", "FlowMeter", "p", "", invocation, ()⟩], connections := [] }

/-- One thread pool, without tasks. -/
def onePool : Runtime Unit :=
  { pools := { map := OrdMap.empty.assign "p" (ThreadPool.new 1 []), running := false }, gates := Gates.new, nextAddr := 0, running := [] }

/-- The one pool has an empty queue. -/
theorem onePool_empty (pool : String) (p : ThreadPool Nat) (hp : onePool.pools.map.find? pool = some p) : p.queue = [] := by
  unfold onePool at hp
  rw [OrdMap.find?_assign] at hp
  split at hp <;> cases hp
  rfl

/-- The installation of a flow meter, with a result. -/
theorem run_meterInstall {i : String}
    (h : Exn.returns ((Composition.install meterFactory (meterInstall i)).run ⟨Composition.new "app", onePool⟩) = true) :
    ∃ s, (Composition.install meterFactory (meterInstall i)).run ⟨Composition.new "app", onePool⟩ = .ok () s :=
  ⟨_, Exn.eq_ok_of_returns h⟩

/-- A flow meter whose node says `indirect` is served. -/
theorem install_serves_iff_meter : ∃ s, (Composition.install meterFactory (meterInstall "indirect")).run
    ⟨Composition.new "app", onePool⟩ = .ok () s ∧ s.ServesBlocks := by
  obtain ⟨s, hrun⟩ := run_meterInstall (i := "indirect") (by decide +kernel)
  refine ⟨s, hrun, (install_serves_iff meterFactory _ "app" onePool s onePool_empty hrun).mpr ?_⟩
  intro i n hi
  cases i with
  | zero =>
    obtain rfl : ⟨"meter", "FlowMeter", "p", "", "indirect", ()⟩ = n := Option.some.inj hi
    decide +kernel
  | succ i => cases hi

/-- A flow meter whose node does not say how it is invoked queues its packets and is a task of no pool. -/
theorem install_leaves_meter_unserved : ¬∀ (factory : BlockFactory Unit) (config : InstallNode Unit) (appId : String)
    (r : Runtime Unit) (s : Site Unit), (∀ pool p, r.pools.map.find? pool = some p → p.queue = []) →
      (Composition.install factory config).run ⟨Composition.new appId, r⟩ = .ok () s → s.ServesBlocks := by
  intro hall
  obtain ⟨s, hrun⟩ := run_meterInstall (i := "") (by decide +kernel)
  have hplaced := install_placed onePool_empty hrun
  have hasks := hplaced.asksAsSettled (install_registered hrun) (hall _ _ _ _ s onePool_empty hrun)
  have hmeter := hasks 0 ⟨"meter", "FlowMeter", "p", "", "", ()⟩ rfl
  revert hmeter
  decide +kernel

end Blockmon
