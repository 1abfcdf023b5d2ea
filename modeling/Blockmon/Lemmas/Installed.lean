import Blockmon.Lemmas.CompositionManager

/-!
# What an installation that returns leaves

`Placed` describes the composition and the pools after the loop over the blocks: the block under a name is made from the last node
with that name, and the tasks of a pool are the blocks whose nodes asked for it. `install_placed` says that an installation that
returns leaves this.
-/

namespace Blockmon

open Exn

variable {π T : Type}

namespace BlockNode

/-- The node asks for a thread pool. -/
def queued (n : BlockNode π) : Bool := n.invocationType ≠ .Direct

/-- The invocation that the class of the node settles on. -/
def settled (factory : BlockFactory π) (n : BlockNode π) : InvocationType :=
  match factory.registered n.type with
  | none => n.invocationType
  | some cls => cls.settles n.invocationType

/-- The object made from the node at an address. -/
def object (factory : BlockFactory π) (n : BlockNode π) (addr : Nat) : Option Block :=
  (factory.registered n.type).map fun cls => cls.block addr n.id n.invocationType

/-- A later node has the name of node `i`. -/
def replaced (ns : List (BlockNode π)) (i : Nat) (n : BlockNode π) : Bool := (ns.drop (i + 1)).any fun n' => n'.id = n.id

end BlockNode

/-! ## The object of a node -/

theorem BlockNode.object_spec {factory : BlockFactory π} {n : BlockNode π} {addr : Nat} {b : Block}
    (h : n.object factory addr = some b) : b.addr = addr ∧ b.invocation = n.settled factory := by
  unfold BlockNode.object at h
  obtain ⟨cls, hcls, rfl⟩ := Option.map_eq_some_iff.mp h
  unfold BlockNode.settled
  rw [hcls]
  exact cls.block_spec addr n.id n.invocationType

/-! ## One iteration -/

theorem createBlockFromParsed_ok {factory : BlockFactory π} {n : BlockNode π} {s s' : Site T} {b : Block}
    (h : (Composition.createBlockFromParsed factory n.type n.id n.invocationType n).run s = .ok b s') :
    n.object factory s.runtime.nextAddr = some b ∧
      s' = ⟨{ s.composition with map := s.composition.map.assign n.id b },
        { s.runtime with nextAddr := s.runtime.nextAddr + 1 }⟩ := by
  unfold Composition.createBlockFromParsed at h
  cases hcls : factory.registered n.type with
  | none =>
    rw [hcls] at h
    cases h
  | some cls =>
    rw [hcls] at h
    obtain ⟨s₀, m₀, hget, h⟩ := bind_eq_ok.mp h
    cases hget
    obtain ⟨u, m₁, hconstruct, h⟩ := bind_eq_ok.mp h
    obtain ⟨u, m₂, hmodify, h⟩ := bind_eq_ok.mp h
    obtain ⟨u, m₃, hconfigure, h⟩ := bind_eq_ok.mp h
    rw [run_ofExcept] at hconstruct hconfigure
    split at hconstruct
    · cases hconstruct
      cases hmodify
      split at hconfigure
      · cases hconfigure
        cases h
        exact ⟨by rw [BlockNode.object, hcls]; rfl, rfl⟩
      · cases hconfigure
    · cases hconstruct

theorem addToPool_ok {β : Type} {name : String} {b : β} {m m' : PoolManager β}
    (h : (PoolManager.addToPool name b).run m = .ok () m') :
    ∃ p, m.map.find? name = some p ∧ m' = { m with map := m.map.assign name { p with queue := p.queue ++ [b] } } := by
  simp only [PoolManager.addToPool, PoolManager.onPool, EStateM.run] at h
  cases hp : m.map.find? name with
  | none =>
    rw [hp] at h
    cases h
  | some p =>
    have hrun := ThreadPool.run_addTask b p
    simp only [EStateM.run] at hrun
    by_cases hrunning : p.running = true
    · rw [if_pos hrunning] at hrun
      simp only [hp, hrun] at h
      cases h
    · rw [if_neg hrunning] at hrun
      simp only [hp, hrun] at h
      cases h
      exact ⟨p, rfl, rfl⟩

theorem installBlock_ok {factory : BlockFactory π} {n : BlockNode π} {s s' : Site T}
    (h : (Composition.installBlock factory n).run s = .ok () s') :
    ∃ b, n.object factory s.runtime.nextAddr = some b ∧
      s'.composition.map = s.composition.map.assign n.id b ∧ s'.runtime.nextAddr = s.runtime.nextAddr + 1 ∧
      if n.queued then
        ∃ p, s.runtime.pools.map.find? n.threadpool = some p ∧ s'.runtime.pools.map =
          s.runtime.pools.map.assign n.threadpool { p with queue := p.queue ++ [s.runtime.nextAddr] }
      else s'.runtime.pools = s.runtime.pools := by
  obtain ⟨-, h⟩ := check_eq_ok.mp h
  obtain ⟨b, m, hcreate, h⟩ := bind_eq_ok.mp h
  obtain ⟨hobject, rfl⟩ := createBlockFromParsed_ok hcreate
  have haddr := (BlockNode.object_spec hobject).1
  refine ⟨b, hobject, ?_⟩
  cases hq : n.queued with
  | true =>
    have hinv : n.invocationType = .Indirect ∨ n.invocationType = .Async := by
      unfold BlockNode.queued at hq
      cases hinv : n.invocationType with
      | Direct =>
        rw [hinv] at hq
        cases hq
      | Indirect => exact Or.inl rfl
      | Async => exact Or.inr rfl
    rw [if_pos hinv] at h
    obtain ⟨-, h⟩ := check_eq_ok.mp h
    simp only [Site.onRuntime, Runtime.onPools, onPart_onPart, run_onPart] at h
    cases hadd : (PoolManager.addToPool n.threadpool b.addr).run s.runtime.pools with
    | error e m =>
      rw [hadd] at h
      cases h
    | ok u m =>
      rw [hadd] at h
      cases h
      obtain ⟨p, hp, rfl⟩ := addToPool_ok hadd
      exact ⟨rfl, rfl, p, hp, by rw [haddr]⟩
  | false =>
    have hinv : ¬(n.invocationType = .Indirect ∨ n.invocationType = .Async) := by
      unfold BlockNode.queued at hq
      rintro (hinv | hinv) <;> rw [hinv] at hq <;> cases hq
    rw [if_neg hinv] at h
    cases h
    exact ⟨rfl, rfl, rfl⟩

/-! ## The loop over the blocks -/

/-- What the loop has made of the nodes `ns`, with objects from address `start` on. -/
structure Placed (factory : BlockFactory π) (start : Nat) (ns : List (BlockNode π)) (s : Site T) : Prop where
  next : s.runtime.nextAddr = start + ns.length
  map : ∀ name b, s.composition.map.find? name = some b ↔
    ∃ (i : Nat) (n : BlockNode π), ns[i]? = some n ∧ n.replaced ns i = false ∧ n.id = name ∧ n.object factory (start + i) = some b
  nodup : ∀ pool p, s.runtime.pools.map.find? pool = some p → p.queue.Nodup
  tasks : ∀ pool p, s.runtime.pools.map.find? pool = some p → ∀ a, a ∈ p.queue ↔
    ∃ (i : Nat) (n : BlockNode π), ns[i]? = some n ∧ n.queued = true ∧ n.threadpool = pool ∧ a = start + i
  served : ∀ (i : Nat) (n : BlockNode π), ns[i]? = some n → n.queued = true → ∃ p, s.runtime.pools.map.find? n.threadpool = some p

theorem BlockNode.replaced_snoc {ns : List (BlockNode π)} {i : Nat} (hi : i < ns.length) (n n' : BlockNode π) :
    n'.replaced (ns ++ [n]) i = (n'.replaced ns i || decide (n.id = n'.id)) := by
  unfold BlockNode.replaced
  rw [List.drop_append_of_le_length (by omega), List.any_append]
  simp

theorem BlockNode.replaced_last (ns : List (BlockNode π)) (n n' : BlockNode π) : n'.replaced (ns ++ [n]) ns.length = false := by
  unfold BlockNode.replaced
  rw [List.drop_eq_nil_of_le (by simp)]
  rfl

/-- The nodes of a list with one more at its end. -/
theorem getElem?_snoc {α : Type} {xs : List α} {x y : α} {i : Nat} :
    (xs ++ [x])[i]? = some y ↔ (i < xs.length ∧ xs[i]? = some y) ∨ (i = xs.length ∧ x = y) := by
  rcases Nat.lt_trichotomy i xs.length with hi | rfl | hi
  · rw [List.getElem?_append_left hi]
    constructor
    · intro h
      exact Or.inl ⟨hi, h⟩
    · rintro (⟨-, h⟩ | ⟨rfl, -⟩)
      · exact h
      · exact absurd hi (Nat.lt_irrefl _)
  · simp
  · rw [List.getElem?_eq_none (by simp; omega)]
    constructor
    · intro h
      cases h
    · rintro (⟨h, -⟩ | ⟨h, -⟩) <;> omega

theorem Placed.map_snoc {factory : BlockFactory π} {start : Nat} {ns : List (BlockNode π)} {n : BlockNode π} {s s' : Site T}
    (h : Placed factory start ns s) {b : Block} (hobject : n.object factory (start + ns.length) = some b)
    (hmap : s'.composition.map = s.composition.map.assign n.id b) (name : String) (b' : Block) :
    s'.composition.map.find? name = some b' ↔ ∃ (i : Nat) (n' : BlockNode π), (ns ++ [n])[i]? = some n' ∧ n'.replaced (ns ++ [n]) i = false ∧
      n'.id = name ∧ n'.object factory (start + i) = some b' := by
  rw [hmap, OrdMap.find?_assign]
  split
  · -- the new node is the last one with its name
    rename_i hname
    constructor
    · intro hb
      cases hb
      exact ⟨ns.length, n, getElem?_snoc.mpr (Or.inr ⟨rfl, rfl⟩), BlockNode.replaced_last ns n n, hname.symm, hobject⟩
    · rintro ⟨i, n', hi, hlast, hid, hb'⟩
      rcases getElem?_snoc.mp hi with ⟨hlt, -⟩ | ⟨rfl, rfl⟩
      · rw [BlockNode.replaced_snoc hlt, Bool.or_eq_false_iff] at hlast
        exact absurd (hname.symm.trans hid.symm) (of_decide_eq_false hlast.2)
      · rw [hobject] at hb'
        exact hb'
  · rename_i hname
    rw [h.map]
    constructor
    · rintro ⟨i, n', hi, hlast, hid, hb'⟩
      have hlt : i < ns.length := (List.getElem?_eq_some_iff.mp hi).1
      refine ⟨i, n', getElem?_snoc.mpr (Or.inl ⟨hlt, hi⟩), ?_, hid, hb'⟩
      rw [BlockNode.replaced_snoc hlt, hlast, Bool.false_or]
      exact decide_eq_false fun hc => hname (hid.symm.trans hc.symm)
    · rintro ⟨i, n', hi, hlast, hid, hb'⟩
      rcases getElem?_snoc.mp hi with ⟨hlt, hi⟩ | ⟨rfl, rfl⟩
      · rw [BlockNode.replaced_snoc hlt, Bool.or_eq_false_iff] at hlast
        exact ⟨i, n', hi, hlast.1, hid, hb'⟩
      · exact absurd hid.symm hname

theorem Placed.new (factory : BlockFactory π) (appId : String) {r : Runtime T}
    (hempty : ∀ pool p, r.pools.map.find? pool = some p → p.queue = []) :
    Placed factory r.nextAddr [] ⟨Composition.new appId, r⟩ where
  next := rfl
  map := by
    intro name b
    constructor
    · intro h
      cases h
    · rintro ⟨i, n, hi, -⟩
      cases hi
  nodup := by
    intro pool p hp
    rw [hempty pool p hp]
    exact List.nodup_nil
  tasks := by
    intro pool p hp a
    rw [hempty pool p hp]
    constructor
    · intro h
      cases h
    · rintro ⟨i, n, hi, -⟩
      cases hi
  served := by
    intro i n hi
    cases hi

theorem Placed.snoc {factory : BlockFactory π} {start : Nat} {ns : List (BlockNode π)} {n : BlockNode π} {s s' : Site T}
    (h : Placed factory start ns s) (hrun : (Composition.installBlock factory n).run s = .ok () s') :
    Placed factory start (ns ++ [n]) s' := by
  obtain ⟨b, hobject, hmap, hnext, hpools⟩ := installBlock_ok hrun
  rw [h.next] at hobject hnext
  have hlength : s'.runtime.nextAddr = start + (ns ++ [n]).length := by
    rw [hnext, List.length_append, List.length_singleton, Nat.add_assoc]
  cases hq : n.queued with
  | false =>
    rw [hq] at hpools
    simp only [Bool.false_eq_true, if_false] at hpools
    refine ⟨hlength, h.map_snoc hobject hmap, by rw [hpools]; exact h.nodup, ?_, ?_⟩
    · intro pool p hp a
      rw [hpools] at hp
      rw [h.tasks pool p hp]
      constructor
      · rintro ⟨i, n', hi, hrest⟩
        exact ⟨i, n', getElem?_snoc.mpr (Or.inl ⟨(List.getElem?_eq_some_iff.mp hi).1, hi⟩), hrest⟩
      · rintro ⟨i, n', hi, hq', hrest⟩
        rcases getElem?_snoc.mp hi with ⟨-, hi⟩ | ⟨rfl, rfl⟩
        · exact ⟨i, n', hi, hq', hrest⟩
        · rw [hq] at hq'
          cases hq'
    · intro i n' hi hq'
      rw [hpools]
      rcases getElem?_snoc.mp hi with ⟨-, hi⟩ | ⟨rfl, rfl⟩
      · exact h.served i n' hi hq'
      · rw [hq] at hq'
        cases hq'
  | true =>
    rw [hq] at hpools
    simp only [if_true] at hpools
    obtain ⟨p₀, hp₀, hpools⟩ := hpools
    rw [h.next] at hpools
    -- the new address is in no queue yet
    have hfresh : start + ns.length ∉ p₀.queue := by
      intro hmem
      obtain ⟨i, n', hi, -, -, ha⟩ := (h.tasks _ _ hp₀ _).mp hmem
      have := (List.getElem?_eq_some_iff.mp hi).1
      omega
    refine ⟨hlength, h.map_snoc hobject hmap, ?_, ?_, ?_⟩
    · intro pool p hp
      rw [hpools, OrdMap.find?_assign] at hp
      split at hp
      · cases hp
        exact List.nodup_append.mpr ⟨h.nodup _ _ hp₀, List.pairwise_singleton _ _, by
          rintro a ha b hb rfl
          rw [List.mem_singleton.mp hb] at ha
          exact hfresh ha⟩
      · exact h.nodup pool p hp
    · intro pool p hp a
      rw [hpools, OrdMap.find?_assign] at hp
      split at hp
      · rename_i hpool
        cases hp
        rw [List.mem_append, List.mem_singleton, h.tasks _ _ hp₀]
        constructor
        · rintro (⟨i, n', hi, hq', ht, ha⟩ | rfl)
          · exact ⟨i, n', getElem?_snoc.mpr (Or.inl ⟨(List.getElem?_eq_some_iff.mp hi).1, hi⟩), hq', ht.trans hpool.symm, ha⟩
          · exact ⟨ns.length, n, getElem?_snoc.mpr (Or.inr ⟨rfl, rfl⟩), hq, hpool.symm, rfl⟩
        · rintro ⟨i, n', hi, hq', ht, ha⟩
          rcases getElem?_snoc.mp hi with ⟨-, hi⟩ | ⟨rfl, rfl⟩
          · exact Or.inl ⟨i, n', hi, hq', ht.trans hpool, ha⟩
          · exact Or.inr ha
      · rename_i hpool
        rw [h.tasks pool p hp]
        constructor
        · rintro ⟨i, n', hi, hrest⟩
          exact ⟨i, n', getElem?_snoc.mpr (Or.inl ⟨(List.getElem?_eq_some_iff.mp hi).1, hi⟩), hrest⟩
        · rintro ⟨i, n', hi, hq', ht, ha⟩
          rcases getElem?_snoc.mp hi with ⟨-, hi⟩ | ⟨rfl, rfl⟩
          · exact ⟨i, n', hi, hq', ht, ha⟩
          · exact absurd ht.symm hpool
    · intro i n' hi hq'
      rw [hpools, OrdMap.find?_assign]
      split
      · exact ⟨_, rfl⟩
      · rename_i hpool
        rcases getElem?_snoc.mp hi with ⟨-, hi⟩ | ⟨rfl, rfl⟩
        · exact h.served i n' hi hq'
        · exact absurd rfl hpool

/-! ## The links and `initialize` -/

/-- The composition, the pools and the addresses are the same. -/
structure Site.SamePlaces (s s' : Site T) : Prop where
  composition : s'.composition = s.composition
  pools : s'.runtime.pools = s.runtime.pools
  nextAddr : s'.runtime.nextAddr = s.runtime.nextAddr

instance : Std.Refl (Site.SamePlaces : Site T → Site T → Prop) := ⟨fun _ => ⟨rfl, rfl, rfl⟩⟩

instance : IsTrans (Site T) Site.SamePlaces :=
  ⟨fun _ _ _ h h' => ⟨h'.composition.trans h.composition, h'.pools.trans h.pools, h'.nextAddr.trans h.nextAddr⟩⟩

theorem installLink_samePlaces (l : ConnectionNode) :
    Keeps Site.SamePlaces (Composition.installLink l : EStateM String (Site T) Unit) := by
  refine keeps_check (keeps_check (keeps_check (keeps_check (keeps_bind keeps_get fun s => ?_))))
  refine keeps_onPart (Q := fun r r' : Runtime T => r'.pools = r.pools ∧ r'.nextAddr = r.nextAddr) ?_
    fun _ _ h => ⟨rfl, h.1, h.2⟩
  exact keeps_onPart (Q := fun _ _ => True) (fun _ => trivial) fun _ _ _ => ⟨rfl, rfl⟩

theorem initializeBlocks_samePlaces (factory : BlockFactory π) :
    Keeps Site.SamePlaces (Composition.initializeBlocks factory : EStateM String (Site T) Unit) :=
  keeps_bind keeps_get fun _ => keeps_forM (fun _ => keeps_ofExcept _) _

theorem Placed.congr {factory : BlockFactory π} {start : Nat} {ns : List (BlockNode π)} {s s' : Site T}
    (h : Placed factory start ns s) (hsame : s.SamePlaces s') : Placed factory start ns s' := by
  refine ⟨hsame.nextAddr.trans h.next, ?_, ?_, ?_, ?_⟩
  · rw [hsame.composition]
    exact h.map
  · rw [hsame.pools]
    exact h.nodup
  · rw [hsame.pools]
    exact h.tasks
  · rw [hsame.pools]
    exact h.served

/-- An installation that returns has placed all its blocks. -/
theorem install_placed {factory : BlockFactory π} {config : InstallNode π} {appId : String} {r : Runtime T} {s : Site T}
    (hempty : ∀ pool p, r.pools.map.find? pool = some p → p.queue = [])
    (hrun : (Composition.install factory config).run ⟨Composition.new appId, r⟩ = .ok () s) :
    Placed factory r.nextAddr config.blocks s := by
  unfold Composition.install at hrun
  obtain ⟨u, m, hblocks, hrun⟩ := bind_eq_ok.mp hrun
  obtain ⟨u, m', hlinks, hinit⟩ := bind_eq_ok.mp hrun
  have hplaced : Placed factory r.nextAddr config.blocks m :=
    forM_ok_inv (fun _ _ _ _ h hk => h.snoc hk) (Placed.new factory appId hempty) hblocks
  have hlinked := hplaced.congr ((keeps_forM installLink_samePlaces config.connections).of_ok hlinks)
  exact hlinked.congr ((initializeBlocks_samePlaces factory).of_ok hinit)

end Blockmon
