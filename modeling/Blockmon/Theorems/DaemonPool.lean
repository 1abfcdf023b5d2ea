import Blockmon.Lemmas.DaemonPool

/-!
# A block stays in its pool

`Block.update` adds the block to the pool it has and removes it from the pool it is given, and it does nothing to the pools when
only the invocation changes. What it leaves is right exactly when there was nothing to change. Between two updates the schedulers may be
started and stopped and their workers run; from a block that a worker has taken `update_block` gets an exception, so that the block is
not rebuilt any more.
-/

namespace Blockmon

open Exn

variable {π T : Type}

/-- The arguments of `Block.__init__` and of `Block.update`. -/
structure BlockCall (π : Type) where
  invocation : String
  params : ConfigText π
  tpool : Option String

/-- A queued invocation comes with a pool. -/
def BlockCall.WithPool (u : BlockCall π) : Prop := queuedInvocation u.invocation = true → u.tpool ≠ none

/-- What happens to a block: it is updated, or the schedulers are started or stopped or one of their workers makes a step. -/
inductive BlockEvent (π : Type) where
  | update (u : BlockCall π)
  | schedule (act : SchedulerAct)

/-- The update of an event. -/
def BlockEvent.update? : BlockEvent π → Option (BlockCall π)
  | .update u => some u
  | .schedule _ => none

/-- The arguments that the block was given last, in its updates or before. -/
def lastTold (c : BlockCall π) (events : List (BlockEvent π)) : BlockCall π :=
  (events.filterMap BlockEvent.update?).getLast?.getD c

/-- The last update is what the block was told. -/
@[simp] theorem lastTold_update (c : BlockCall π) (events : List (BlockEvent π)) (u : BlockCall π) :
    lastTold c (events ++ [.update u]) = u := by
  simp [lastTold, BlockEvent.update?]

/-- The schedulers tell the block nothing. -/
@[simp] theorem lastTold_schedule (c : BlockCall π) (events : List (BlockEvent π)) (act : SchedulerAct) :
    lastTold c (events ++ [.schedule act]) = lastTold c events := by
  simp [lastTold, BlockEvent.update?]

/-- What was given last was given at some time. -/
theorem lastTold_cases (c : BlockCall π) (events : List (BlockEvent π)) :
    lastTold c events = c ∨ .update (lastTold c events) ∈ events := by
  unfold lastTold
  cases h : (events.filterMap BlockEvent.update?).getLast? with
  | none => exact Or.inl rfl
  | some u =>
    obtain ⟨event, hevent, hu⟩ := List.mem_filterMap.mp (List.mem_of_getLast? h)
    cases event with
    | update u' =>
      cases hu
      exact Or.inr hevent
    | schedule act => cases hu

namespace Daemon

/-- `Block.update` with an exception caught by the caller. -/
def afterUpdate (library : BlockLibrary π) (name : String) (d : Daemon π T) (u : BlockCall π) : Option (Daemon π T) :=
  some (leaves ((updateBlock library name u.invocation u.params u.tpool).run d))

/-- The daemon after an event. -/
def afterEvent (library : BlockLibrary π) (name : String) (d : Daemon π T) : BlockEvent π → Option (Daemon π T)
  | .update u => afterUpdate library name d u
  | .schedule act => d.schedule act

/-- The block is in the list of the pool it was last given, once, if it was last told to be queued, and in no other list; the pools
of the backend were told the same. -/
structure Member (name : String) (d : Daemon π T) (u : BlockCall π) : Prop where
  lists : ∀ p, (d.blocksOf p).count (d.compId, name) = if queuedInvocation u.invocation = true ∧ u.tpool = some p then 1 else 0
  histories : d.listed = d.received

/-- The call neither takes the block into a pool nor out of one, and a block in a pool is not rebuilt. -/
def StaysInPool (library : BlockLibrary π) (name : String) (d : Daemon π T) (u : BlockCall π) : Prop :=
  ∀ old, d.blocks.find? name = some old → queuedInvocation old.invocation = queuedInvocation u.invocation ∧
    (queuedInvocation u.invocation = true →
      u.tpool = old.tpool ∧ ¬Refuses library d.process d.compId name (Backend.toInvocType u.invocation) u.params)

/-- The condition on an event: an update leaves the block in its pool. -/
def KeepsMember (library : BlockLibrary π) (name : String) (d : Daemon π T) : BlockEvent π → Prop
  | .update u => StaysInPool library name d u
  | .schedule _ => True

/-- The record of the block has what it was last told. -/
def Recorded (name : String) (d : Daemon π T) (u : BlockCall π) : Prop :=
  ∃ b, d.blocks.find? name = some b ∧ b.name = name ∧ b.compId = d.compId ∧ b.invocation = u.invocation ∧
    (queuedInvocation u.invocation = true → b.tpool = u.tpool)

section Step

variable {library : BlockLibrary π} {name : String} {d : Daemon π T} {last u : BlockCall π}

/-- An update that changes nothing about the pools leaves the block where it is. -/
theorem Member.update (hrec : Recorded name d last) (h : Member name d last) (hstays : StaysInPool library name d u) {d' : Daemon π T}
    (hstep : afterUpdate library name d u = some d') : Recorded name d' u ∧ Member name d' u := by
  obtain ⟨old, hold, rfl, hcomp, hinv, htpool⟩ := hrec
  obtain ⟨hsame, hqueued⟩ := hstays old hold
  obtain ⟨d₁, hpools₁, hprocess, hblocks₁, hrun⟩ := run_updateBlock library u.invocation u.params u.tpool hold
  have hno : ¬(queuedInvocation u.invocation = true ∧ u.tpool ≠ old.tpool) := fun hc => hc.2 (hqueued hc.1).1
  rw [if_neg hno] at hrun
  obtain rfl : leaves ((updateBlock library old.name u.invocation u.params u.tpool).run d) = d' := Option.some.inj hstep
  have hfind : d₁.blocks.find? old.name = some (told old u.invocation u.params) := by
    rw [hblocks₁, OrdMap.find?_assign, if_pos rfl]
  -- the pools and the record are the same after the rest of the update
  have hkept : PoolsKept d₁ (leaves ((reconfigure library old.name (told old u.invocation u.params)).run d₁)) ∧
      BlocksKept d₁ (leaves ((reconfigure library old.name (told old u.invocation u.params)).run d₁)) := by
    by_cases hq : queuedInvocation u.invocation = true
    · have hrefuses := (hqueued hq).2
      rw [← hcomp, ← hprocess] at hrefuses
      rw [leaves_reconfigure_of_not_refuses (told old u.invocation u.params) hrefuses]
      exact ⟨onBackend_pools _ _, onBackend_blocks _ _⟩
    · exact reconfigure_of_direct hfind (eq_false_of_ne_true hq)
  rw [hrun]
  generalize leaves ((reconfigure library old.name (told old u.invocation u.params)).run d₁) = d' at hkept
  obtain ⟨hpools₂, hblocks⟩ := hkept
  have hpools : PoolsKept d d' := trans_of PoolsKept hpools₁ hpools₂
  refine ⟨⟨told old u.invocation u.params, hblocks.2 ▸ hfind, rfl, hcomp.trans hpools.compId.symm, rfl, fun hq => (hqueued hq).1.symm⟩,
    fun p => ?_, ?_⟩
  · rw [hpools.blocksOf, hpools.compId, h.lists p, ← hinv, hsame]
    by_cases hq : queuedInvocation u.invocation = true
    · rw [(hqueued hq).1, htpool (by rw [← hinv, hsame, hq])]
    · simp [hq]
  · rw [hpools.listed, hpools.received, h.histories]

/-- A queued block that keeps its pool is in the list of it afterwards only if it was queued before and its class does not refuse. -/
theorem queued_of_samePool {old : DaemonBlock π} {pool : String} (hfind : d.blocks.find? old.name = some (told old u.invocation u.params))
    (hq : queuedInvocation u.invocation = true) (hpool : old.tpool = some pool)
    (hbefore : (d.blocksOf pool).count (old.compId, old.name) = if queuedInvocation old.invocation = true then 1 else 0)
    (hafter : ((leaves ((reconfigure library old.name (told old u.invocation u.params)).run d)).blocksOf pool).count
      (old.compId, old.name) = 1) :
    queuedInvocation old.invocation = true ∧
      ¬Refuses library d.process old.compId old.name (Backend.toInvocType u.invocation) u.params := by
  have hrebuilt := count_reconfigure_of_queued library hfind hq hpool
  by_cases hqold : queuedInvocation old.invocation = true
  · rw [if_pos hqold] at hbefore
    refine ⟨hqold, fun hrefuses => ?_⟩
    have hzero := hrebuilt hbefore.le fun _ => hrefuses
    exact Nat.one_ne_zero (hafter.symm.trans hzero)
  · rw [if_neg hqold] at hbefore
    have hzero := hrebuilt (hbefore.le.trans (Nat.zero_le 1)) fun h => absurd (hbefore.symm.trans h) Nat.zero_ne_one
    exact absurd (hafter.symm.trans hzero) Nat.one_ne_zero

/-- A queued block that is given another pool is twice in the list of its old pool, or in no list if it had none: the change throws. -/
theorem unlisted_of_otherPool (library : BlockLibrary π) (u : BlockCall π) {old : DaemonBlock π} {pool : String}
    (hne : old.tpool ≠ some pool) (hold : queuedInvocation old.invocation = true → old.tpool ≠ none)
    (hbefore : ∀ p, (d.blocksOf p).count (old.compId, old.name) =
      if queuedInvocation old.invocation = true ∧ old.tpool = some p then 1 else 0) :
    ∃ p, ((leaves ((do
        changePool (told old u.invocation u.params) (some pool)
        reconfigure library old.name (told old u.invocation u.params)).run d)).blocksOf p).count (old.compId, old.name) ≠
      if some pool = some p then 1 else 0 := by
  have hnot : (old.compId, old.name) ∉ d.blocksOf pool :=
    List.count_eq_zero.mp ((hbefore pool).trans (if_neg fun hc => hne hc.2))
  obtain ⟨e, d₂, hthrows, hcount⟩ := changePool_throws (told old u.invocation u.params) hne hnot
  rw [EStateM.run_bind, hthrows]
  have hadded : ∀ p, (d₂.blocksOf p).count (old.compId, old.name) =
      (d.blocksOf p).count (old.compId, old.name) + if old.tpool = some p then 1 else 0 := hcount
  by_cases hq : queuedInvocation old.invocation = true
  · obtain ⟨p, hp⟩ := Option.ne_none_iff_exists'.mp (hold hq)
    have htwo : (d₂.blocksOf p).count (old.compId, old.name) = 2 := by
      rw [hadded, hbefore, if_pos ⟨hq, hp⟩, if_pos hp]
    refine ⟨p, fun h => ?_⟩
    rw [if_neg fun heq => hne (hp.trans heq.symm)] at h
    exact absurd (htwo.symm.trans h) (by decide)
  · have hzero : (d₂.blocksOf pool).count (old.compId, old.name) = 0 := by
      rw [hadded, hbefore, if_neg fun hc => hq hc.1, if_neg hne]
    refine ⟨pool, fun h => ?_⟩
    rw [if_pos rfl] at h
    exact absurd (hzero.symm.trans h) (by decide)

/-- Any other update leaves the block in a wrong list, or in none. -/
theorem Member.staysInPool (hrec : Recorded name d last) (h : Member name d last) (hlast : last.WithPool) (hu : u.WithPool)
    {d' : Daemon π T} (hstep : afterUpdate library name d u = some d') (h' : Member name d' u) : StaysInPool library name d u := by
  obtain ⟨old, hold, rfl, hcomp, hinv, htpool⟩ := hrec
  intro old' hold'
  obtain rfl : old = old' := Option.some.inj (hold.symm.trans hold')
  rw [← hinv] at htpool
  obtain ⟨d₁, hpools₁, hprocess, hblocks₁, hrun⟩ := run_updateBlock library u.invocation u.params u.tpool hold
  have hfind : d₁.blocks.find? old.name = some (told old u.invocation u.params) := by
    rw [hblocks₁, OrdMap.find?_assign, if_pos rfl]
  obtain rfl : leaves ((updateBlock library old.name u.invocation u.params u.tpool).run d) = d' := Option.some.inj hstep
  have hbefore : ∀ p, (d₁.blocksOf p).count (old.compId, old.name) =
      if queuedInvocation old.invocation = true ∧ old.tpool = some p then 1 else 0 := by
    intro p
    rw [hpools₁.blocksOf, hcomp, h.lists p, ← hinv]
    exact if_congr (and_congr_right fun hq => by rw [htpool hq]) rfl rfl
  have hafter := h'.lists
  rw [updateBlock_composition library old.name u.invocation u.params u.tpool d, ← hcomp, hrun] at hafter
  by_cases hq : queuedInvocation u.invocation = true
  · obtain ⟨pool, hpool⟩ := Option.ne_none_iff_exists'.mp (hu hq)
    by_cases htp : u.tpool = old.tpool
    · -- the lists are not touched before the backend is called
      rw [if_neg (fun hc => hc.2 htp)] at hafter
      have hold_pool : old.tpool = some pool := htp.symm.trans hpool
      obtain ⟨hqold, hrefuses⟩ := queued_of_samePool hfind hq hold_pool
        ((hbefore pool).trans (if_congr (and_iff_left hold_pool) rfl rfl)) ((hafter pool).trans (if_pos ⟨hq, hpool⟩))
      rw [hprocess, hcomp] at hrefuses
      exact ⟨hqold.trans hq.symm, fun _ => ⟨htp, hrefuses⟩⟩
    · have hold_pool : queuedInvocation old.invocation = true → old.tpool ≠ none := fun hqold =>
        htpool hqold ▸ hlast (hinv ▸ hqold)
      obtain ⟨p, hp⟩ := unlisted_of_otherPool library u (fun heq => htp (hpool.trans heq.symm)) hold_pool hbefore
      rw [if_pos ⟨hq, htp⟩, hpool] at hafter
      exact absurd ((hafter p).trans (if_congr (and_iff_right hq) rfl rfl)) hp
  · refine ⟨?_, fun hc => absurd hc hq⟩
    rw [eq_false_of_ne_true hq]
    by_contra hqold
    rw [Bool.not_eq_false] at hqold
    obtain ⟨p, hp⟩ := Option.ne_none_iff_exists'.mp (hlast (hinv ▸ hqold))
    have hone := (hbefore p).trans (if_pos ⟨hqold, (htpool hqold).trans hp⟩)
    have hzero := (hafter p).trans (if_neg fun hc => hq hc.1)
    rw [if_neg (fun hc => hq hc.1), (reconfigure_of_direct hfind (eq_false_of_ne_true hq)).1.blocksOf, hone] at hzero
    cases hzero

/-- The schedulers do not know of the lists. -/
theorem Member.schedule (hrec : Recorded name d last) (h : Member name d last) {act : SchedulerAct} {d' : Daemon π T}
    (hstep : d.schedule act = some d') : Recorded name d' last ∧ Member name d' last := by
  obtain ⟨w, -, rfl⟩ := Option.map_eq_some_iff.mp hstep
  exact ⟨hrec, h.lists, h.histories⟩

end Step

/-- What `Block.__init__` leaves when it returns: the record of the block, and the block once more in the list of its pool. -/
theorem initBlock_ok {library : BlockLibrary π} {name blockType : String} {c : BlockCall π} {d₀ d : Daemon π T}
    (hlogs : d₀.listed = d₀.received)
    (hrun : (initBlock library name blockType c.invocation c.params c.tpool).run d₀ = .ok () d) :
    c.WithPool ∧ d.compId = d₀.compId ∧ d.listed = d.received ∧
      d.blocks.find? name = some
        { name := name, blockType := blockType, compId := d₀.compId, invocation := c.invocation
          inv := Backend.toInvocType c.invocation, tpool := c.tpool, params := c.params, connections := []
          ingates := OrdMap.empty, outgates := OrdMap.empty } ∧
      ∀ p, (d.blocksOf p).count (d₀.compId, name) = (d₀.blocksOf p).count (d₀.compId, name) +
        if queuedInvocation c.invocation = true ∧ c.tpool = some p then 1 else 0 := by
  unfold initBlock at hrun
  obtain ⟨d₁, m₁, hget, hrun⟩ := bind_eq_ok.mp hrun
  cases hget
  obtain ⟨u, m₂, hcreate, hrun⟩ := bind_eq_ok.mp hrun
  have hkept := (onBackend_pools _).of_ok hcreate
  by_cases hq : queuedInvocation c.invocation = true
  · simp only [hq] at hrun
    cases hpool : c.tpool with
    | none =>
      rw [hpool] at hrun
      cases hrun
    | some pool =>
      rw [hpool] at hrun
      obtain ⟨u, m₃, hadd, hset⟩ := bind_eq_ok.mp hrun
      simp only [onTpool] at hadd
      have hkept' := (setBlock_pools _).of_ok hset
      obtain ⟨hlisted, hreceived⟩ := poolAddBlock_ok hadd
      have hcomp := ((poolAddBlock_blocks _ _ _).of_ok hadd).1.trans hkept.compId
      refine ⟨fun _ => hpool ▸ Option.some_ne_none _, hkept'.compId.trans hcomp, ?_, setBlock_ok hset, fun p => ?_⟩
      · rw [hkept'.listed, hkept'.received, hlisted, hreceived, hkept.listed, hkept.received, hlogs]
      · have hlist := leaves_poolAddBlock pool d₀.compId name p m₂
        rw [hadd, hkept.blocksOf] at hlist
        rw [hkept'.blocksOf, show m₃.blocksOf p = _ from hlist, hq]
        by_cases hp : p = pool
        · simp [hp]
        · simp [hp, Ne.symm hp]
  · simp only [hq] at hrun
    have hkept' := (setBlock_pools _).of_ok hrun
    refine ⟨fun h => absurd h hq, hkept'.compId.trans hkept.compId, ?_, setBlock_ok hrun, fun p => ?_⟩
    · rw [hkept'.listed, hkept'.received, hkept.listed, hkept.received, hlogs]
    · rw [if_neg fun hc => hq hc.1, Nat.add_zero, hkept'.blocksOf, hkept.blocksOf]

/-- A block that was made is in the list of its pool, and no list has it twice exactly if none had it before. -/
theorem initBlock_member {library : BlockLibrary π} {name blockType : String} {c : BlockCall π} {d₀ d : Daemon π T}
    (hlogs : d₀.listed = d₀.received)
    (hrun : (initBlock library name blockType c.invocation c.params c.tpool).run d₀ = .ok () d) :
    c.WithPool ∧ Recorded name d c ∧ (Member name d c ↔ ∀ p, (d₀.compId, name) ∉ d₀.blocksOf p) := by
  obtain ⟨hpool, hcomp, hhistories, hfind, hcount⟩ := initBlock_ok hlogs hrun
  refine ⟨hpool, ⟨_, hfind, rfl, hcomp.symm, rfl, fun _ => rfl⟩, fun h p => ?_, fun h => ⟨fun p => ?_, hhistories⟩⟩
  · have hp := h.lists p
    rw [hcomp, hcount p] at hp
    exact List.count_eq_zero.mp (by omega)
  · rw [hcomp, hcount p, List.count_eq_zero.mpr (h p), Nat.zero_add]

/-- In a run of updates that leave the pools alone, and of steps of the schedulers, the block is where it was last told to be, and the
next update keeps that exactly if it leaves the pools alone too. -/
theorem update_member_iff (library : BlockLibrary π) (name blockType : String) (c : BlockCall π) (d₀ d : Daemon π T)
    (hlogs : d₀.listed = d₀.received)
    (hinit : (initBlock library name blockType c.invocation c.params c.tpool).run d₀ = .ok () d) :
    (Member name d c ↔ ∀ p, (d₀.compId, name) ∉ d₀.blocksOf p) ∧
      ∀ events d', (∀ u, .update u ∈ events → BlockCall.WithPool u) → (∀ p, (d₀.compId, name) ∉ d₀.blocksOf p) →
        Lts.Along (afterEvent library name) (KeepsMember library name) d events →
        Lts.run (afterEvent library name) d events = some d' →
        Member name d' (lastTold c events) ∧ ∀ u d'', u.WithPool → afterUpdate library name d' u = some d'' →
          (Member name d'' u ↔ StaysInPool library name d' u) := by
  obtain ⟨hpool, hrec, hmember⟩ := initBlock_member hlogs hinit
  refine ⟨hmember, fun events d' hpools hnot halong hrun => ?_⟩
  have hinv : Recorded name d' (lastTold c events) ∧ Member name d' (lastTold c events) := by
    refine Lts.run_inv_of_labels (I := fun events d' => Recorded name d' (lastTold c events) ∧ Member name d' (lastTold c events))
      (G := fun _ => True) (fun _ _ _ => trivial) ?_ ⟨hrec, hmember.mpr hnot⟩ trivial halong hrun
    intro events m event m' _ h hkeeps hstep
    cases event with
    | update u =>
      rw [lastTold_update]
      exact h.2.update h.1 hkeeps hstep
    | schedule act =>
      rw [lastTold_schedule]
      exact h.2.schedule h.1 hstep
  have hlast : (lastTold c events).WithPool := by
    rcases lastTold_cases c events with h | h
    · rw [h]
      exact hpool
    · exact hpools _ h
  exact ⟨hinv.2, fun u d'' hu hstep =>
    ⟨fun h => hinv.2.staysInPool hinv.1 hlast hu hstep h, fun h => (hinv.2.update hinv.1 h hstep).2⟩⟩

/-! ## A block of one pool -/

/-- One class, whose blocks give one answer to all parameters. -/
def counterLibrary (answer : Bool) : BlockLibrary Unit where
  registered type :=
    if type = "Counter" then
      some
        { settles := id, inputGates := ["in_pkt"], outputGates := ["out_pkt"], construct := fun _ => .ok ()
          configure := fun _ _ => .ok () }
    else none
  initializeBlock _ := .ok ()
  updateConfig _ _ := .ok answer

/-- A daemon with two pools and no blocks. -/
def twoPools : Daemon Unit Unit := leaves ((do createPool ⟨"p", 1, []⟩; createPool ⟨"q", 1, []⟩).run (Daemon.new "comp"))

/-- A counter in the first pool. -/
def counterInit : BlockCall Unit :=
  { invocation := "indirect", params := .block ⟨"counter", "Counter", "p", "", "indirect", ()⟩, tpool := some "p" }

/-- An update of the counter that puts it into a pool. -/
def counterUpdate (pool : String) : BlockCall Unit := { invocation := "indirect", params := .params (), tpool := some pool }

/-- The counter as made. -/
def withCounter (answer : Bool) : Daemon Unit Unit :=
  leaves ((initBlock (counterLibrary answer) "counter" "Counter" counterInit.invocation counterInit.params counterInit.tpool).run twoPools)

/-- The daemon with the counter is the one that `Block.__init__` leaves. -/
theorem withCounter_made (answer : Bool) :
    (initBlock (counterLibrary answer) "counter" "Counter" counterInit.invocation counterInit.params counterInit.tpool).run twoPools =
      .ok () (withCounter answer) := by
  refine eq_ok_of_returns ?_
  cases answer <;> decide +kernel

/-- The counter is in no pool before it is made. -/
theorem twoPools_empty (p : String) : ("comp", "counter") ∉ twoPools.blocksOf p := by
  have hentries : twoPools.threadPools.entries = [("p", []), ("q", [])] := by decide +kernel
  unfold Daemon.blocksOf OrdMap.find?
  rw [hentries]
  by_cases hp : "p" = p <;> by_cases hq : "q" = p <;> simp [List.find?, hp, hq]

/-- The schedulers are started and the worker of the first pool takes the counter. -/
def counterTaken : List (BlockEvent Unit) :=
  .schedule .startSchedulers :: List.replicate 3 (.schedule (.worker "p" 0 ⟨[], [], .ok ()⟩))

/-- After the worker has taken the counter, its `m_running` is set and the daemon still has its first pool. -/
theorem counterTaken_running {d : Daemon Unit Unit}
    (hrun : Lts.run (afterEvent (counterLibrary false) "counter") (withCounter false) counterTaken = some d) :
    d.compId = "comp" ∧ d.process.runtime.running = [0] ∧ (d.process.getBlock "comp" "counter").toOption.map Block.addr = some 0 ∧
      (d.blocks.find? "counter").map (fun b => (b.invocation, b.tpool)) = some ("indirect", some "p") := by
  have hcomp : (Lts.run (afterEvent (counterLibrary false) "counter") (withCounter false) counterTaken).map Daemon.compId =
      some "comp" := by decide +kernel
  have hcheck : (Lts.run (afterEvent (counterLibrary false) "counter") (withCounter false) counterTaken).map (fun d =>
      (d.process.runtime.running, (d.process.getBlock "comp" "counter").toOption.map Block.addr,
        (d.blocks.find? "counter").map fun b => (b.invocation, b.tpool))) = some ([0], some 0, some ("indirect", some "p")) := by
    decide +kernel
  rw [hrun] at hcomp hcheck
  obtain ⟨hrunning, hrest⟩ := Prod.mk.inj (Option.some.inj hcheck)
  obtain ⟨haddr, hrecord⟩ := Prod.mk.inj hrest
  exact ⟨Option.some.inj hcomp, hrunning, haddr, hrecord⟩

/-- The counter has been taken when it is updated with the same pool, so it stays in it although its class answers false. -/
theorem update_member_iff_counter :
    ∃ d, Lts.run (afterEvent (counterLibrary false) "counter") (withCounter false) (counterTaken ++ [.update (counterUpdate "p")]) = some d ∧
      Member "counter" d (counterUpdate "p") := by
  have hsome : (Lts.run (afterEvent (counterLibrary false) "counter") (withCounter false)
      (counterTaken ++ [.update (counterUpdate "p")])).isSome = true := by decide +kernel
  obtain ⟨d, hd⟩ := Option.isSome_iff_exists.mp hsome
  refine ⟨d, hd, ?_⟩
  have hmember := ((update_member_iff (counterLibrary false) "counter" "Counter" counterInit twoPools (withCounter false)
    (by decide +kernel) (withCounter_made false)).2 (counterTaken ++ [.update (counterUpdate "p")]) d ?_ twoPools_empty ?_ hd).1
  · rw [lastTold_update] at hmember
    exact hmember
  · intro u hu
    simp only [counterTaken, List.replicate, List.cons_append, List.nil_append, List.mem_cons, reduceCtorEq, false_or,
      List.not_mem_nil, or_false, BlockEvent.update.injEq] at hu
    rw [hu]
    intro _ hnone
    cases hnone
  · refine Lts.along_snoc.mpr ⟨⟨trivial, fun _ _ => ⟨trivial, fun _ _ => ⟨trivial, fun _ _ => ⟨trivial, fun _ _ => trivial⟩⟩⟩⟩, ?_⟩
    intro m hm old hold
    obtain ⟨hcomp, hrunning, haddr, hrecord⟩ := counterTaken_running hm
    rw [hold] at hrecord
    obtain ⟨hinvocation, htpool⟩ := Prod.mk.inj (Option.some.inj hrecord)
    refine ⟨hinvocation ▸ rfl, fun _ => ⟨htpool.symm, ?_⟩⟩
    rintro ⟨node, b, -, hb, hnot, -⟩
    rw [hcomp] at hb
    rw [hb] at haddr
    refine hnot ?_
    rw [hrunning, show b.addr = 0 from Option.some.inj haddr]
    exact List.mem_singleton_self 0

/-- An update with another pool leaves the counter twice in its old one. -/
theorem update_leaves_counter_behind : ¬∀ (library : BlockLibrary Unit) (name blockType : String) (c : BlockCall Unit)
    (d₀ d : Daemon Unit Unit) (us : List (BlockCall Unit)) (d' : Daemon Unit Unit), d₀.listed = d₀.received →
      (initBlock library name blockType c.invocation c.params c.tpool).run d₀ = .ok () d →
      (∀ p, (d₀.compId, name) ∉ d₀.blocksOf p) →
      (∀ u ∈ us, ∃ p, u.tpool = some p ∧ (d₀.threadPools.find? p).isSome = true) →
      Lts.run (afterUpdate library name) d us = some d' → Member name d' (us.getLast?.getD c) := by
  intro hall
  have hmember := hall (counterLibrary true) "counter" "Counter" counterInit twoPools (withCounter true) [counterUpdate "q"] _
    (by decide +kernel) (withCounter_made true) twoPools_empty ?_ rfl
  · have htwo := hmember.lists "p"
    revert htwo
    decide +kernel
  · intro u hu
    rw [List.mem_singleton.mp hu]
    exact ⟨"q", rfl, by decide +kernel⟩

end Daemon

end Blockmon
