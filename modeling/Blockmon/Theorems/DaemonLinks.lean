import Blockmon.Lemmas.DaemonSetup

/-!
# The links of a composition

The daemon writes down every link three times and the gates hold it twice. What the gates hold is what was connected and not since
disconnected, as long as no block that has a link is rebuilt: `restore` passes the parameters of the block to `create_block`, which
wants the whole `block` element, so the block does not come back and its links end nowhere. The steps of the schedulers in between do
not touch the links, but a block that a worker has taken is not rebuilt any more.
-/

namespace Blockmon

open Exn HalfEdges

variable {π T : Type}

/-- A call on the links of a composition, an update of a block, or a step of the schedulers. -/
inductive GraphCall (π : Type) where
  | connect (l : ConnectionNode)
  | disconnect (l : ConnectionNode)
  | update (n : BlockNode π)
  | schedule (act : SchedulerAct)

/-- The daemon, and the links that were connected and not since disconnected. -/
structure Wiring (π T : Type) where
  daemon : Daemon π T
  links : List ConnectionNode

namespace Wiring

/-- A call of the daemon, with an exception caught by the caller. -/
def step (library : BlockLibrary π) (w : Wiring π T) : GraphCall π → Option (Wiring π T)
  | .connect l =>
    let r := (Daemon.connectBlocks l.srcBlock l.srcGate l.dstBlock l.dstGate).run w.daemon
    some { daemon := leaves r, links := if returns r then w.links ++ [l] else w.links }
  | .disconnect l =>
    some
      { daemon := leaves ((Daemon.disconnectBlocks l.srcBlock l.srcGate l.dstBlock l.dstGate).run w.daemon)
        links := w.links.filter fun l' => decide (l' ≠ l) }
  | .update n => some { daemon := leaves ((Daemon.updateNode library n).run w.daemon), links := w.links }
  | .schedule act => (w.daemon.schedule act).map fun d => { daemon := d, links := w.links }

/-- The gates that the names of a link stand for. -/
def ends (w : Wiring π T) (l : ConnectionNode) : Option (GateRef × GateRef) := w.daemon.process.ends w.daemon.compId l

/-- Every link is between gates of blocks of the composition, and the gates of these blocks hold exactly the links. -/
structure Live (w : Wiring π T) : Prop where
  live : ∀ l ∈ w.links, (w.ends l).isSome = true
  outputs : ∀ block gate x y, w.daemon.process.getOutputGate w.daemon.compId block gate = .ok x →
    (w.daemon.process.runtime.gates.peers .right x).count y = w.links.countP fun l => decide (w.ends l = some (x, y))
  inputs : ∀ block gate x y, w.daemon.process.getInputGate w.daemon.compId block gate = .ok y →
    (w.daemon.process.runtime.gates.peers .left y).count x = w.links.countP fun l => decide (w.ends l = some (x, y))

/-- An update that rebuilds a block rebuilds one without links. -/
def RebuildsUnlinked (library : BlockLibrary π) (w : Wiring π T) : GraphCall π → Prop
  | .connect _ => True
  | .disconnect _ => True
  | .update n =>
    Daemon.Refuses library w.daemon.process w.daemon.compId n.id (Backend.toInvocType (Daemon.nodeInvocation n.invocation))
      (.params n.node) → ∀ l ∈ w.links, l.srcBlock ≠ n.id ∧ l.dstBlock ≠ n.id
  | .schedule _ => True

end Wiring

/-! ## The names of gates -/

/-- Two names of a block or of a gate do not stand for the same one. -/
structure Process.Distinct (w : Process T) (c : String) : Prop where
  addresses : ∀ n n' b b', w.shape c n = some b → w.shape c n' = some b' → b.addr = b'.addr → n = n'
  inputs : ∀ n b, w.shape c n = some b → ∀ g g' id, b.inputIds.find? g = some id → b.inputIds.find? g' = some id → g = g'
  outputs : ∀ n b, w.shape c n = some b → ∀ g g' id, b.outputIds.find? g = some id → b.outputIds.find? g' = some id → g = g'

/-- Two links with the same ends are the same link. -/
theorem Process.Distinct.ends_inj {w : Process T} {c : String} (h : w.Distinct c) {l l' : ConnectionNode} {e : GateRef × GateRef}
    (hl : w.ends c l = some e) (hl' : w.ends c l' = some e) : l' = l := by
  obtain ⟨x, y⟩ := e
  obtain ⟨hx, hy⟩ := Process.ends_eq_some.mp hl
  obtain ⟨hx', hy'⟩ := Process.ends_eq_some.mp hl'
  obtain ⟨b, id, hb, hid, rfl⟩ := Process.getOutputGate_eq_ok.mp hx
  obtain ⟨b', id', hb', hid', hsrc⟩ := Process.getOutputGate_eq_ok.mp hx'
  obtain ⟨d, jd, hd, hjd, rfl⟩ := Process.getInputGate_eq_ok.mp hy
  obtain ⟨d', jd', hd', hjd', hdst⟩ := Process.getInputGate_eq_ok.mp hy'
  obtain ⟨haddr, rfl⟩ := GateRef.mk.inj hsrc
  obtain ⟨haddr', rfl⟩ := GateRef.mk.inj hdst
  obtain ⟨sb, sg, db, dg⟩ := l
  obtain ⟨sb', sg', db', dg'⟩ := l'
  obtain rfl : sb = sb' := h.addresses _ _ _ _ hb hb' haddr
  obtain rfl : db = db' := h.addresses _ _ _ _ hd hd' haddr'
  obtain rfl : b = b' := Option.some.inj (hb.symm.trans hb')
  obtain rfl : d = d' := Option.some.inj (hd.symm.trans hd')
  obtain rfl := h.outputs _ _ hb _ _ _ hid hid'
  obtain rfl := h.inputs _ _ hd _ _ _ hjd hjd'
  rfl

/-- Blocks that disappear leave the others distinct. -/
theorem Process.Distinct.without {w w' : Process T} {c : String} {gone : String → String → Prop} (h : w.Distinct c)
    (hw : w.Without gone w') : w'.Distinct c := by
  have hback : ∀ {n b}, w'.shape c n = some b → w.shape c n = some b := by
    intro n b hb
    rcases hw.blocks c n with hs | ⟨-, hs⟩
    · rw [← hs]
      exact hb
    · rw [hs] at hb
      cases hb
  exact ⟨fun n n' b b' hb hb' => h.addresses n n' b b' (hback hb) (hback hb'), fun n b hb => h.inputs n b (hback hb),
    fun n b hb => h.outputs n b (hback hb)⟩

namespace Wiring

/-- The invariant of the runs. -/
structure Wired (w : Wiring π T) : Prop where
  named : ∀ key b, w.daemon.blocks.find? key = some b → b.name = key ∧ b.compId = w.daemon.compId
  recorded : ∀ l ∈ w.links, (w.daemon.blocks.find? l.srcBlock).isSome = true ∧ (w.daemon.blocks.find? l.dstBlock).isSome = true
  distinct : w.daemon.process.Distinct w.daemon.compId
  live : ∀ l ∈ w.links, (w.ends l).isSome = true
  stores : Stores w.daemon.process.runtime.gates.peers w.ends w.links

/-- Wired compositions have their links. -/
theorem Wired.toLive {w : Wiring π T} (h : w.Wired) : w.Live :=
  ⟨h.live, fun _ _ x y _ => h.stores .right x y, fun _ _ x y _ => h.stores .left y x⟩

/-- What does not change the links or the blocks at their ends keeps the invariant. -/
theorem Wired.without {w : Wiring π T} (h : w.Wired) {d : Daemon π T} {gone : String → String → Prop}
    (hcomp : d.compId = w.daemon.compId) (hnamed : ∀ key b, d.blocks.find? key = some b → b.name = key ∧ b.compId = w.daemon.compId)
    (hgrows : ∀ key, (w.daemon.blocks.find? key).isSome = true → (d.blocks.find? key).isSome = true)
    (hwithout : w.daemon.process.Without gone d.process)
    (hkept : ∀ l ∈ w.links, ¬gone w.daemon.compId l.srcBlock ∧ ¬gone w.daemon.compId l.dstBlock) :
    Wired { daemon := d, links := w.links } := by
  have hends : ∀ l ∈ w.links, ends { daemon := d, links := w.links } l = w.ends l := by
    intro l hl
    unfold ends
    rw [hcomp]
    refine Process.ends_congr ?_ ?_
    · exact (hwithout.blocks _ _).resolve_right fun hg => (hkept l hl).1 hg.1
    · exact (hwithout.blocks _ _).resolve_right fun hg => (hkept l hl).2 hg.1
  refine ⟨fun key b hb => ?_, fun l hl => ?_, ?_, fun l hl => ?_, ?_⟩
  · rw [hcomp]
    exact hnamed key b hb
  · exact ⟨hgrows _ (h.recorded l hl).1, hgrows _ (h.recorded l hl).2⟩
  · rw [hcomp]
    exact h.distinct.without hwithout
  · rw [hends l hl]
    exact h.live l hl
  · rw [hwithout.gates]
    exact h.stores.congr hends

/-- An update keeps the links of the blocks that stay. -/
theorem Wired.update {library : BlockLibrary π} {w w' : Wiring π T} {n : BlockNode π} (h : w.Wired)
    (hcond : w.RebuildsUnlinked library (.update n)) (hstep : w.step library (.update n) = some w') : w'.Wired := by
  obtain rfl := Option.some.inj hstep
  have hrun : (Daemon.updateNode library n).run w.daemon =
      match w.daemon.nodePool (Daemon.nodeInvocation n.invocation) n.threadpool with
      | .ok tpool =>
        (Daemon.updateBlock library n.id (Daemon.nodeInvocation n.invocation) (.params n.node) tpool).run w.daemon
      | .error e => .error e w.daemon := by
    unfold Daemon.updateNode
    simp only [EStateM.run_bind, EStateM.run_get, run_ofExcept]
    cases w.daemon.nodePool (Daemon.nodeInvocation n.invocation) n.threadpool <;> rfl
  rw [hrun]
  cases w.daemon.nodePool (Daemon.nodeInvocation n.invocation) n.threadpool with
  | error e => exact h
  | ok tpool =>
    obtain ⟨hcomp, hnamed, hgrows, hwithout⟩ :=
      Daemon.leaves_updateBlock library n.id (Daemon.nodeInvocation n.invocation) n.node tpool h.named
    refine h.without hcomp hnamed hgrows hwithout fun l hl => ⟨fun hg => ?_, fun hg => ?_⟩
    · exact (hcond hg.1 l hl).1 hg.2.2
    · exact (hcond hg.1 l hl).2 hg.2.2

/-- The records of the two blocks do not matter for the links. -/
theorem Wired.recorded_by {w : Wiring π T} (h : w.Wired) {src : DaemonBlock π} {call : EStateM String (Daemon π T) Unit}
    (hsrc : w.daemon.blocks.find? src.name = some src)
    (hcall : Keeps (Daemon.Follows (fun _ _ => False) w.daemon.compId src.name src.params) call) :
    Wired { daemon := leaves (call.run w.daemon), links := w.links } := by
  have hfiled : Daemon.Filed w.daemon.compId src.name src.params w.daemon :=
    ⟨rfl, h.named, fun b hb => by rw [hsrc] at hb; cases hb; rfl⟩
  obtain ⟨hfiled', hwithout, hgrows⟩ := hcall w.daemon hfiled
  exact h.without hfiled'.compId hfiled'.named hgrows hwithout fun _ _ => ⟨fun hf => hf, fun hf => hf⟩

/-- The process with other links between the same gates. -/
theorem Wired.withPeers {w : Wiring π T} (h : w.Wired) {a : Adj GateRef} (links : List ConnectionNode)
    (hrecorded : ∀ l ∈ links, (w.daemon.blocks.find? l.srcBlock).isSome = true ∧ (w.daemon.blocks.find? l.dstBlock).isSome = true)
    (hlive : ∀ l ∈ links, (w.ends l).isSome = true) (hstores : Stores a w.ends links) :
    Wired { daemon := { w.daemon with process := w.daemon.process.withPeers a }, links := links } :=
  ⟨h.named, hrecorded, ⟨h.distinct.addresses, h.distinct.inputs, h.distinct.outputs⟩, hlive, hstores⟩

/-- A connection keeps the wiring. -/
theorem Wired.connect {library : BlockLibrary π} {w w' : Wiring π T} {l : ConnectionNode} (h : w.Wired)
    (hstep : w.step library (.connect l) = some w') : w'.Wired := by
  obtain rfl := Option.some.inj hstep
  generalize hr : (Daemon.connectBlocks l.srcBlock l.srcGate l.dstBlock l.dstGate).run w.daemon = r
  rcases Daemon.connectBlocks_cases l h.named with ⟨e, hrun⟩ | ⟨src, dst, x, y, hsrc, hdst, hends, hrun⟩
  · obtain rfl := hr.symm.trans hrun
    exact h
  · obtain rfl := hr.symm.trans hrun
    obtain ⟨hsname, hscomp⟩ := h.named _ src hsrc
    have hlinked := h.withPeers (w.links ++ [l]) (fun l' hl' => ?_) (fun l' hl' => ?_) (h.stores.link (s := .right) hends)
    · have hreturns := Daemon.returns_recordConnection l src dst
        (d := { w.daemon with
          process := w.daemon.process.withPeers ((w.daemon.process.runtime.gates.peers.link .right x y).link .left y x) })
        (by rw [hdst]; rfl)
      rw [hreturns]
      exact hlinked.recorded_by (hsname ▸ hsrc) (Daemon.recordConnection_follows hscomp)
    · rcases List.mem_append.mp hl' with hl' | hl'
      · exact h.recorded l' hl'
      · rw [List.mem_singleton.mp hl', hsrc, hdst]
        exact ⟨rfl, rfl⟩
    · rcases List.mem_append.mp hl' with hl' | hl'
      · exact h.live l' hl'
      · rw [List.mem_singleton.mp hl', ends, hends]
        rfl

/-- A disconnection keeps the wiring. -/
theorem Wired.disconnect {library : BlockLibrary π} {w w' : Wiring π T} {l : ConnectionNode} (h : w.Wired)
    (hstep : w.step library (.disconnect l) = some w') : w'.Wired := by
  obtain rfl := Option.some.inj hstep
  have hboth : ∀ x y, y ∈ w.daemon.process.runtime.gates.peers .right x → x ∈ w.daemon.process.runtime.gates.peers .left y := by
    intro x y hy
    obtain ⟨l', hl', hends⟩ := h.stores.mem.mp hy
    exact h.stores.mem.mpr ⟨l', hl', hends⟩
  rcases Daemon.disconnectBlocks_cases l h.named hboth with ⟨⟨e, hrun⟩, hnot⟩ | ⟨src, dst, x, y, hsrc, hends, hmem, hrun⟩
  · -- a link that is there would have been found
    have hl : l ∉ w.links := by
      intro hl
      obtain ⟨hs, hd⟩ := h.recorded l hl
      obtain ⟨⟨x, y⟩, hends⟩ := Option.isSome_iff_exists.mp (h.live l hl)
      exact hnot x y hs hd hends (h.stores.mem.mpr ⟨l, hl, hends⟩)
    have hfilter : (w.links.filter fun l' => decide (l' ≠ l)) = w.links :=
      List.filter_eq_self.mpr fun l' hl' => decide_eq_true fun he => hl (he ▸ hl')
    rw [hrun, hfilter]
    exact h
  · obtain ⟨hsname, hscomp⟩ := h.named _ src hsrc
    rw [hrun]
    have hunlinked := h.withPeers (w.links.filter fun l' => decide (l' ≠ l)) (fun l' hl' => ?_) (fun l' hl' => ?_)
      (h.stores.unlink (s := .right) hends fun l' _ hl' => h.distinct.ends_inj hends hl')
    · exact hunlinked.recorded_by (hsname ▸ hsrc) (Daemon.recordDisconnection_follows hscomp)
    · exact h.recorded l' (List.mem_filter.mp hl').1
    · exact h.live l' (List.mem_filter.mp hl').1

/-- The schedulers know neither of the blocks of a composition nor of the links. -/
theorem Wired.schedule {library : BlockLibrary π} {w w' : Wiring π T} {act : SchedulerAct} (h : w.Wired)
    (hstep : w.step library (.schedule act) = some w') : w'.Wired := by
  obtain ⟨d, hd, rfl⟩ := Option.map_eq_some_iff.mp hstep
  obtain ⟨p, hp, rfl⟩ := Option.map_eq_some_iff.mp hd
  obtain ⟨hconfig, hgates⟩ := Process.schedule_kept hp
  have hends : ∀ l, ends { daemon := { w.daemon with process := p }, links := w.links } l = w.ends l := fun l =>
    Process.ends_congr (Process.shape_congr hconfig _ _) (Process.shape_congr hconfig _ _)
  refine ⟨h.named, h.recorded, ⟨?_, ?_, ?_⟩, fun l hl => ?_, ?_⟩
  · intro n n' b b' hb hb'
    rw [Process.shape_congr hconfig] at hb hb'
    exact h.distinct.addresses n n' b b' hb hb'
  · intro n b hb
    rw [Process.shape_congr hconfig] at hb
    exact h.distinct.inputs n b hb
  · intro n b hb
    rw [Process.shape_congr hconfig] at hb
    exact h.distinct.outputs n b hb
  · rw [hends]
    exact h.live l hl
  · rw [hgates]
    exact h.stores.congr fun l _ => hends l

/-- A call keeps the wiring, an update as long as it does not rebuild a block with links. -/
theorem Wired.step {library : BlockLibrary π} {w w' : Wiring π T} {call : GraphCall π} (h : w.Wired)
    (hcond : w.RebuildsUnlinked library call) (hstep : w.step library call = some w') : w'.Wired := by
  cases call with
  | connect l => exact h.connect hstep
  | disconnect l => exact h.disconnect hstep
  | update n => exact h.update hcond hstep
  | schedule act => exact h.schedule hstep

end Wiring

/-! ## Whole runs -/

/-- A daemon without connections is wired. -/
theorem Daemon.Unlinked.wired {c : String} {d : Daemon π T} (h : d.Unlinked c) : Wiring.Wired { daemon := d, links := [] } := by
  obtain rfl := h.compId
  refine ⟨h.named, ?_, ⟨fun n n' b b' hb hb' he => ?_, fun n b hb => ?_, fun n b hb => ?_⟩, ?_, ?_⟩
  · intro l hl
    cases hl
  · obtain ⟨b₁, hb₁, rfl⟩ := Process.shape_eq_some.mp hb
    obtain ⟨b₂, hb₂, rfl⟩ := Process.shape_eq_some.mp hb'
    exact h.process.addresses n n' b₁ b₂ hb₁ hb₂ he
  · obtain ⟨b₁, hb₁, rfl⟩ := Process.shape_eq_some.mp hb
    exact (h.process.numbered n b₁ hb₁).inputs
  · obtain ⟨b₁, hb₁, rfl⟩ := Process.shape_eq_some.mp hb
    exact (h.process.numbered n b₁ hb₁).outputs
  · intro l hl
    cases hl
  · intro s x y
    rw [h.process.empty]
    rfl

/-- The composition as built, without links. -/
def Wiring.start [Inhabited T] (library : BlockLibrary π) (compId : String) (setup : List (SetupCall π)) : Wiring π T :=
  { daemon := Daemon.built library compId setup, links := [] }

/-- In every run that rebuilds no block with a link, the gates hold exactly the links that were connected and not since
disconnected. -/
theorem links_live_of_run [Inhabited T] (library : BlockLibrary π) (compId : String) (setup : List (SetupCall π))
    (calls : List (GraphCall π)) (w : Wiring π T)
    (hcalls : Lts.Along (Wiring.step library) (Wiring.RebuildsUnlinked library)
      (Wiring.start library compId setup : Wiring π T) calls)
    (hrun : Lts.run (Wiring.step library) (Wiring.start library compId setup) calls = some w) : w.Live := by
  refine Wiring.Wired.toLive (Lts.run_inv_of_labels (I := fun _ w => w.Wired) (G := fun _ => True) (fun _ _ _ => trivial) ?_
    (Daemon.built_unlinked library compId setup).wired trivial hcalls hrun)
  intro _ m call m' _ hm hcond hstep
  exact hm.step hcond hstep

/-! ## Two blocks -/

/-- One class, whose blocks give one answer to all parameters. -/
def tapLibrary (answer : Bool) : BlockLibrary Unit where
  registered type :=
    if type = "Tap" then
      some
        { settles := id, inputGates := ["in_pkt"], outputGates := ["out_pkt"], construct := fun _ => .ok ()
          configure := fun _ _ => .ok () }
    else none
  initializeBlock _ := .ok ()
  updateConfig _ _ := .ok answer

/-- A `block` node of a tap. -/
def tapNode (id : String) : BlockNode Unit := ⟨id, "Tap", "", "", "", ()⟩

/-- The link from one tap to the other. -/
def tapLink : ConnectionNode := ⟨"a", "out_pkt", "b", "in_pkt"⟩

/-- Two taps, without pools. -/
def tapSetup : List (SetupCall Unit) := [.createBlock (tapNode "a"), .createBlock (tapNode "b")]

/-- A tap of a thread pool. -/
def queuedTap : BlockNode Unit := ⟨"b", "Tap", "p", "", "indirect", ()⟩

/-- A tap that is queued in a pool. -/
def queuedSetup : List (SetupCall Unit) := [.createPool ⟨"p", 1, []⟩, .createBlock (tapNode "a"), .createBlock queuedTap]

/-- The two taps are linked, and the worker of the pool takes the second one. -/
def tapTaken : List (GraphCall Unit) :=
  .connect tapLink :: .schedule .startSchedulers :: List.replicate 3 (.schedule (.worker "p" 0 ⟨[], [], .ok ()⟩))

/-- The worker has taken the block of the second tap, so its `m_running` is set. -/
theorem tapTaken_running {w : Wiring Unit Unit}
    (hrun : Lts.run (Wiring.step (tapLibrary false)) (Wiring.start (tapLibrary false) "comp" queuedSetup) tapTaken = some w) :
    w.daemon.compId = "comp" ∧ w.daemon.process.runtime.running = [1] ∧
      (w.daemon.process.getBlock "comp" "b").toOption.map Block.addr = some 1 := by
  have hcheck : (Lts.run (Wiring.step (tapLibrary false)) (Wiring.start (tapLibrary false) "comp" queuedSetup) tapTaken).map
      (fun w : Wiring Unit Unit => (w.daemon.compId, w.daemon.process.runtime.running,
        (w.daemon.process.getBlock "comp" "b").toOption.map Block.addr)) = some ("comp", [1], some 1) := by decide +kernel
  rw [hrun] at hcheck
  obtain ⟨hcomp, hrest⟩ := Prod.mk.inj (Option.some.inj hcheck)
  obtain ⟨hrunning, haddr⟩ := Prod.mk.inj hrest
  exact ⟨hcomp, hrunning, haddr⟩

/-- The link is there after an update of its second block with parameters that its class refuses, since a worker has taken the block. -/
theorem links_live_of_run_taps : ∃ w : Wiring Unit Unit,
    Lts.run (Wiring.step (tapLibrary false)) (Wiring.start (tapLibrary false) "comp" queuedSetup) (tapTaken ++ [.update queuedTap]) = some w ∧
      w.links = [tapLink] ∧ w.Live := by
  have hlinks : (Lts.run (Wiring.step (tapLibrary false)) (Wiring.start (tapLibrary false) "comp" queuedSetup)
      (tapTaken ++ [.update queuedTap])).map (fun w : Wiring Unit Unit => w.links) = some [tapLink] := by decide +kernel
  obtain ⟨w, hw, hlinks⟩ := Option.map_eq_some_iff.mp hlinks
  refine ⟨w, hw, hlinks, links_live_of_run (tapLibrary false) "comp" queuedSetup (tapTaken ++ [.update queuedTap]) w ?_ hw⟩
  refine Lts.along_snoc.mpr ⟨⟨trivial, fun _ _ => ⟨trivial, fun _ _ => ⟨trivial, fun _ _ => ⟨trivial, fun _ _ => ⟨trivial, fun _ _ => trivial⟩⟩⟩⟩⟩, ?_⟩
  rintro m hm ⟨node, b, -, hb, hnot, -⟩
  obtain ⟨hcomp, hrunning, haddr⟩ := tapTaken_running hm
  rw [hcomp] at hb
  rw [show queuedTap.id = "b" from rfl] at hb
  rw [hb] at haddr
  refine absurd ?_ hnot
  rw [hrunning, show b.addr = 1 from Option.some.inj haddr]
  exact List.mem_singleton_self 1

/-- After an update that the second block refuses, the link ends nowhere. -/
theorem update_loses_link : ¬∀ (library : BlockLibrary Unit) (compId : String) (setup : List (SetupCall Unit))
    (calls : List (GraphCall Unit)) (w : Wiring Unit Unit),
      Lts.run (Wiring.step library) (Wiring.start library compId setup) calls = some w → w.Live := by
  intro hall
  have hlive := hall (tapLibrary false) "comp" tapSetup
    [.connect tapLink, .update (tapNode "b")] _ rfl
  have hsome := hlive.live tapLink (by decide +kernel)
  revert hsome
  decide +kernel

end Blockmon
