import Blockmon.Lemmas.Gate

/-!
# The graph of links

After any calls of `create_link` and `delete_link` the two ends of every link agree, and a call that throws has changed nothing.
`disconnect_all` detaches a gate completely exactly when the gate has no parallel links.
-/

namespace Blockmon

open HalfEdges

variable {T : Type} [Inhabited T]

/-- Every output gate lists an input gate as often as the input gate lists it, and calls that throw leave the peer lists alone. -/
theorem links_symmetric (m : Composition) (cs : List LinkCall) :
    (∀ inp out : GateRef,
      ((m.linked cs : Gates T).peers .right out).count inp = ((m.linked cs : Gates T).peers .left inp).count out) ∧
    ∀ (c : LinkCall) (e : String) (g' : Gates T), (c.exec m).run (m.linked cs) = .error e g' →
      g'.peers = (m.linked cs : Gates T).peers := by
  have hb : Balanced (m.linked cs : Gates T).peers := m.balanced_linked cs
  refine ⟨fun inp out => hb .right out inp, fun c e g' h => ?_⟩
  have heff := LinkCall.effect m c hb
  rw [h] at heff
  cases heff
  rfl

/-- Three blocks, a source with an output gate, and a sink and a spare one with an input gate. -/
def sourceAndSink : Composition where
  id := "c"
  map :=
    ((OrdMap.empty.assign "source" ((Block.new 0 "source" .Direct).registerOutputGate "out")).assign "sink"
      ((Block.new 1 "sink" .Direct).registerInputGate "in")).assign "spare" ((Block.new 2 "spare" .Direct).registerInputGate "in")

/-- Two parallel links to the sink, and one to the spare block that is deleted again. -/
def twoLinks : List LinkCall :=
  [.createLink "source" "out" "sink" "in", .createLink "source" "out" "spare" "in", .createLink "source" "out" "sink" "in",
    .deleteLink "source" "out" "spare" "in"]

/-- The link to the spare block is deleted a second time: the call throws and the two others stay. -/
theorem deleteLink_throws_without_link :
    ((sourceAndSink.linked twoLinks : Gates Nat).peers .right ⟨0, 0⟩).count ⟨1, 0⟩ = 2 ∧
      ((sourceAndSink.linked twoLinks : Gates Nat).peers .left ⟨1, 0⟩).count ⟨0, 0⟩ = 2 ∧
      ∃ (e : String) (g' : Gates Nat),
        ((LinkCall.deleteLink "source" "out" "spare" "in").exec sourceAndSink).run (sourceAndSink.linked twoLinks) = .error e g' ∧
          g'.peers = (sourceAndSink.linked twoLinks : Gates Nat).peers := by
  obtain ⟨hsymmetric, hthrows⟩ := links_symmetric (T := Nat) sourceAndSink twoLinks
  have htwo : ((sourceAndSink.linked twoLinks : Gates Nat).peers .right ⟨0, 0⟩).count ⟨1, 0⟩ = 2 := by decide +kernel
  obtain ⟨e, g', hrun⟩ : ∃ e g', ((LinkCall.deleteLink "source" "out" "spare" "in").exec sourceAndSink).run
      (sourceAndSink.linked twoLinks : Gates Nat) = .error e g' := ⟨_, _, rfl⟩
  exact ⟨htwo, (hsymmetric ⟨1, 0⟩ ⟨0, 0⟩).symm.trans htwo, e, g', hrun, hthrows _ e g' hrun⟩

/-! ## Detaching a gate -/

/-- A call on the gates `g` has returned and has detached the gate `x` of side `s` completely: nobody has it among its peers, it
has no peers, and the links between other gates are as before. -/
def Detached (s : Side) (x : GateRef) (g : Gates T) (r : EStateM.Result String (Gates T) Unit) : Prop :=
  ∃ g', r = .ok () g' ∧ g'.peers s x = [] ∧ (∀ y, x ∉ g'.peers s.other y) ∧ (∀ z, z ≠ x → g'.peers s z = g.peers s z) ∧
    ∀ y, g'.peers s.other y = (g.peers s.other y).filter (· ≠ x)

omit [Inhabited T] in
/-- What is left when the peers have dropped the gate and its own list was cleared. -/
theorem detached_of_nodup {s : Side} {x : GateRef} {g g' : Gates T} (hb : Balanced g.peers)
    (hg : g'.peers = (g.peers.unlinkFrom s.other (g.peers s x) x).set s x []) : Detached s x g (.ok () g') := by
  obtain ⟨hother, hself⟩ := hb.unlinkFrom s x
  have hpeers : ∀ y, g'.peers s.other y = (g.peers s.other y).filter (· ≠ x) := by
    intro y
    rw [hg, Adj.set_of_ne (Or.inl s.other_ne)]
    exact hother y
  refine ⟨g', rfl, by rw [hg, Adj.set_self], fun y => ?_, fun z hz => ?_, hpeers⟩
  · rw [hpeers y]
    simp
  · rw [hg, Adj.set_of_ne (Or.inr hz)]
    exact hself z

/-- An input gate is detached on both sides just when it has no parallel links. -/
theorem InGate.detached_iff (Qlen : Nat) (gate : GateRef) {g : Gates T} (hb : Balanced g.peers) :
    Detached .left gate g ((InGate.disconnectAll Qlen gate).run g) ↔ (g.peers .left gate).Nodup := by
  constructor
  · rintro ⟨g', hr, -⟩
    by_contra hnd
    obtain ⟨e, g'', he⟩ := Gates.disconnectPeers_throws hnd
    simp [InGate.disconnectAll, EStateM.run_bind, he] at hr
  · intro hnd
    simp only [InGate.disconnectAll, EStateM.run_bind, (Gates.run_disconnectPeers hb).mp hnd]
    exact detached_of_nodup hb rfl

omit [Inhabited T] in
/-- An output gate is detached on both sides just when it has no parallel links. -/
theorem OutGate.detached_iff (gate : GateRef) {g : Gates T} (hb : Balanced g.peers) :
    Detached .right gate g ((OutGate.disconnectAll gate).run g) ↔ (g.peers .right gate).Nodup := by
  constructor
  · rintro ⟨g', hr, -⟩
    by_contra hnd
    obtain ⟨e, g'', he⟩ := Gates.disconnectPeers_throws hnd
    simp [OutGate.disconnectAll, EStateM.run_bind, he] at hr
  · intro hnd
    simp only [OutGate.disconnectAll, EStateM.run_bind, (Gates.run_disconnectPeers hb).mp hnd]
    exact detached_of_nodup hb rfl

/-- In every graph of links, `disconnect_all` of either class does its work exactly on the gates without parallel links. -/
theorem disconnectAll_detaches_iff (Qlen : Nat) (m : Composition) (cs : List LinkCall) (gate : GateRef) :
    (Detached .left gate (m.linked cs : Gates T) ((InGate.disconnectAll Qlen gate).run (m.linked cs)) ↔
      ((m.linked cs : Gates T).peers .left gate).Nodup) ∧
    (Detached .right gate (m.linked cs : Gates T) ((OutGate.disconnectAll gate).run (m.linked cs)) ↔
      ((m.linked cs : Gates T).peers .right gate).Nodup) :=
  ⟨InGate.detached_iff Qlen gate (m.balanced_linked cs), OutGate.detached_iff gate (m.balanced_linked cs)⟩

/-- The link made twice: `disconnect_all` of the input gate throws. -/
theorem disconnectAll_throws_on_parallel_links :
    let cs := [LinkCall.createLink "source" "out" "sink" "in", .createLink "source" "out" "sink" "in"]
    ¬Detached .left ⟨1, 0⟩ (sourceAndSink.linked cs : Gates Nat)
      ((InGate.disconnectAll 4 ⟨1, 0⟩).run (sourceAndSink.linked cs)) := by
  intro cs
  rw [InGate.detached_iff 4 ⟨1, 0⟩ (sourceAndSink.balanced_linked cs)]
  decide +kernel

end Blockmon
