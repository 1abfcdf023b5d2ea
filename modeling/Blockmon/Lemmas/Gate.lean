import Blockmon.Composition

/-!
# What the calls on links do

A call of `create_link` or `delete_link` throws and changes nothing, or it writes or removes both halves of the links between two
gates, so it keeps the peer lists balanced. `disconnect_all` goes through the peers of a gate and makes each of them drop all its
pointers to the gate; the second pointer to the same peer then finds nothing to drop.
-/

namespace Blockmon

open HalfEdges

variable {T : Type}

namespace Gates

variable {s : Side} {x y : GateRef}

/-- The calls on the peers succeed if no peer occurs twice: all of them drop the gate. -/
theorem run_forM_disconnect {ys : List GateRef} (hys : ys.Nodup) {g : Gates T} (hmem : ∀ y ∈ ys, x ∈ g.peers s y) :
    (forM ys fun y => disconnect s y x).run g = .ok () { g with peers := g.peers.unlinkFrom s ys x } := by
  induction ys generalizing g with
  | nil => simp
  | cons y ys ih =>
    obtain ⟨hy, hrest⟩ := List.nodup_cons.mp hys
    have hstep := run_disconnect (s := s) (x := y) (y := x) g
    rw [if_pos (hmem y List.mem_cons_self)] at hstep
    have hmem' : ∀ z ∈ ys, x ∈ (g.peers.unlink s y x) s z := by
      intro z hz
      have hne : z ≠ y := fun h => hy (h ▸ hz)
      rw [Adj.unlink, Adj.set_of_ne (Or.inr hne)]
      exact hmem z (List.mem_cons_of_mem _ hz)
    rw [List.forM_cons, EStateM.run_bind, hstep, Adj.unlinkFrom_cons]
    exact ih hrest hmem'

/-- If the calls on the peers succeed, every peer had the gate, and none occurs twice. -/
theorem nodup_of_run_forM_disconnect {ys : List GateRef} {g g' : Gates T}
    (h : (forM ys fun y => disconnect s y x).run g = .ok () g') : ys.Nodup ∧ ∀ y ∈ ys, x ∈ g.peers s y := by
  induction ys generalizing g with
  | nil => exact ⟨List.nodup_nil, by simp⟩
  | cons y ys ih =>
    rw [List.forM_cons, EStateM.run_bind, run_disconnect] at h
    by_cases hy : x ∈ g.peers s y
    · rw [if_pos hy] at h
      obtain ⟨hnd, hmem⟩ := ih h
      have hkept : ∀ z ∈ ys, z ≠ y ∧ x ∈ g.peers s z := by
        intro z hz
        have hx := hmem z hz
        by_cases hzy : z = y
        · subst hzy
          simp [Adj.unlink] at hx
        · simp only [Adj.unlink, Adj.set_of_ne (Or.inr hzy)] at hx
          exact ⟨hzy, hx⟩
      refine ⟨List.nodup_cons.mpr ⟨fun hin => (hkept y hin).1 rfl, hnd⟩, fun z hz => ?_⟩
      rcases List.mem_cons.mp hz with rfl | hz
      · exact hy
      · exact (hkept z hz).2
    · rw [if_neg hy] at h
      cases h

/-- The loop of `disconnect_all`, when the links are balanced: it returns exactly when no peer occurs twice. -/
theorem run_disconnectPeers {g : Gates T} (hb : Balanced g.peers) :
    (g.peers s x).Nodup ↔
      (disconnectPeers s x).run g = .ok () { g with peers := g.peers.unlinkFrom s.other (g.peers s x) x } := by
  simp only [disconnectPeers, EStateM.run_bind, EStateM.run_get]
  constructor
  · intro hnd
    exact run_forM_disconnect hnd fun y hy => hb.mem.mp hy
  · intro h
    exact (nodup_of_run_forM_disconnect h).1

/-- A gate with a peer twice: the loop of `disconnect_all` throws. -/
theorem disconnectPeers_throws {g : Gates T} (h : ¬(g.peers s x).Nodup) :
    ∃ e g', (disconnectPeers s x).run g = .error e g' := by
  simp only [disconnectPeers, EStateM.run_bind, EStateM.run_get]
  cases hr : (forM (g.peers s x) fun y => disconnect s.other y x).run g with
  | ok u g' => exact absurd (nodup_of_run_forM_disconnect hr).1 h
  | error e g' => exact ⟨e, g', rfl⟩

end Gates

/-! ## Links by name -/

/-- What a call on the links does. -/
inductive LinkEffect (g : Gates T) : EStateM.Result String (Gates T) Unit → Prop
  | threw (e : String) : LinkEffect g (.error e g)
  | linked (src dst : GateRef) : LinkEffect g (.ok () { g with peers := (g.peers.link .left dst src).link .right src dst })
  | unlinked (src dst : GateRef) :
      LinkEffect g (.ok () { g with peers := (g.peers.unlink .left dst src).unlink .right src dst })

/-- What `create_link` does to the gates. -/
theorem Composition.createLink_effect (m : Composition) (fb fg tb tg : String) (g : Gates T) :
    LinkEffect g ((m.createLink fb fg tb tg).run g) := by
  simp only [createLink, EStateM.run_bind, Exn.run_ofExcept]
  cases m.findOutputGate fb fg with
  | error e => exact .threw e
  | ok src =>
    cases m.findInputGate tb tg with
    | error e => exact .threw e
    | ok dst => exact .linked src dst

/-- The half in the input gate is removed first; if it was there, so is the other half. -/
theorem Composition.deleteLink_effect (m : Composition) (fb fg tb tg : String) {g : Gates T} (hb : Balanced g.peers) :
    LinkEffect g ((m.deleteLink fb fg tb tg).run g) := by
  simp only [deleteLink, EStateM.run_bind, Exn.run_ofExcept]
  cases m.findOutputGate fb fg with
  | error e => exact .threw e
  | ok src =>
    cases m.findInputGate tb tg with
    | error e => exact .threw e
    | ok dst =>
      simp only [InGate.disconnect, OutGate.disconnect, Gates.run_disconnect]
      by_cases hin : src ∈ g.peers .left dst
      · have hout : dst ∈ (g.peers.unlink .left dst src) .right src := by
          rw [Adj.unlink, Adj.set_of_ne (Or.inl (by decide))]
          exact hb.mem.mp hin
        simp only [if_pos hin, if_pos hout]
        exact .unlinked src dst
      · simp only [if_neg hin]
        exact .threw _

/-- What a call about links does to the gates. -/
theorem LinkCall.effect (m : Composition) (c : LinkCall) {g : Gates T} (hb : Balanced g.peers) :
    LinkEffect g ((c.exec m).run g) := by
  cases c with
  | createLink fb fg tb tg => exact m.createLink_effect fb fg tb tg g
  | deleteLink fb fg tb tg => exact m.deleteLink_effect fb fg tb tg hb

/-- A call keeps the gates balanced. -/
theorem LinkEffect.balanced {g : Gates T} {r : EStateM.Result String (Gates T) Unit} (h : LinkEffect g r)
    (hb : Balanced g.peers) : Balanced (Exn.leaves r).peers := by
  cases h with
  | threw e => exact hb
  | linked src dst => exact hb.link .left dst src
  | unlinked src dst => exact hb.unlink .left dst src

/-- After any calls on the links, the two ends of every link agree. -/
theorem Composition.balanced_linked [Inhabited T] (m : Composition) (cs : List LinkCall) :
    Balanced (m.linked cs : Gates T).peers :=
  Exn.runCalls_inv (I := fun g : Gates T => Balanced g.peers) (fun _ c hb => (LinkCall.effect m c hb).balanced hb)
    balanced_empty cs

end Blockmon
