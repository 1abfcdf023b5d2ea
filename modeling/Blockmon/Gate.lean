import Blockmon.DBQueue
import Blockmon.Lib.Exn
import Blockmon.Lib.HalfEdges

/-!
# Gates (`core/block/InGate.cpp`, `core/block/OutGate.hpp`)

A link is stored in the two gates it connects: each keeps a vector of pointers to its peers. The gates of all the blocks are one
state here; a pointer to a gate is the address of the block that owns it and the index in the block's vector of gates. Input gates
are the left side of the half-edges, output gates the right side.

`connect`, `disconnect` and the loop of `disconnect_all` read the same in the two classes, so each is one definition for both
sides. `disconnect_all` of an input gate also resets the queue of the gate.
-/

namespace Blockmon

open HalfEdges

/-- A gate, by the address of its block and its number there. -/
structure GateRef where
  block : Nat
  index : Nat
deriving DecidableEq

/-- The peers of all gates and the queues of the input gates. -/
structure Gates (T : Type) where
  peers : Adj GateRef
  queue : GateRef → DBQueue T

namespace Gates

variable {T : Type}

/-- The gates as constructed. -/
def new [Inhabited T] : Gates T := { peers := Adj.empty, queue := fun _ => DBQueue.new }

/-- A gate gets a peer. -/
def connect (s : Side) (x y : GateRef) : EStateM String (Gates T) Unit :=
  modify fun g => { g with peers := g.peers.link s x y }

/-- All the pointers to the peer are removed; if there was none to remove, `std::remove` returns the end of the vector. -/
def disconnect (s : Side) (x y : GateRef) : EStateM String (Gates T) Unit := do
  let g ← get
  let rest := (g.peers s x).filter (· ≠ y)
  if rest.length = (g.peers s x).length then throw "trying to disconect a non-connected gate"
  set { g with peers := g.peers.set s x rest }

/-- The loop of `disconnect_all`: the vector it goes through is not changed by the calls it makes on the peers. -/
def disconnectPeers (s : Side) (x : GateRef) : EStateM String (Gates T) Unit := do
  forM ((← get).peers s x) fun y => disconnect s.other y x

/-- `m_peers.clear()`. -/
def clearPeers (s : Side) (x : GateRef) : EStateM String (Gates T) Unit :=
  modify fun g => { g with peers := g.peers.set s x [] }

end Gates

namespace InGate

variable {T : Type}

/-- `InGate::connect` -/
def connect (gate out : GateRef) : EStateM String (Gates T) Unit := Gates.connect .left gate out

/-- `InGate::disconnect` -/
def disconnect (gate out : GateRef) : EStateM String (Gates T) Unit := Gates.disconnect .left gate out

/-- `InGate::disconnect_all` -/
def disconnectAll [Inhabited T] (Qlen : Nat) (gate : GateRef) : EStateM String (Gates T) Unit := do
  Gates.disconnectPeers .left gate
  Gates.clearPeers .left gate
  modify fun g => { g with queue := Function.update g.queue gate ((g.queue gate).reset Qlen) }

end InGate

namespace OutGate

variable {T : Type}

/-- `OutGate::connect` -/
def connect (gate inp : GateRef) : EStateM String (Gates T) Unit := Gates.connect .right gate inp

/-- `OutGate::disconnect` -/
def disconnect (gate inp : GateRef) : EStateM String (Gates T) Unit := Gates.disconnect .right gate inp

/-- `OutGate::disconnect_all` -/
def disconnectAll (gate : GateRef) : EStateM String (Gates T) Unit := do
  Gates.disconnectPeers .right gate
  Gates.clearPeers .right gate

end OutGate

/-! ## What the calls do -/

namespace Gates

variable {T : Type} {s : Side} {x y : GateRef}

@[simp] theorem run_connect (g : Gates T) : (connect s x y).run g = .ok () { g with peers := g.peers.link s x y } := rfl

/-- `disconnect` throws exactly when the other gate is not among the peers, and then changes nothing. -/
theorem run_disconnect (g : Gates T) :
    (disconnect s x y).run g =
      if y ∈ g.peers s x then .ok () { g with peers := g.peers.unlink s x y }
      else .error "trying to disconect a non-connected gate" g := by
  have hlen : ((g.peers s x).filter (· ≠ y)).length = (g.peers s x).length ↔ y ∉ g.peers s x := by
    rw [List.length_filter_eq_length_iff]
    constructor
    · intro h hy
      simpa using h y hy
    · intro hy z hz
      exact decide_eq_true fun he => hy (he ▸ hz)
  by_cases hy : y ∈ g.peers s x
  · have hne : ¬((g.peers s x).filter (· ≠ y)).length = (g.peers s x).length := fun h => hlen.mp h hy
    simp only [disconnect, EStateM.run_bind, EStateM.run_get, if_neg hne, if_pos hy]
    rfl
  · simp only [disconnect, EStateM.run_bind, EStateM.run_get, if_pos (hlen.mpr hy), if_neg hy]
    rfl

end Gates

end Blockmon
