import Blockmon.CompositionManager

/-!
# What the daemon calls (`daemon/backend_glue.cpp`, `core/composition/Composition.hpp`)

The functions that the python bindings export, on one `Process`. The texts that the daemon passes are documents with one element at
their root, of which the functions look for a `block` or for a `params`.

A block that is deleted from its composition keeps its address here and no new block gets it, so the pointers that its peers still
have to its gates point to no gate of a block in the map.
-/

namespace Blockmon

/-- A text with the configuration of a block, by the element at its root. -/
inductive ConfigText (π : Type) where
  | block (n : BlockNode π)
  | params (node : π)
  | other
  /-- Not a document. -/
  | malformed

/-- The block classes, and how `_update_config` ends on an object. -/
structure BlockLibrary (π : Type) extends BlockFactory π where
  updateConfig : Block → π → Except String Bool

namespace Composition

/-- `Composition::get_block` -/
def getBlock (m : Composition) (name : String) : Except String Block :=
  match m.map.find? name with
  | none => .error ("Composition:: requested non-existing block '" ++ name ++ "'")
  | some b => .ok b

/-- `Composition::delete_block` -/
def deleteBlock {T : Type} (name : String) : EStateM String (Site T) Unit := do
  if ((← get).composition.map.find? name).isNone then throw "Composition:: trying to delete non-existing block"
  modify fun s => { s with composition := { s.composition with map := s.composition.map.erase name } }

/-- `Composition::create_block`, on the text of one block. -/
def createBlock {π T : Type} (library : BlockLibrary π) (name type : String) (invocation : InvocationType) (config : ConfigText π) :
    EStateM String (Site T) Unit := do
  match config with
  | .malformed => throw "Composition::create_block: cannot parse config info"
  | .params _ => throw "Composition: cannot find block node"
  | .other => throw "Composition: cannot find block node"
  | .block n =>
    let _ ← createBlockFromParsed library.toBlockFactory type name invocation n

end Composition

namespace Process

variable {T : Type} {α : Type}

/-- `CompositionManager::get_composition` -/
def getComposition (w : Process T) (compId : String) : Except String Composition :=
  match w.configMap.find? compId with
  | none => .error "CompositionManager:: composition not found"
  | some m => .ok m

/-- A call on the composition that `get_composition` returns. -/
def onComposition (compId : String) (call : EStateM String (Site T) α) : EStateM String (Process T) α := fun w =>
  match w.configMap.find? compId with
  | none => .error "CompositionManager:: composition not found" w
  | some m =>
    match call.run ⟨m, w.runtime⟩ with
    | .ok a s => .ok a { w with configMap := w.configMap.assign compId s.composition, runtime := s.runtime }
    | .error e s => .error e { w with configMap := w.configMap.assign compId s.composition, runtime := s.runtime }

/-- `get_block` of the named composition. -/
def getBlock (w : Process T) (compId name : String) : Except String Block := do
  let m ← w.getComposition compId
  m.getBlock name

/-- The output gate of a block, with the throws of both lookups. -/
def getOutputGate (w : Process T) (compId name gate : String) : Except String GateRef := do
  let b ← w.getBlock compId name
  b.getOutputGate gate

/-- The input gate of a block, likewise. -/
def getInputGate (w : Process T) (compId name gate : String) : Except String GateRef := do
  let b ← w.getBlock compId name
  b.getInputGate gate

/-- `Block::set_invocation`. A worker sets `m_running` of every block that it takes, and nothing clears it. -/
def setInvocation (w : Process T) (b : Block) (invocation : InvocationType) : Except String Block :=
  if b.addr ∈ w.runtime.running then .error "cannot change invocation while block is running"
  else .ok { b with invocation := invocation }

end Process

/-! ## The functions of the module `blockmon` that the daemon loads -/

namespace Backend

variable {π T : Type}

/-- `to_invoc_type`: everything but the two known names is direct. -/
def toInvocType (s : String) : InvocationType :=
  if s = "async" then .Async else if s = "indirect" then .Indirect else .Direct

/-- `CompositionManager::add_composition` -/
def addComposition (name : String) : EStateM String (Process T) Unit := do
  if ((← get).configMap.find? name).isSome then throw (name ++ " : composition already exists")
  modify fun w => { w with configMap := w.configMap.assign name (Composition.new name) }

/-- `CompositionManager::create_connection` -/
def createConnection (fromComposition fromBlock fromGate toComposition toBlock toGate : String) :
    EStateM String (Process T) Unit := do
  let src ← ofExcept ((← get).getOutputGate fromComposition fromBlock fromGate)
  let dst ← ofExcept ((← get).getInputGate toComposition toBlock toGate)
  Process.onRuntime (Runtime.onGates (OutGate.connect src dst))
  Process.onRuntime (Runtime.onGates (InGate.connect dst src))

/-- `CompositionManager::delete_connection`: a throw of the second `disconnect` leaves the first done. -/
def deleteConnection (fromComposition fromBlock fromGate toComposition toBlock toGate : String) :
    EStateM String (Process T) Unit := do
  let src ← ofExcept ((← get).getOutputGate fromComposition fromBlock fromGate)
  let dst ← ofExcept ((← get).getInputGate toComposition toBlock toGate)
  Process.onRuntime (Runtime.onGates (OutGate.disconnect src dst))
  Process.onRuntime (Runtime.onGates (InGate.disconnect dst src))

/-- `CompositionManager::create_block` -/
def createBlock (library : BlockLibrary π) (compId name type : String) (invocation : InvocationType) (config : ConfigText π) :
    EStateM String (Process T) Unit :=
  Process.onComposition compId (Composition.createBlock library name type invocation config)

/-- `CompositionManager::delete_block` -/
def deleteBlock (compId name : String) : EStateM String (Process T) Unit :=
  Process.onComposition compId (Composition.deleteBlock name)

/-- `CompositionManager::update_block`: the invocation is set before the configuration is read by the block. -/
def updateBlock (library : BlockLibrary π) (compId name : String) (invocation : InvocationType) (config : ConfigText π) :
    EStateM String (Process T) Bool := do
  match config with
  | .malformed => throw "update_config::cannot parse config info"
  | .block _ => throw "Configuration: cannot find params node"
  | .other => throw "Configuration: cannot find params node"
  | .params node =>
    let b ← ofExcept ((← get).getBlock compId name)
    let b ← ofExcept ((← get).setInvocation b invocation)
    Process.onComposition compId (modify fun s =>
      { s with composition := { s.composition with map := s.composition.map.assign name b } })
    ofExcept (library.updateConfig b node)

/-- `CompositionManager::add_block_to_thread_pool` -/
def addBlockToThreadPool (compId name pool : String) : EStateM String (Process T) Unit := do
  let b ← ofExcept ((← get).getBlock compId name)
  Process.onRuntime (Runtime.onPools (PoolManager.addToPool pool b.addr))

/-- `CompositionManager::remove_block_from_thread_pool` -/
def removeBlockFromThreadPool (compId name pool : String) : EStateM String (Process T) Unit := do
  let b ← ofExcept ((← get).getBlock compId name)
  Process.onRuntime (Runtime.onPools (PoolManager.removeFromPool pool b.addr))

/-- `CompositionManager::add_thread_pool` -/
def addThreadPool (poolConfig : PoolNode) : EStateM String (Process T) Unit :=
  Process.onRuntime (Runtime.onPools (PoolManager.createPool poolConfig))

end Backend

/-! ## The schedulers -/

/-- The block that worker `i` of a pool takes in its next step: `next_task` is followed by `set_running(true)`. -/
def PoolManager.taken {β : Type} (m : PoolManager β) (name : String) (i : Nat) : Option β := do
  let p ← m.map.find? name
  if (p.threads i).pc = .fetch then (DumbScheduler.nextTask p.queue).1 else none

/-- What happens between two other calls of the daemon: a call on the schedulers, or a step of a worker. -/
inductive SchedulerAct where
  | startSchedulers
  /-- What the workers leave, and the blocks that they took before they were joined, is not determined by the pools. -/
  | stopSchedulers (left : String → Leftover Nat) (taken : List Nat)
  | worker (name : String) (i : Nat) (inp : RunInput)

/-- The process with other pools, and with `m_running` set of the blocks `taken`. -/
def Process.withPools {T : Type} (w : Process T) (taken : List Nat) (pools : PoolManager Nat) : Process T :=
  { w with runtime := { w.runtime with pools := pools, running := taken ++ w.runtime.running } }

/-- The process after the step, if it can be made. -/
def Process.schedule {T : Type} (w : Process T) : SchedulerAct → Option (Process T)
  | .startSchedulers => (w.runtime.pools.step .start).map (w.withPools [])
  | .stopSchedulers left taken => (w.runtime.pools.step (.stop left)).map (w.withPools taken)
  | .worker name i inp => (w.runtime.pools.step (.worker name i inp)).map (w.withPools (w.runtime.pools.taken name i).toList)

end Blockmon
