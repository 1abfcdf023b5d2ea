import Blockmon.BackendGlue
import Blockmon.Lib.Lts

/-!
# The daemon's side of a composition (`daemon/core/block.py`, `daemon/core/threadpool.py`, `daemon/core/composition.py`)

The daemon keeps its own record of every block and of every thread pool and calls the backend to change the C++ side. A method that
raises leaves what it has done so far on both sides. A reference to a pool object is the name of the pool, and `tpool` stands for
the two attributes `tpool_id` and `tpool`, which are set together; a block without a pool has the empty name and `None`.

`listed` and `received` are histories for the statements: what was done to the block lists of the pools, and what the C++ pools
were told.
-/

namespace Blockmon

/-- A `Connection` record: only the composition and the name of the other block are read. -/
structure Connection where
  srcGate : String
  dstComp : String
  dstBlock : String
  dstGate : String

/-- A `Block` of the daemon. -/
structure DaemonBlock (π : Type) where
  name : String
  blockType : String
  compId : String
  invocation : String
  inv : InvocationType
  tpool : Option String
  params : ConfigText π
  connections : List Connection
  ingates : OrdMap String (List (String × String × String))
  outgates : OrdMap String (List (String × String × String))

/-- A change of the blocks of a thread pool. -/
inductive PoolCall where
  | add (pool compId name : String)
  | remove (pool compId name : String)
deriving DecidableEq

/-- A `CompositionManager` of the daemon, with the C++ side. -/
structure Daemon (π T : Type) where
  compId : String
  blocks : OrdMap String (DaemonBlock π)
  /-- The block lists of the `ThreadPool` objects. -/
  threadPools : OrdMap String (List (String × String))
  process : Process T
  listed : List PoolCall
  received : List PoolCall

/-- The test on the invocation that the methods of `Block` make. -/
def queuedInvocation (invocation : String) : Bool := invocation = "indirect" ∨ invocation = "async"

namespace Daemon

variable {π T α : Type}

/-- A call of the daemon into the library: what it throws, the daemon throws on. -/
def onBackend (call : EStateM String (Process T) α) : EStateM String (Daemon π T) α :=
  Exn.onPart Daemon.process (fun d w => { d with process := w }) call

/-! ## `ThreadPool` -/

/-- The block list of a pool. -/
def blocksOf (d : Daemon π T) (pool : String) : List (String × String) := (d.threadPools.find? pool).getD []

/-- The block enters the list of its pool. -/
def addToList (pool compId name : String) (d : Daemon π T) : Daemon π T :=
  { d with
    threadPools := d.threadPools.assign pool (d.blocksOf pool ++ [(compId, name)])
    listed := d.listed ++ [.add pool compId name] }

/-- The block leaves the list of its pool. -/
def removeFromList (pool compId name : String) (d : Daemon π T) : Daemon π T :=
  { d with
    threadPools := d.threadPools.assign pool ((d.blocksOf pool).erase (compId, name))
    listed := d.listed ++ [.remove pool compId name] }

/-- `ThreadPool.add_block`: the list is changed before the library is called. -/
def poolAddBlock (pool compId name : String) : EStateM String (Daemon π T) Unit := do
  modify (addToList pool compId name)
  onBackend (Backend.addBlockToThreadPool compId name pool)
  modify fun d => { d with received := d.received ++ [.add pool compId name] }

/-- `ThreadPool.remove_block`, likewise. -/
def poolRemoveBlock (pool compId name : String) : EStateM String (Daemon π T) Unit := do
  if (compId, name) ∉ (← get).blocksOf pool then throw "list.remove(x): x not in list"
  modify (removeFromList pool compId name)
  onBackend (Backend.removeBlockFromThreadPool compId name pool)
  modify fun d => { d with received := d.received ++ [.remove pool compId name] }

/-- A method call on the pool of a block, which may be `None`. -/
def onTpool (tpool : Option String) (method : String) (call : String → EStateM String (Daemon π T) Unit) :
    EStateM String (Daemon π T) Unit :=
  match tpool with
  | none => throw ("'NoneType' object has no attribute '" ++ method ++ "'")
  | some pool => call pool

/-! ## `Block` -/

/-- The entry of the manager's dictionary. -/
def getBlock (name : String) : EStateM String (Daemon π T) (DaemonBlock π) := do
  match (← get).blocks.find? name with
  | none => throw name
  | some b => return b

/-- An assignment to attributes of the block. -/
def setBlock (b : DaemonBlock π) : EStateM String (Daemon π T) Unit :=
  modify fun d => { d with blocks := d.blocks.assign b.name b }

/-- `Block.__init__`, and the assignment to the dictionary when it has returned. -/
def initBlock (library : BlockLibrary π) (name blockType invocation : String) (params : ConfigText π) (tpool : Option String) :
    EStateM String (Daemon π T) Unit := do
  let compId := (← get).compId
  let inv := Backend.toInvocType invocation
  onBackend (Backend.createBlock library compId name blockType inv params)
  if queuedInvocation invocation then onTpool tpool "add_block" fun pool => poolAddBlock pool compId name
  setBlock
    { name := name, blockType := blockType, compId := compId, invocation := invocation, inv := inv, tpool := tpool, params := params
      connections := [], ingates := OrdMap.empty, outgates := OrdMap.empty }

/-- `Block.remove` -/
def removeBlock (self : DaemonBlock π) : EStateM String (Daemon π T) Unit := do
  if queuedInvocation self.invocation then
    onTpool self.tpool "remove_block" fun pool => poolRemoveBlock pool self.compId self.name
  onBackend (Backend.deleteBlock self.compId self.name)

/-- `Block.restore`: every connection is replayed with this block as its source. -/
def restoreBlock (library : BlockLibrary π) (self : DaemonBlock π) : EStateM String (Daemon π T) Unit := do
  onBackend (Backend.createBlock library self.compId self.name self.blockType self.inv self.params)
  forM self.connections fun c =>
    onBackend (Backend.createConnection self.compId self.name c.srcGate c.dstComp c.dstBlock c.dstGate)
  if queuedInvocation self.invocation then
    onTpool self.tpool "add_block" fun pool => poolAddBlock pool self.compId self.name

/-- The part of `update` that moves the block to another pool. -/
def changePool (self : DaemonBlock π) (tpool : Option String) : EStateM String (Daemon π T) Unit := do
  onTpool self.tpool "add_block" fun pool => poolAddBlock pool self.compId self.name
  setBlock { self with tpool := tpool }
  onTpool tpool "remove_block" fun pool => poolRemoveBlock pool self.compId self.name

/-- `Block.update` on the block with the given name. -/
def updateBlock (library : BlockLibrary π) (name invocation : String) (params : ConfigText π) (tpool : Option String) :
    EStateM String (Daemon π T) Unit := do
  let old ← getBlock name
  let self := { old with params := params, invocation := invocation, inv := Backend.toInvocType invocation }
  setBlock self
  if queuedInvocation invocation ∧ tpool ≠ self.tpool then changePool self tpool
  let updated ← onBackend (Backend.updateBlock library self.compId self.name self.inv params)
  if !updated then
    let self ← getBlock name
    removeBlock self
    restoreBlock library self

/-! ## `CompositionManager` -/

/-- One more entry under the name of the gate. -/
def addGate (gates : OrdMap String (List (String × String × String))) (mygate compId name othergate : String) :
    OrdMap String (List (String × String × String)) :=
  gates.assign mygate ((gates.find? mygate).getD [] ++ [(compId, name, othergate)])

/-- `add_connection` to the gates of one direction, and the new entry of `connections`. -/
def addConnection (self : DaemonBlock π) (mygate : String) (other : DaemonBlock π) (othergate : String) (direction : HalfEdges.Side) :
    DaemonBlock π :=
  let connections := self.connections ++ [⟨mygate, other.compId, other.name, othergate⟩]
  match direction with
  | .left => { self with ingates := addGate self.ingates mygate other.compId other.name othergate, connections := connections }
  | .right => { self with outgates := addGate self.outgates mygate other.compId other.name othergate, connections := connections }

/-- The removal from the list under a gate, which raises when the gate or the entry is missing. -/
def removeGate (gates : OrdMap String (List (String × String × String))) (mygate compId name othergate : String) :
    Except String (OrdMap String (List (String × String × String))) :=
  match gates.find? mygate with
  | none => .error mygate
  | some entries =>
    if (compId, name, othergate) ∈ entries then .ok (gates.assign mygate (entries.erase (compId, name, othergate)))
    else .error "list.remove(x): x not in list"

/-- `remove_connection` does not look at the direction: it takes the input gates if they have one of that name. -/
def removeConnection (self : DaemonBlock π) (mygate : String) (other : DaemonBlock π) (othergate : String) :
    Except String (DaemonBlock π) :=
  if (self.ingates.find? mygate).isSome then do
    let gates ← removeGate self.ingates mygate other.compId other.name othergate
    return { self with ingates := gates }
  else do
    let gates ← removeGate self.outgates mygate other.compId other.name othergate
    return { self with outgates := gates }

/-- The connections of one block are written before the other block is looked at, which may be the same one. -/
def connectBlocks (b1 g1 b2 g2 : String) : EStateM String (Daemon π T) Unit := do
  let src ← getBlock b1
  let dst ← getBlock b2
  onBackend (Backend.createConnection src.compId src.name g1 dst.compId dst.name g2)
  setBlock (addConnection src g1 dst g2 .right)
  setBlock (addConnection (← getBlock b2) g2 src g1 .left)

/-- `Composition.__disconnect_blocks` -/
def disconnectBlocks (b1 g1 b2 g2 : String) : EStateM String (Daemon π T) Unit := do
  let src ← getBlock b1
  let dst ← getBlock b2
  onBackend (Backend.deleteConnection src.compId src.name g1 dst.compId dst.name g2)
  setBlock (← ofExcept (removeConnection src g1 dst g2))
  setBlock (← ofExcept (removeConnection (← getBlock b2) g2 src g1))

/-- The pool that a `block` node names, looked up only for a queued invocation. -/
def nodePool (d : Daemon π T) (invocation threadpool : String) : Except String (Option String) :=
  if queuedInvocation invocation then
    if (d.threadPools.find? threadpool).isSome then .ok (some threadpool) else .error threadpool
  else .ok none

/-- The invocation of a `block` node; a missing attribute reads as the empty string. -/
def nodeInvocation (invocation : String) : String := if invocation = "" then "direct" else invocation

/-- `Composition.__create_pool` -/
def createPool (n : PoolNode) : EStateM String (Daemon π T) Unit := do
  onBackend (Backend.addThreadPool n)
  modify fun d => { d with threadPools := d.threadPools.assign n.id [] }

/-- `Composition.__create_block` -/
def createNode (library : BlockLibrary π) (n : BlockNode π) : EStateM String (Daemon π T) Unit := do
  let invocation := nodeInvocation n.invocation
  let tpool ← ofExcept ((← get).nodePool invocation n.threadpool)
  initBlock library n.id n.type invocation (.block n) tpool

/-- `__update_block` of a node with parameters: what is passed on is the `params` element of the node. -/
def updateNode (library : BlockLibrary π) (n : BlockNode π) : EStateM String (Daemon π T) Unit := do
  let invocation := nodeInvocation n.invocation
  let tpool ← ofExcept ((← get).nodePool invocation n.threadpool)
  updateBlock library n.id invocation (.params n.node) tpool

/-- The daemon when its backend has made a step of the schedulers. -/
def schedule (d : Daemon π T) (act : SchedulerAct) : Option (Daemon π T) :=
  (d.process.schedule act).map fun w => { d with process := w }

/-- The manager of a composition that it has added to a new process. -/
def new [Inhabited T] (compId : String) : Daemon π T :=
  { compId := compId, blocks := OrdMap.empty, threadPools := OrdMap.empty
    process := Exn.leaves ((Backend.addComposition compId).run Process.new), listed := [], received := [] }

end Daemon

end Blockmon
