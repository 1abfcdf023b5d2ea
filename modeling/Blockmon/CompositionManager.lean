import Blockmon.Composition
import Blockmon.PoolManager
import Blockmon.TimerThread

/-!
# Installing a composition (`core/composition/CompositionManager.hpp`, `core/composition/Composition.cpp`)

`add_config_from_file` creates the thread pools, the composition, its blocks and their links one after the other from a parsed
document. A document is a tree of nodes with the attributes the code reads; a missing attribute reads as the empty string where the
code uses `value()`.

The block classes are code outside the core. What an installation sees of a class are the gates its constructor registers, the
invocation its constructor settles on and whether the constructor, `configure` and `initialize` return or throw. The outcomes may
depend on the object.
-/

namespace Blockmon

/-! ## The document -/

/-- A `block` node; `node` stands for what only `Block::configure` reads of it. -/
structure BlockNode (π : Type) where
  id : String
  type : String
  threadpool : String
  schedType : String
  invocation : String
  node : π

/-- A `connection` node. -/
structure ConnectionNode where
  srcBlock : String
  srcGate : String
  dstBlock : String
  dstGate : String

/-- The `install` element: pools, blocks and connections. -/
structure InstallNode (π : Type) where
  threadpools : List PoolNode
  blocks : List (BlockNode π)
  connections : List ConnectionNode

/-- The `clock` element. -/
structure ClockNode where
  type : Option String

/-- The `general` element. -/
structure GeneralNode where
  clock : Option ClockNode

/-- The `composition` element. -/
structure CompositionNode (π : Type) where
  id : String
  appId : String
  general : Option GeneralNode
  install : Option (InstallNode π)

/-- A parsed document, with its `composition` node if there is one. -/
structure Document (π : Type) where
  composition : Option (CompositionNode π)

/-- The invocation of a block: `sched_type`, and over it `invocation`. For other values of the attributes an exception is made but
not thrown. -/
def BlockNode.invocationType {π : Type} (n : BlockNode π) : InvocationType :=
  let invocation := if n.schedType = "active" then InvocationType.Indirect else .Direct
  if n.invocation = "direct" then .Direct
  else if n.invocation = "indirect" then .Indirect
  else if n.invocation = "async" then .Async
  else invocation

/-! ## The block classes -/

/-- A registered class: the gates it declares, its constructor and its `_configure` -/
structure BlockClass (π : Type) where
  /-- What the constructor passes on to `Block::Block` for the invocation it is given; several classes ignore what they are given. -/
  settles : InvocationType → InvocationType
  inputGates : List String
  outputGates : List String
  construct : Block → Outcome
  configure : Block → BlockNode π → Outcome

/-- The classes by the name under which they are registered, and how `initialize` ends on an object. -/
structure BlockFactory (π : Type) where
  registered : String → Option (BlockClass π)
  initializeBlock : Block → Outcome

/-- A new object of the class with its gates registered. -/
def BlockClass.block {π : Type} (cls : BlockClass π) (addr : Nat) (name : String) (invocation : InvocationType) : Block :=
  cls.outputGates.foldl Block.registerOutputGate
    (cls.inputGates.foldl Block.registerInputGate (Block.new addr name (cls.settles invocation)))

/-! ## The process -/

/-- The directory of the thread pools, the gates of all the blocks and the next address for an object. -/
structure Runtime (T : Type) where
  pools : PoolManager Nat
  gates : Gates T
  nextAddr : Nat
  /-- The blocks whose `m_running` is set. -/
  running : List Nat

/-- A call on the pools of the process. -/
def Runtime.onPools {T : Type} (call : EStateM String (PoolManager Nat) Unit) : EStateM String (Runtime T) Unit :=
  Exn.onPart Runtime.pools (fun r pools => { r with pools := pools }) call

/-- A call on the gates of the process. -/
def Runtime.onGates {T : Type} (call : EStateM String (Gates T) Unit) : EStateM String (Runtime T) Unit :=
  Exn.onPart Runtime.gates (fun r gates => { r with gates := gates }) call

/-- A composition that is being installed, and what its methods use around it. -/
structure Site (T : Type) where
  composition : Composition
  runtime : Runtime T

/-- A call on the process from within the installation of a composition. -/
def Site.onRuntime {T : Type} (call : EStateM String (Runtime T) Unit) : EStateM String (Site T) Unit :=
  Exn.onPart Site.runtime (fun s r => { s with runtime := r }) call

/-- The directory of the compositions, the selected clock and the rest of the process. -/
structure Process (T : Type) where
  configMap : OrdMap String Composition
  clock : ClockSource
  runtime : Runtime T

/-- A process in which nothing is installed. -/
def Process.new {T : Type} [Inhabited T] : Process T :=
  { configMap := OrdMap.empty, clock := .UNSET, runtime := { pools := PoolManager.new, gates := Gates.new, nextAddr := 0, running := [] } }

/-- A call on the process from outside of any composition. -/
def Process.onRuntime {T : Type} (call : EStateM String (Runtime T) Unit) : EStateM String (Process T) Unit :=
  Exn.onPart Process.runtime (fun w r => { w with runtime := r }) call

/-! ## `Composition::install` -/

namespace Composition

variable {π T : Type}

/-- The pointer stored under the name is also returned: the caller reads it back from the map. -/
def createBlockFromParsed (factory : BlockFactory π) (type name : String) (invocation : InvocationType) (blocknode : BlockNode π) :
    EStateM String (Site T) Block := do
  match factory.registered type with
  | none => throw (type ++ ": block type not supported")
  | some cls =>
    let sp := cls.block (← get).runtime.nextAddr name invocation
    ofExcept (cls.construct sp)
    modify fun s => { s with runtime := { s.runtime with nextAddr := s.runtime.nextAddr + 1 } }
    ofExcept (cls.configure sp blocknode)
    modify fun s => { s with composition := { s.composition with map := s.composition.map.assign name sp } }
    return sp

/-- One iteration of the loop over the blocks. -/
def installBlock (factory : BlockFactory π) (n : BlockNode π) : EStateM String (Site T) Unit := do
  if n.id.length = 0 ∨ n.type.length = 0 then throw "block name or type missing"
  let invocation := n.invocationType
  let sp ← createBlockFromParsed factory n.type n.id invocation n
  if invocation = .Indirect ∨ invocation = .Async then
    if n.threadpool.length = 0 then throw "need a threadpool for active/async invocation"
    Site.onRuntime (Runtime.onPools (PoolManager.addToPool n.threadpool sp.addr))

/-- One iteration of the loop over the connections. -/
def installLink (l : ConnectionNode) : EStateM String (Site T) Unit := do
  if l.srcBlock.length = 0 then throw "missing begin block in connection"
  if l.srcGate.length = 0 then throw "missing begin gate in connection"
  if l.dstBlock.length = 0 then throw "missing dst block in connection"
  if l.dstGate.length = 0 then throw "missing begin gate in connection"
  let m := (← get).composition
  Site.onRuntime (Runtime.onGates (m.createLink l.srcBlock l.srcGate l.dstBlock l.dstGate))

/-- `initialize`, in the order of the names. -/
def initializeBlocks (factory : BlockFactory π) : EStateM String (Site T) Unit := do
  forM (← get).composition.map.entries fun e => ofExcept (factory.initializeBlock e.2)

/-- `Composition::install`: blocks, then links, then `initialize` of all blocks. -/
def install (factory : BlockFactory π) (config : InstallNode π) : EStateM String (Site T) Unit := do
  forM config.blocks (installBlock factory)
  forM config.connections installLink
  initializeBlocks factory

end Composition

/-! ## `CompositionManager::add_config_from_file` -/

namespace CompositionManager

variable {π T : Type}

/-- The clock that the document selects. -/
def clockSource (general : Option GeneralNode) : Except String ClockSource :=
  match general with
  | none => .error "init: No <general> tag found in composition XML"
  | some ⟨none⟩ => .error "init: No <clock> tag found within <general> tag in composition XML"
  | some ⟨some ⟨none⟩⟩ => .error "init: No 'type' attribute within <clock> tag found"
  | some ⟨some ⟨some clocktype⟩⟩ =>
    if clocktype = "wall" ∨ clocktype = "WALL" then .ok .WALL
    else if clocktype = "packet" ∨ clocktype = "PACKET" then .ok .PACKET
    else .error ("init: Clock type '" ++ clocktype ++ "' is invalid")

/-- The new composition is in the directory when its installation begins, so it stays there with what was done if the installation
throws. -/
def installNew (factory : BlockFactory π) (compositionId appId : String) (install : InstallNode π) :
    EStateM String (Process T) Unit := do
  if ((← get).configMap.find? compositionId).isSome then throw (compositionId ++ " : composition already exists")
  Exn.onPart (fun w => { composition := Composition.new appId, runtime := w.runtime })
    (fun w s => { w with configMap := w.configMap.assign compositionId s.composition, runtime := s.runtime })
    (Composition.install factory install)

/-- `add_config`: the clock is set first, the pools are made next, and the rest runs on the new composition. -/
def addConfig (factory : BlockFactory π) (doc : Document π) : EStateM String (Process T) Unit := do
  match doc.composition with
  | none => throw "composition node not found"
  | some config =>
    let clock ← ofExcept (clockSource config.general)
    modify fun w => { w with clock := clock }
    match config.install with
    | none => throw " only installation is allowed through this entry point"
    | some install =>
      forM install.threadpools fun p => Process.onRuntime (Runtime.onPools (PoolManager.createPool p))
      installNew factory config.id config.appId install

/-- `load_file` gives a document or the description of a parse error. -/
def addConfigFromFile (factory : BlockFactory π) (loadFile : Except String (Document π)) : EStateM String (Process T) Unit := do
  match loadFile with
  | .error description => throw ("init: " ++ description)
  | .ok doc => addConfig factory doc

end CompositionManager

end Blockmon
