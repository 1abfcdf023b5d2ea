import Mathlib.Data.String.Basic
import Blockmon.Block
import Blockmon.Gate
import Blockmon.Lib.OrdMap

/-!
# Blocks and links of a composition (`core/block/Block.hpp`, `core/composition/Composition.cpp`)

A composition is a directory of blocks by name. A block registers its gates by name when it is constructed and does not change
them afterwards, so a block is a record with the address of the object; the state of its gates is in `Gates`. `create_link` and
`delete_link` look two gates up by name and write the two halves of a link.
-/

namespace Blockmon

/-- `invocation_type` -/
inductive InvocationType where
  | Direct
  | Indirect
  | Async
deriving DecidableEq

/-- A block object: the gates it has registered are numbered from 0 on each side. -/
structure Block where
  addr : Nat
  name : String
  invocation : InvocationType
  inputIds : OrdMap String Nat
  outputIds : OrdMap String Nat
  lastInId : Nat
  lastOutId : Nat

namespace Block

/-- The constructor: no gate registered. -/
def new (addr : Nat) (name : String) (invocation : InvocationType) : Block :=
  { addr := addr, name := name, invocation := invocation, inputIds := OrdMap.empty, outputIds := OrdMap.empty, lastInId := 0
    lastOutId := 0 }

/-- `register_input_gate` -/
def registerInputGate (b : Block) (name : String) : Block :=
  { b with lastInId := b.lastInId + 1, inputIds := b.inputIds.insert name b.lastInId }

/-- `register_output_gate` -/
def registerOutputGate (b : Block) (name : String) : Block :=
  { b with lastOutId := b.lastOutId + 1, outputIds := b.outputIds.insert name b.lastOutId }

/-- `get_input_gate`, with the text of its throw. -/
def getInputGate (b : Block) (name : String) : Except String GateRef :=
  match b.inputIds.find? name with
  | none => .error ("Gate '" ++ name ++ "' does not exist for block '" ++ b.name ++ "'.")
  | some id => .ok ⟨b.addr, id⟩

/-- `get_output_gate`, with the text of its throw. -/
def getOutputGate (b : Block) (name : String) : Except String GateRef :=
  match b.outputIds.find? name with
  | none => .error ("Gate '" ++ name ++ "' does not exist.")
  | some id => .ok ⟨b.addr, id⟩

end Block

/-- A composition: its name and its blocks in the order of the map. -/
structure Composition where
  id : String
  map : OrdMap String Block

namespace Composition

variable {T : Type}

/-- The constructor. -/
def new (id : String) : Composition := { id := id, map := OrdMap.empty }

/-- The output gate of a link, with the throws of `create_link` -/
def findOutputGate (m : Composition) (fromBlock fromGate : String) : Except String GateRef :=
  match m.map.find? fromBlock with
  | none => .error ("Cannot create connection from block '" ++ fromBlock ++ "': no such block.")
  | some b => b.getOutputGate fromGate

/-- The input gate of a link, likewise. -/
def findInputGate (m : Composition) (toBlock toGate : String) : Except String GateRef :=
  match m.map.find? toBlock with
  | none => .error ("Cannot create connection to block '" ++ toBlock ++ "': no such block.")
  | some b => b.getInputGate toGate

/-- `create_link`: both gates are looked up before the input gate is connected. -/
def createLink (m : Composition) (fromBlock fromGate toBlock toGate : String) : EStateM String (Gates T) Unit := do
  let src ← ofExcept (m.findOutputGate fromBlock fromGate)
  let dst ← ofExcept (m.findInputGate toBlock toGate)
  InGate.connect dst src
  OutGate.connect src dst

/-- `delete_link` -/
def deleteLink (m : Composition) (fromBlock fromGate toBlock toGate : String) : EStateM String (Gates T) Unit := do
  let src ← ofExcept (m.findOutputGate fromBlock fromGate)
  let dst ← ofExcept (m.findInputGate toBlock toGate)
  InGate.disconnect dst src
  OutGate.disconnect src dst

end Composition

/-- A call that changes the links of a composition. -/
inductive LinkCall where
  | createLink (fromBlock fromGate toBlock toGate : String)
  | deleteLink (fromBlock fromGate toBlock toGate : String)

/-- A link call on the gates of the process. -/
def LinkCall.exec {T : Type} (m : Composition) : LinkCall → EStateM String (Gates T) Unit
  | .createLink fb fg tb tg => m.createLink fb fg tb tg
  | .deleteLink fb fg tb tg => m.deleteLink fb fg tb tg

/-- The gates of a composition after the calls `cs`, from gates as constructed. -/
def Composition.linked {T : Type} [Inhabited T] (m : Composition) (cs : List LinkCall) : Gates T :=
  Exn.runCalls (LinkCall.exec m) Gates.new cs

end Blockmon
