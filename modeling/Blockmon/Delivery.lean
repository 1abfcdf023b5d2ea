import Mathlib.Data.List.Count
import Mathlib.Logic.Function.Basic
import Blockmon.Gate
import Blockmon.Lib.Lts

/-!
# Messages on their way (`core/block/OutGate.hpp`, `core/block/InGate.cpp`, `core/block/Block.hpp`)

A block sends a message through one of its output gates; `OutGate::deliver` hands it to the peers of the gate, one after the other;
`InGate::receive` calls the block that owns the peer when that is invoked directly, and else puts the message in the queue of the gate,
from which a thread takes it when it runs the block. So what a thread is doing is a stack of calls: the code of a block, inside a
delivery, inside the code of another block, and so on.

The code of the blocks is arbitrary: inside it any messages may be sent, and it may throw. An exception that leaves the code of a block
leaves the delivery that called it too, so that the later peers do not get the message; the code of the sender may catch it, and
`ThreadHandler` catches it at the bottom of the stack and goes on. The queues are FIFO queues, as `DBQueue` is until a read gives up on a
slot that a producer has not finished; after that the queue may hold anything. Whether a queue has room is an input of the step. With
`BLOCKING_QUEUE` the loop in `receive` tries again and again unless the gate drops or the pools were stopped; a failed attempt changes
nothing and is not a step. The mutex of a block only makes a thread wait. The peers of the gates do not change.
-/

namespace Blockmon

/-- A call that has not returned. -/
inductive DeliveryFrame (T : Type) where
  /-- The code of block `b`: `_receive_msg`, `_handle_timer` or `_do_async`. -/
  | handler (b : Nat)
  /-- `OutGate::deliver` of gate `o`, with the peers that the message was not handed to yet. -/
  | deliver (o : GateRef) (m : T) (left : List GateRef)
deriving DecidableEq

/-- What happened in a run. -/
inductive DeliveryEvent (ι T : Type) where
  /-- Thread `t` sent a message through gate `o`. -/
  | sent (t : ι) (o : GateRef) (m : T)
  /-- The message was queued at gate `i`, or its block was called. -/
  | taken (t : ι) (o i : GateRef) (m : T)
  /-- The queue of gate `i` was full and the message was given up. -/
  | dropped (t : ι) (o i : GateRef) (m : T)
  /-- `_receive_msg` was called with a message of gate `i`. -/
  | handled (i : GateRef) (m : T)
  /-- An exception left the delivery of a message before it was handed to the peers `left`. -/
  | aborted (t : ι) (o : GateRef) (m : T) (left : List GateRef)
  /-- A read of the queue of gate `i` gave up on a slot. -/
  | abandoned (i : GateRef)
  /-- `PoolManager::stop` was called. -/
  | stopped
deriving DecidableEq

/-- A label: what a thread does next. -/
inductive DeliveryAct (ι T : Type) where
  /-- A thread that is in no call runs `_handle_timer` or `_do_async` of a block. -/
  | call (t : ι) (b : Nat)
  /-- A thread that is in no call takes a message from the queue of a gate and calls `_receive_msg`. -/
  | dequeue (t : ι) (i : GateRef)
  /-- The code of a block sends a message through the output gate with this index. -/
  | send (t : ι) (index : Nat) (m : T)
  /-- The next peer receives the message of a delivery; its queue had room or not. -/
  | receive (t : ι) (room : Bool)
  /-- The innermost call returns. -/
  | ret (t : ι)
  /-- The code of a block throws, or a peer of a delivery before its block is called. -/
  | throw (t : ι)
  /-- A read of the queue of gate `i` gives up, and leaves the messages `ms` to be read. -/
  | abandon (i : GateRef) (ms : List T)
  /-- `PoolManager::start`. -/
  | start
  /-- `PoolManager::stop`. -/
  | stop

/-- The blocks and their links: the peers of an output gate, whether a block is invoked directly, and whether a gate gives a message up
when its queue is full. -/
structure Network where
  peers : GateRef → List GateRef
  isDirect : Nat → Bool
  drops : GateRef → Bool

/-- The queues of the gates, the call stack of every thread, and all that happened. -/
structure Delivery (ι T : Type) where
  /-- What `PoolManager::isRunning` returns. -/
  running : Bool
  queue : GateRef → List T
  stack : ι → List (DeliveryFrame T)
  log : List (DeliveryEvent ι T)

namespace Delivery

open DeliveryFrame DeliveryEvent

variable {ι T : Type} [DecidableEq ι]

/-- The pools were started, which sets `running` before the first thread runs. -/
def new : Delivery ι T := { running := true, queue := fun _ => [], stack := fun _ => [], log := [] }

/-- The calls that thread `t` is in. -/
def goto (s : Delivery ι T) (t : ι) (calls : List (DeliveryFrame T)) : Delivery ι T :=
  { s with stack := Function.update s.stack t calls }

/-- More events in the log. -/
def emit (s : Delivery ι T) (es : List (DeliveryEvent ι T)) : Delivery ι T := { s with log := s.log ++ es }

/-- The queue of one gate is replaced. -/
def setQueue (s : Delivery ι T) (i : GateRef) (ms : List T) : Delivery ι T := { s with queue := Function.update s.queue i ms }

/-- `PoolManager` is started or stopped. -/
def setRunning (s : Delivery ι T) (running : Bool) : Delivery ι T := { s with running := running }

/-- `InGate::receive` on gate `i`, called from the delivery of `m` through gate `o`, which has the peers `left` left. -/
def receive (N : Network) (s : Delivery ι T) (t : ι) (o i : GateRef) (m : T) (left : List GateRef) (calls : List (DeliveryFrame T))
    (room : Bool) : Option (Delivery ι T) :=
  if N.isDirect i.block then
    some ((s.goto t (handler i.block :: deliver o m left :: calls)).emit [taken t o i m, handled i m])
  else if room then some (((s.setQueue i (s.queue i ++ [m])).goto t (deliver o m left :: calls)).emit [taken t o i m])
  else if N.drops i || !s.running then some ((s.goto t (deliver o m left :: calls)).emit [dropped t o i m])
  else none

/-- One step of a thread: of a handler, of a delivery, or of the worker between two handlers. -/
def step (N : Network) (s : Delivery ι T) : DeliveryAct ι T → Option (Delivery ι T)
  | .call t b => if (s.stack t).isEmpty then some (s.goto t [handler b]) else none
  | .dequeue t i =>
    if (s.stack t).isEmpty then
      (s.queue i).head?.map fun m => ((s.setQueue i (s.queue i).tail).goto t [handler i.block]).emit [handled i m]
    else none
  | .send t index m =>
    match s.stack t with
    | handler b :: calls =>
      let o : GateRef := { block := b, index := index }
      some ((s.goto t (deliver o m (N.peers o) :: handler b :: calls)).emit [sent t o m])
    | _ => none
  | .receive t room =>
    match s.stack t with
    | deliver o m (i :: left) :: calls => s.receive N t o i m left calls room
    | _ => none
  | .ret t =>
    match s.stack t with
    | handler _ :: calls => some (s.goto t calls)
    | deliver _ _ [] :: calls => some (s.goto t calls)
    | _ => none
  | .throw t =>
    match s.stack t with
    | deliver o m left :: calls => some ((s.goto t calls).emit [aborted t o m left])
    -- the exception goes through `OutGate::deliver` to the code that sent the message
    | handler _ :: deliver o m left :: calls => some ((s.goto t calls).emit [aborted t o m left])
    | handler _ :: calls => some (s.goto t calls)
    | [] => none
  | .abandon i ms => if N.isDirect i.block then none else some ((s.setQueue i ms).emit [abandoned i])
  | .start => some (s.setRunning true)
  | .stop => some ((s.setRunning false).emit [stopped])

end Delivery

/-! ## The history -/

namespace DeliveryLog

open DeliveryEvent

variable {ι T : Type} [DecidableEq ι]

/-- The messages that thread `t` sent through gate `o`. -/
def sentBy (log : List (DeliveryEvent ι T)) (t : ι) (o : GateRef) : List T :=
  log.filterMap fun | sent t' o' m => if t' = t ∧ o' = o then some m else none | _ => none

/-- Those that came to gate `i`, whether there was room for them or not. -/
def arrived (log : List (DeliveryEvent ι T)) (t : ι) (o i : GateRef) : List T :=
  log.filterMap fun
    | taken t' o' i' m => if t' = t ∧ o' = o ∧ i' = i then some m else none
    | dropped t' o' i' m => if t' = t ∧ o' = o ∧ i' = i then some m else none
    | _ => none

/-- The messages that were queued at gate `i` or for which its block was called. -/
def takenAt (log : List (DeliveryEvent ι T)) (i : GateRef) : List T :=
  log.filterMap fun | taken _ _ i' m => if i' = i then some m else none | _ => none

/-- The messages of gate `i` that its block received. -/
def handledAt (log : List (DeliveryEvent ι T)) (i : GateRef) : List T :=
  log.filterMap fun | handled i' m => if i' = i then some m else none | _ => none

/-- What thread `t` did not hand over from gate `o` to gate `i` because an exception left the delivery. -/
def cutOff (log : List (DeliveryEvent ι T)) (t : ι) (o i : GateRef) : List T :=
  log.flatMap fun | aborted t' o' m left => if t' = t ∧ o' = o then List.replicate (left.count i) m else [] | _ => []

/-- The messages that were given up at gate `i`. -/
def droppedAt (log : List (DeliveryEvent ι T)) (i : GateRef) : List T :=
  log.filterMap fun | dropped _ _ i' m => if i' = i then some m else none | _ => none

end DeliveryLog

end Blockmon
