import Blockmon.Block
import Blockmon.Lib.Exn
import Blockmon.Lib.Lts

/-!
# Thread pools (`core/scheduler`, `core/MpMcQueue.hpp`)

A pool has one queue of blocks and `threadnum` workers. Each worker takes the block at the head of the queue, runs it and puts it
back at the end. The controlling thread adds and removes blocks while the pool is stopped, and starts and stops the workers.

A configuration holds the pool, the position of the controlling thread and the history. A label lets one of the threads make its
next step; every operation on the shared queue is one step, since it is done under the queue's mutex. Blocks are compared by
address: `β` is the type of the addresses.
-/

namespace Blockmon

/-! ## The queue and the scheduler -/

namespace MpMcQueue

variable {β : Type}

/-- The head of the queue and the rest, or a null pointer. -/
def pop : List β → Option β × List β
  | [] => (none, [])
  | b :: bs => (some b, bs)

/-- `MpMcQueue::push` -/
def push (q : List β) (b : β) : List β := q ++ [b]

/-- Remove all the pointers to one object. -/
def remove [DecidableEq β] (q : List β) (b : β) : List β := q.filter (· ≠ b)

end MpMcQueue

namespace DumbScheduler

variable {β : Type}

/-- `add_block` -/
def addBlock (q : List β) (b : β) : List β := MpMcQueue.push q b

/-- `remove_block` -/
def removeBlock [DecidableEq β] (q : List β) (b : β) : List β := MpMcQueue.remove q b

/-- `next_task` -/
def nextTask (q : List β) : Option β × List β := MpMcQueue.pop q

/-- `task_done` -/
def taskDone (q : List β) (b : β) : List β := MpMcQueue.push q b

end DumbScheduler

/-! ## The workers -/

/-- A worker's position in `ThreadHandler::operator()`. -/
inductive WorkerPc where
  /-- No thread, or a thread that was joined. -/
  | off
  /-- The thread was created; about to clear `m_stop`. -/
  | start
  /-- About to test `m_stop`. -/
  | test
  /-- About to call `next_task`. -/
  | fetch
  /-- Inside `torun->run()`. -/
  | run
  /-- `run` returned; about to call `task_done`. -/
  | giveBack
  /-- Left the loop; about to set `m_stop`. -/
  | leave
  /-- `operator()` returned; the thread can be joined. -/
  | ended
deriving DecidableEq

/-- A `ThreadHandler`. -/
structure Worker (β : Type) where
  pc : WorkerPc
  stop : Bool
  torun : Option β

/-- The handler as constructed. -/
def Worker.new {β : Type} : Worker β := { pc := .off, stop := true, torun := none }

/-- `ThreadPool`, with the queue of its scheduler. -/
structure ThreadPool (β : Type) where
  queue : List β
  affinity : List Nat
  running : Bool
  threadnum : Nat
  threads : Nat → Worker β

/-- The constructor of `ThreadPool`. -/
def ThreadPool.new {β : Type} (tnum : Nat) (affinity : List Nat) : ThreadPool β :=
  { queue := [], affinity := affinity, running := false, threadnum := tnum, threads := fun _ => Worker.new }

/-- The number of CPUs in a `cpu_set_t`. -/
def CPU_SETSIZE : Nat := 1024

/-- The check of `ThreadHandler::run`: an affinity value is refused when it is higher than the maximum. -/
def affinityOk (aff : List Nat) : Bool := aff.all (· ≤ CPU_SETSIZE)

/-- The controlling thread's position: outside the pool, in the loop of `ThreadPool::run` at thread `i`, in the loop of
`ThreadPool::stop` about to set `m_stop` of thread `i`, or about to join it. -/
inductive ControllerPc where
  | idle
  | starting (i : Nat)
  | stopping (i : Nat)
  | joining (i : Nat)
deriving DecidableEq

/-- What happened in a run. -/
inductive PoolEvent (β : Type) where
  | added (b : β)
  | removed (b : β)
  /-- A call of the controlling thread threw. -/
  | refused (msg : String)
  | delivered (w : Nat) (b : β)
  | returned (w : Nat) (b : β)
  | threw (w : Nat) (b : β) (msg : String)
  | putBack (w : Nat) (b : β)
deriving DecidableEq

/-- A pool with its controller and what has happened. -/
structure PoolConfig (β : Type) where
  pool : ThreadPool β
  controller : ControllerPc
  log : List (PoolEvent β)

/-- A label: a call of the controlling thread, its next step in a loop, or the next step of worker `w`. A worker's step carries
what `Block::run` would find if the worker is about to run a block. -/
inductive PoolAct (β : Type) where
  | addTask (b : β)
  | removeTask (b : β)
  | run
  | stop
  | controller
  | worker (w : Nat) (inp : RunInput)

namespace PoolConfig

variable {β : Type}

/-- A new pool, before any call. -/
def new (tnum : Nat) (affinity : List Nat) : PoolConfig β :=
  { pool := ThreadPool.new tnum affinity, controller := .idle, log := [] }

/-- One more event. -/
def emit (c : PoolConfig β) (e : PoolEvent β) : PoolConfig β := { c with log := c.log ++ [e] }

/-- Overwrite the state of worker `w`. -/
def setWorker (c : PoolConfig β) (w : Nat) (x : Worker β) : PoolConfig β :=
  { c with pool := { c.pool with threads := Function.update c.pool.threads w x } }

/-- The pool with another queue. -/
def setQueue (c : PoolConfig β) (q : List β) : PoolConfig β := { c with pool := { c.pool with queue := q } }

/-- The next step of worker `w`. -/
def workerStep (c : PoolConfig β) (w : Nat) (inp : RunInput) : Option (PoolConfig β) :=
  let x := c.pool.threads w
  match x.pc with
  | .off => none
  | .ended => none
  | .start => some (c.setWorker w { x with pc := .test, stop := false })
  | .test => some (c.setWorker w { x with pc := if x.stop then .leave else .fetch })
  | .fetch =>
    match DumbScheduler.nextTask c.pool.queue with
    | (some b, q) => some (((c.setQueue q).setWorker w { x with pc := .run, torun := some b }).emit (.delivered w b))
    | (none, q) => some ((c.setQueue q).setWorker w { x with pc := .test, torun := none })
  | .run =>
    match x.torun with
    | none => none
    | some b =>
      match Block.run inp with
      | .ok () => some ((c.setWorker w { x with pc := .giveBack }).emit (.returned w b))
      -- the exception is swallowed around the loop body: `torun` keeps the block until the next `next_task`
      | .error e => some ((c.setWorker w { x with pc := .test }).emit (.threw w b e))
  | .giveBack =>
    match x.torun with
    | none => none
    | some b =>
      some (((c.setQueue (DumbScheduler.taskDone c.pool.queue b)).setWorker w { x with pc := .test, torun := none }).emit
        (.putBack w b))
  | .leave => some (c.setWorker w { x with pc := .ended, stop := true })

/-- The next step of the controlling thread in the loops of `run` and `stop`. -/
def controllerStep (c : PoolConfig β) : Option (PoolConfig β) :=
  match c.controller with
  | .idle => none
  | .starting i =>
    if i < c.pool.threadnum then
      if affinityOk c.pool.affinity then
        some { c.setWorker i { c.pool.threads i with pc := .start } with controller := .starting (i + 1) }
      else some ({ c with controller := .idle }.emit (.refused "affinity value higher than maximum allowed"))
    else some { c with pool := { c.pool with running := true }, controller := .idle }
  | .stopping i =>
    if i < c.pool.threadnum then
      some { c.setWorker i { c.pool.threads i with stop := true } with controller := .joining i }
    else some { c with pool := { c.pool with running := false }, controller := .idle }
  | .joining i =>
    if (c.pool.threads i).pc = .ended then
      some { c.setWorker i { c.pool.threads i with pc := .off } with controller := .stopping (i + 1) }
    else none

variable [DecidableEq β]

/-- A step of a worker, of the controller, or the begin of a call on a pool that accepts it. -/
def step (c : PoolConfig β) : PoolAct β → Option (PoolConfig β)
  | .worker w inp => c.workerStep w inp
  | .controller => c.controllerStep
  | .addTask b =>
    if c.controller = .idle then
      if c.pool.running then some (c.emit (.refused "cannot add task when thread pool is already running"))
      else some ((c.setQueue (DumbScheduler.addBlock c.pool.queue b)).emit (.added b))
    else none
  | .removeTask b =>
    if c.controller = .idle then
      if c.pool.running then some (c.emit (.refused "cannot remove task when thread pool is already running"))
      else some ((c.setQueue (DumbScheduler.removeBlock c.pool.queue b)).emit (.removed b))
    else none
  | .run =>
    if c.controller = .idle then
      if c.pool.running then some (c.emit (.refused "thread pool il already running"))
      else some { c with controller := .starting 0 }
    else none
  | .stop =>
    if c.controller = .idle then
      if c.pool.running then some { c with controller := .stopping 0 }
      else some (c.emit (.refused "thread pool is not running"))
    else none

/-- The configuration after an interleaving `acts` of the threads' steps, for a pool of `tnum` workers. -/
def after (tnum : Nat) (affinity : List Nat) (acts : List (PoolAct β)) : Option (PoolConfig β) :=
  Lts.run step (new tnum affinity) acts

end PoolConfig

/-! ## The calls of the controlling thread as a whole

What the callers of a pool see: a call returns or throws, and leaves the pool changed. `stop` returns after it has joined the
workers, which go on with their blocks until then, so what it leaves of the queue is not determined by the pool it finds.
-/

/-- What the workers leave when they have been joined: the queue, and the block a handler still points to. -/
structure Leftover (β : Type) where
  queue : List β
  torun : Nat → Option β

/-- The pool with another thread. -/
def ThreadPool.setThread {β : Type} (p : ThreadPool β) (i : Nat) (x : Worker β) : ThreadPool β :=
  { p with threads := Function.update p.threads i x }

namespace ThreadHandler

variable {β : Type}

/-- `ThreadHandler::run` -/
def run (i : Nat) : EStateM String (ThreadPool β) Unit := do
  if affinityOk (← get).affinity = false then throw "affinity value higher than maximum allowed"
  modify fun p => p.setThread i { p.threads i with pc := .start }

/-- `ThreadHandler::stop`, with what the thread leaves. -/
def stop (left : Leftover β) (i : Nat) : EStateM String (ThreadPool β) Unit :=
  modify fun p => p.setThread i { pc := .off, stop := true, torun := left.torun i }

end ThreadHandler

namespace ThreadPool

variable {β : Type}

/-- `ThreadPool::add_task` -/
def addTask (b : β) : EStateM String (ThreadPool β) Unit := do
  if (← get).running then throw "cannot add task when thread pool is already running"
  modify fun p => { p with queue := DumbScheduler.addBlock p.queue b }

/-- `ThreadPool::remove_task` -/
def removeTask [DecidableEq β] (b : β) : EStateM String (ThreadPool β) Unit := do
  if (← get).running then throw "cannot remove task when thread pool is already running"
  modify fun p => { p with queue := DumbScheduler.removeBlock p.queue b }

/-- `ThreadPool::run` -/
def run : EStateM String (ThreadPool β) Unit := do
  if (← get).running then throw "thread pool il already running"
  forM (List.range (← get).threadnum) ThreadHandler.run
  modify fun p => { p with running := true }

/-- `ThreadPool::stop`, with what the threads leave. -/
def stop (left : Leftover β) : EStateM String (ThreadPool β) Unit := do
  if (← get).running = false then throw "thread pool is not running"
  forM (List.range (← get).threadnum) (ThreadHandler.stop left)
  modify fun p => { p with running := false, queue := left.queue }

end ThreadPool

/-! ## Reading a configuration and its history -/

/-- Worker `x` executes block `b`: it is inside `run` or about to return the block with `task_done`. -/
def Worker.executes {β : Type} [DecidableEq β] (x : Worker β) (b : β) : Bool :=
  (x.pc = .run ∨ x.pc = .giveBack) ∧ x.torun = some b

/-- The number of workers that execute block `b`. -/
def ThreadPool.executing {β : Type} [DecidableEq β] (p : ThreadPool β) (b : β) : Nat :=
  (List.range p.threadnum).countP fun w => (p.threads w).executes b

namespace PoolLog

variable {β : Type}

/-- The blocks that were added. -/
def added (log : List (PoolEvent β)) : List β :=
  log.filterMap fun
    | .added b => some b
    | _ => none

/-- The blocks that were removed. -/
def removed (log : List (PoolEvent β)) : List β :=
  log.filterMap fun
    | .removed b => some b
    | _ => none

/-- The blocks that were delivered. -/
def delivered (log : List (PoolEvent β)) : List β :=
  log.filterMap fun
    | .delivered _ b => some b
    | _ => none

/-- The blocks whose run has thrown. -/
def thrown (log : List (PoolEvent β)) : List β :=
  log.filterMap fun
    | .threw _ b _ => some b
    | _ => none

end PoolLog

end Blockmon
