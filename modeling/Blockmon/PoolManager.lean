import Mathlib.Data.String.Basic
import Blockmon.Lib.OrdMap
import Blockmon.ThreadPool

/-!
# The directory of thread pools (`core/scheduler/PoolManager.hpp`)

The manager keeps the thread pools by name in a `std::map` and starts and stops all of them in the order of the names. A call that
throws leaves what it has done so far. `PoolManager.step` puts the calls of the main thread and the steps of the workers between
them in one transition system.
-/

namespace Blockmon

/-! ## The thread pool nodes of a composition -/

/-- A `threadpool` node: its `id`, `num_threads` as `as_int` gives it, and the `number` of every `core` child. -/
structure PoolNode where
  id : String
  numThreads : Int
  cores : List String

/-- `isspace` of the C locale. -/
def isSpace (c : Char) : Bool := c = ' ' ∨ ('\t' ≤ c ∧ c ≤ '\r')

/-- `sscanf(num, "%u", &corenum)`: white space, a sign and decimal digits, read by `strtoul` on 64 bits and stored in 32. Without
a digit the variable keeps its value. -/
def sscanfUnsigned (num : String) (corenum : Nat) : Nat :=
  let text := num.toList.dropWhile isSpace
  let negative := text.head? = some '-'
  let digits := (if negative ∨ text.head? = some '+' then text.tail else text).takeWhile Char.isDigit
  let value := digits.foldl (fun n d => 10 * n + (d.toNat - '0'.toNat)) 0
  if digits.isEmpty then corenum
  else if 2 ^ 64 ≤ value then (2 ^ 64 - 1) % 2 ^ 32
  else if negative then (2 ^ 64 - value) % 2 ^ 32
  else value % 2 ^ 32

/-- The loop over the cores: a number that could not be read is the one the variable was initialised with. -/
def PoolNode.affinity : List String → Except String (List Nat)
  | [] => .ok []
  | num :: cores =>
    let corenum := sscanfUnsigned num 0xffffffff
    if corenum = 0xffffffff then .error "cannot parse core number"
    else (PoolNode.affinity cores).map (corenum :: ·)

/-! ## The manager -/

/-- The pools by name, and what `is_running` returns. -/
structure PoolManager (β : Type) where
  map : OrdMap String (ThreadPool β)
  running : Bool

namespace PoolManager

variable {β : Type}

/-- The constructor. -/
def new : PoolManager β := { map := OrdMap.empty, running := false }

/-- `create_pool` on a node. -/
def createPool (n : PoolNode) : EStateM String (PoolManager β) Unit := do
  if n.id.length = 0 ∨ n.numThreads = 0 then throw "could not parse thread pool paramters"
  let affinity ← ofExcept (PoolNode.affinity n.cores)
  if ((← get).map.find? n.id).isSome then throw (n.id ++ " : thread pool already exists")
  -- a negative number of threads makes no iteration of the loops over the threads
  modify fun m => { m with map := m.map.assign n.id (ThreadPool.new n.numThreads.toNat affinity) }

/-- A call on the pool with the given name. -/
def onPool (name : String) (call : EStateM String (ThreadPool β) Unit) : EStateM String (PoolManager β) Unit := fun m =>
  match m.map.find? name with
  | none => .error (name ++ " : thread pool does noe exist") m
  | some p =>
    match call.run p with
    | .ok _ p' => .ok () { m with map := m.map.assign name p' }
    | .error e p' => .error e { m with map := m.map.assign name p' }

/-- `add_to_pool` -/
def addToPool (name : String) (b : β) : EStateM String (PoolManager β) Unit := onPool name (ThreadPool.addTask b)

/-- `remove_from_pool` -/
def removeFromPool [DecidableEq β] (name : String) (b : β) : EStateM String (PoolManager β) Unit :=
  onPool name (ThreadPool.removeTask b)

/-- `delete_pool` -/
def deletePool (name : String) : EStateM String (PoolManager β) Unit := modify fun m => { m with map := m.map.erase name }

/-- The loop over the pools, in the order of their names. -/
def forPools (f : String → EStateM String (ThreadPool β) Unit) : EStateM String (PoolManager β) Unit := fun m =>
  match (OrdMap.visit f).run m.map with
  | .ok _ map => .ok () { m with map := map }
  | .error e map => .error e { m with map := map }

/-- `start`: the flag is set before the pools are run. -/
def start : EStateM String (PoolManager β) Unit := do
  modify fun m => { m with running := true }
  forPools fun _ => ThreadPool.run

/-- What the workers of the pools leave, by the name of the pool, is not determined by the manager. -/
def stop (left : String → Leftover β) : EStateM String (PoolManager β) Unit := do
  modify fun m => { m with running := false }
  forPools fun name => ThreadPool.stop (left name)

/-- `is_running` -/
def isRunning (m : PoolManager β) : Bool := m.running

end PoolManager

/-! ## The directory over time -/

/-- A worker of the pool has a thread: it was created and not joined. -/
def ThreadPool.hasThreads {β : Type} (p : ThreadPool β) : Bool :=
  (List.range p.threadnum).any fun w => decide ((p.threads w).pc ≠ .off)

/-- A pool between two calls of the main thread. -/
def PoolConfig.between {β : Type} (p : ThreadPool β) : PoolConfig β := { pool := p, controller := .idle, log := [] }

/-- A call of the main thread, or the next step of worker `w` of a pool. -/
inductive DirectoryAct (β : Type) where
  | createPool (n : PoolNode)
  | deletePool (name : String)
  | addToPool (name : String) (b : β)
  | removeFromPool (name : String) (b : β)
  | start
  | stop (left : String → Leftover β)
  | worker (name : String) (w : Nat) (inp : RunInput)

namespace PoolManager

variable {β : Type} [DecidableEq β]

/-- The manager after a call, with an exception caught by the caller, or after a worker's step. Destroying a pool whose threads
are not joined terminates the process. -/
def step (m : PoolManager β) : DirectoryAct β → Option (PoolManager β)
  | .createPool n => some (Exn.leaves ((createPool n).run m))
  | .deletePool name =>
    if (m.map.find? name).any ThreadPool.hasThreads then none else some (Exn.leaves ((deletePool name).run m))
  | .addToPool name b => some (Exn.leaves ((addToPool name b).run m))
  | .removeFromPool name b => some (Exn.leaves ((removeFromPool name b).run m))
  | .start => some (Exn.leaves (start.run m))
  | .stop left => some (Exn.leaves ((stop left).run m))
  | .worker name w inp => do
    let p ← m.map.find? name
    let c ← (PoolConfig.between p).workerStep w inp
    return { m with map := m.map.assign name c.pool }

/-- The manager after the calls and steps `acts`. -/
def after (acts : List (DirectoryAct β)) : Option (PoolManager β) := Lts.run step new acts

end PoolManager

end Blockmon
