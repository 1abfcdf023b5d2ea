import Mathlib.Data.List.Basic
import Blockmon.Flow
import Blockmon.Lib.Lts
import Blockmon.Lib.Exn

/-!
# Timers (`core/time`)

Any number of threads work on the timer queue and the timer heap: those that schedule timers, the timer thread and those that
advance the packet clock. A label lets one thread make its next step. The queue and the heap are changed only by a thread that
holds the spinlock, and the lock is released around the handler of a timer.

`std::priority_queue` gives one of the timers with the earliest time point; which of them is part of the label. A handler may set
further timers. The wall clock reads whatever the label says; the packet clock is part of the state. The assertion after the
removal from the heap has no effect.
-/

namespace Blockmon

/-! ## Timers and clocks -/

/-- The two classes of `Timer.hpp`, `OneShotTimer` and `PeriodicTimer`; the second carries `m_period` -/
inductive TimerKind where
  | oneShot
  | periodic (period : ustime)
deriving DecidableEq

/-- What stays the same of a timer: the object, numbered in the order of creation, and its class. -/
structure TimerId where
  uid : Nat
  kind : TimerKind
deriving DecidableEq

/-- A timer as the queue and the heap hold it: its number, the block that set it, and the time of its next delivery. -/
structure Timer (β : Type) where
  id : TimerId
  owner : β
  time : ustime

/-- The clock sources of `ClockDispatcher.hpp` -/
inductive ClockSource where
  | WALL
  | PACKET
  | UNSET
deriving DecidableEq

/-- `next_time`: a one-shot timer keeps its time point and does not read the clock. -/
def Timer.nextTime {β : Type} (t : Timer β) (clock : Except String ustime) : Except String (Timer β) :=
  match t.id.kind with
  | .oneShot => .ok t
  | .periodic period =>
    match clock with
    | .ok now => .ok { t with time := now + period }
    | .error e => .error e

/-! ## The threads -/

/-- Who called `process_timer_events`: the loop of the timer thread, or `time_past` with its `next_time` and `target_time`. -/
inductive Caller where
  | timerLoop
  | timePast (next target : ustime)
deriving DecidableEq

/-- An iteration of the loop of `process_timer_events`: the timer `t`, and `tnow`. -/
structure Expiry (β : Type) where
  timer : Timer β
  tnow : ustime
  caller : Caller

/-- A thread's position. The argument `k` of the positions in `schedule_timer` is the handler that called it, if any. -/
inductive TimerPc (β : Type) where
  | idle
  /-- In `schedule_timer`. -/
  | schedLock (t : Timer β) (k : Option (Expiry β))
  | schedPush (t : Timer β) (k : Option (Expiry β))
  | schedUnlock (k : Option (Expiry β))
  /-- In the loop of `operator()`. -/
  | loopTest
  | moveLock
  | move
  | moveUnlock
  /-- In `process_timer_events`, up to the removal of a timer. -/
  | readClock (caller : Caller)
  | procLock (tnow : ustime) (caller : Caller)
  | procTest (tnow : ustime) (caller : Caller)
  /-- The timer was removed from the heap; about to unlock, to call the handler, inside of the handler. -/
  | taken (e : Expiry β)
  | deliver (e : Expiry β)
  | handling (e : Expiry β)
  /-- The handler returned; about to call `next_time`, to lock again with `ttmp`, to test and insert. -/
  | renew (e : Expiry β)
  | relock (e : Expiry β) (ttmp : ustime)
  | insert (e : Expiry β) (ttmp : ustime)
  | procUnlock (caller : Caller)
  /-- In `time_past`. -/
  | pastRead (target : ustime)
  | pastNext (next target : ustime)
  | pastStore (next target last : ustime)
  | pastCheck (next target last : ustime)
  | pastTest (next target : ustime)

/-- What happened in a run. -/
inductive TimerEvent (ι : Type) where
  | created (i : ι) (x : TimerId)
  /-- `handle_timer` of the owner is called. -/
  | delivered (i : ι) (x : TimerId)
  | reinserted (i : ι) (x : TimerId)
  | dropped (i : ι) (x : TimerId)
  | threw (i : ι) (msg : String)
deriving DecidableEq

/-- The timer thread with its queue, its heap, its mutex and its flags, the process clock, and the place of every other thread. -/
structure TimerConfig (ι β : Type) where
  queue : List (Timer β)
  heap : List (Timer β)
  lock : Option ι
  stop : Bool
  running : Bool
  clockSource : ClockSource
  packetTime : ustime
  writers : Nat
  nextUid : Nat
  threads : ι → TimerPc β
  log : List (TimerEvent ι)

/-- A label. A step of thread `i` carries the reading of the wall clock, if it reads it, and the position in the heap of the timer
that is on top. -/
inductive TimerAct (ι β : Type) where
  | selectWall
  | selectPacket
  | registerTimeWriter
  | setTimerAt (i : ι) (owner : β) (ts : ustime)
  | setPeriodicTimer (i : ι) (owner : β) (us wall : ustime)
  | start (i : ι)
  | stop
  | timePast (i : ι) (target : ustime)
  | thread (i : ι) (wall : ustime) (pick : Nat)

namespace TimerConfig

variable {ι β : Type}

/-- The constructor: nothing queued, thread not running, wall clock. -/
def new : TimerConfig ι β :=
  { queue := [], heap := [], lock := none, stop := false, running := false, clockSource := .WALL, packetTime := 0, writers := 0,
    nextUid := 0, threads := fun _ => .idle, log := [] }

/-- `get_BM_time` -/
def getBMTime (c : TimerConfig ι β) (wall : ustime) : Except String ustime :=
  match c.clockSource with
  | .WALL => .ok wall
  | .PACKET => .ok c.packetTime
  | .UNSET => .error "clock source not set"

/-- One more event in the log. -/
def emit (c : TimerConfig ι β) (e : TimerEvent ι) : TimerConfig ι β := { c with log := c.log ++ [e] }

/-- The timer `t` is on top of the heap. -/
def isTop (heap : List (Timer β)) (t : Timer β) : Bool := heap.all (t.time ≤ ·.time)

variable [DecidableEq ι]

/-- Thread `i` goes on to `pc` -/
def goto (c : TimerConfig ι β) (i : ι) (pc : TimerPc β) : TimerConfig ι β := { c with threads := Function.update c.threads i pc }

/-- An exception leaves the functions modelled here. -/
def throw (c : TimerConfig ι β) (i : ι) (msg : String) : TimerConfig ι β := (c.goto i .idle).emit (.threw i msg)

/-- Take the spinlock, which is possible if it is free. -/
def acquire (c : TimerConfig ι β) (i : ι) (pc : TimerPc β) : Option (TimerConfig ι β) :=
  if c.lock = none then some ({ c with lock := some i }.goto i pc) else none

/-- The mutex is released and thread `i` goes on to `pc` -/
def release (c : TimerConfig ι β) (i : ι) (pc : TimerPc β) : TimerConfig ι β := { c with lock := none }.goto i pc

/-- The next step of a thread. -/
def threadStep (c : TimerConfig ι β) (i : ι) (wall : ustime) (pick : Nat) : Option (TimerConfig ι β) :=
  match c.threads i with
  | .idle => none
  | .schedLock t k => c.acquire i (.schedPush t k)
  | .schedPush t k => some ({ c with queue := c.queue ++ [t] }.goto i (.schedUnlock k))
  | .schedUnlock none => some (c.release i .idle)
  | .schedUnlock (some e) => some (c.release i (.handling e))
  | .loopTest =>
    if c.stop then some ({ c with running := false, stop := true }.goto i .idle) else some (c.goto i .moveLock)
  | .moveLock => c.acquire i .move
  | .move =>
    match c.queue.getLast? with
    | none => some (c.goto i .moveUnlock)
    | some t => some { c with queue := c.queue.dropLast, heap := t :: c.heap }
  | .moveUnlock => some (c.release i (.readClock .timerLoop))
  | .readClock caller =>
    match c.getBMTime wall with
    | .error e => some (c.throw i e)
    | .ok tnow => some (c.goto i (.procLock tnow caller))
  | .procLock tnow caller => c.acquire i (.procTest tnow caller)
  | .procTest tnow caller =>
    match c.heap[pick]? with
    | none => if c.heap.isEmpty then some (c.goto i (.procUnlock caller)) else none
    | some t =>
      if isTop c.heap t then
        if t.time ≤ tnow then some ({ c with heap := c.heap.eraseIdx pick }.goto i (.taken ⟨t, tnow, caller⟩))
        else some (c.goto i (.procUnlock caller))
      else none
  | .taken e => some (c.release i (.deliver e))
  | .deliver e => some ((c.goto i (.handling e)).emit (.delivered i e.timer.id))
  | .handling e => some (c.goto i (.renew e))
  | .renew e =>
    match e.timer.nextTime (c.getBMTime wall) with
    | .error msg => some (c.throw i msg)
    | .ok t => some (c.goto i (.relock { e with timer := t } e.timer.time))
  | .relock e ttmp => c.acquire i (.insert e ttmp)
  | .insert e ttmp =>
    if e.timer.time ≠ ttmp then
      some (({ c with heap := e.timer :: c.heap }.goto i (.procTest e.tnow e.caller)).emit (.reinserted i e.timer.id))
    else some ((c.goto i (.procTest e.tnow e.caller)).emit (.dropped i e.timer.id))
  | .procUnlock .timerLoop => some (c.release i .loopTest)
  | .procUnlock (.timePast next target) => some (c.release i (.pastTest next target))
  | .pastRead target =>
    match c.getBMTime wall with
    | .error e => some (c.throw i e)
    | .ok now => some (c.goto i (.pastNext (if now = 0 then target else now) target))
  | .pastNext next target =>
    let next := if next + 1000 ≤ target then next + 1000 else target
    if c.writers > 1 then some ({ c with packetTime := next }.goto i (.pastCheck next target c.packetTime))
    else if c.writers = 1 then some (c.goto i (.pastStore next target c.packetTime))
    else some (c.throw i "inconsistent number of packet time writers")
  | .pastStore next target last => some ({ c with packetTime := next }.goto i (.pastCheck next target last))
  | .pastCheck next target last =>
    if last > next then some (c.throw i "packet time value out of order")
    else some (c.goto i (.readClock (.timePast next target)))
  | .pastTest next target => if next < target then some (c.goto i (.pastNext next target)) else some (c.goto i .idle)

/-- A timer is created and `schedule_timer` is called, outside of the functions modelled here or in a handler. -/
def schedule (c : TimerConfig ι β) (i : ι) (owner : β) (kind : TimerKind) (time : ustime) : Option (TimerConfig ι β) :=
  let x : TimerId := ⟨c.nextUid, kind⟩
  let c' := { c with nextUid := c.nextUid + 1 }.emit (.created i x)
  match c.threads i with
  | .idle => some (c'.goto i (.schedLock ⟨x, owner, time⟩ none))
  | .handling e => some (c'.goto i (.schedLock ⟨x, owner, time⟩ (some e)))
  | _ => none

/-- One atomic step of any thread. A call that throws is a step that logs the text. -/
def step (c : TimerConfig ι β) : TimerAct ι β → Option (TimerConfig ι β)
  | .selectWall => some { c with clockSource := .WALL }
  | .selectPacket => some { c with clockSource := .PACKET }
  | .registerTimeWriter => some { c with writers := c.writers + 1 }
  | .setTimerAt i owner ts => c.schedule i owner .oneShot ts
  | .setPeriodicTimer i owner us wall =>
    match c.getBMTime wall with
    | .error msg => some (c.emit (.threw i msg))
    | .ok now => c.schedule i owner (.periodic us) (now + us)
  | .start i =>
    match c.threads i with
    | .idle =>
      if c.running then some (c.throw i "trying to start timer thread while it is already running")
      else some ({ c with running := true }.goto i .loopTest)
    | _ => none
  | .stop => some { c with stop := true }
  | .timePast i target =>
    match c.threads i with
    | .idle => some (c.goto i (.pastRead target))
    | _ => none
  | .thread i wall pick => c.threadStep i wall pick

/-- If the step renews a periodic timer, it gives it another time point. -/
def renews (c : TimerConfig ι β) : TimerAct ι β → Bool
  | .thread i wall _ =>
    match c.threads i with
    | .renew e =>
      match e.timer.id.kind, c.getBMTime wall with
      | .periodic period, .ok now => now + period ≠ e.timer.time
      | _, _ => true
    | _ => true
  | _ => true

end TimerConfig

/-! ## Removing the timers of a block -/

namespace TimerConfig

variable {ι β : Type} [DecidableEq β]

/-- `remove_references`: the queue is filtered by the address of the owner; the loop on the heap goes on until the heap is empty. -/
def removeReferences (b : β) : EStateM String (TimerConfig ι β) Unit := do
  let c ← get
  if c.running then throwThe String "timer thread::cannot remove references while the thread is running"
  set { c with queue := c.queue.filter (·.owner ≠ b), heap := [] }

end TimerConfig

/-! ## Where the timers are, and what happened to them -/

/-- The places of a timer: the queue, the heap, the hands of a thread. -/
inductive Place (ι : Type) where
  | queue
  | heap
  | hand (i : ι)
deriving DecidableEq

/-- The timers in the hands of a thread. -/
def TimerPc.hand {β : Type} : TimerPc β → List (Timer β)
  | .schedLock t k | .schedPush t k => t :: (k.map Expiry.timer).toList
  | .schedUnlock k => (k.map Expiry.timer).toList
  | .taken e | .deliver e | .handling e | .renew e | .relock e _ | .insert e _ => [e.timer]
  | _ => []

/-- Of these, the one that was delivered and has not been put back or dropped yet. -/
def TimerPc.owing {β : Type} : TimerPc β → List (Timer β)
  | .schedLock _ k | .schedPush _ k | .schedUnlock k => (k.map Expiry.timer).toList
  | .handling e | .renew e | .relock e _ | .insert e _ => [e.timer]
  | _ => []

namespace TimerConfig

variable {ι β : Type}

/-- The timers in a place. -/
def held (c : TimerConfig ι β) : Place ι → List TimerId
  | .queue => c.queue.map Timer.id
  | .heap => c.heap.map Timer.id
  | .hand i => (c.threads i).hand.map Timer.id

/-- The timers that thread `i` has delivered and not yet put back or dropped. -/
def owes (c : TimerConfig ι β) (i : ι) : List TimerId := (c.threads i).owing.map Timer.id

end TimerConfig

namespace TimerLog

variable {ι : Type}

/-- The numbers of the timers set, in their order. -/
def created (log : List (TimerEvent ι)) : List TimerId :=
  log.filterMap fun
    | .created _ x => some x
    | _ => none

/-- The numbers of the timers whose block was called, in their order. -/
def delivered (log : List (TimerEvent ι)) : List TimerId :=
  log.filterMap fun
    | .delivered _ x => some x
    | _ => none

/-- The numbers of the periodic timers put back on the heap. -/
def reinserted (log : List (TimerEvent ι)) : List TimerId :=
  log.filterMap fun
    | .reinserted _ x => some x
    | _ => none

/-- The numbers of the timers taken out by `remove_references` or by the stop. -/
def dropped (log : List (TimerEvent ι)) : List TimerId :=
  log.filterMap fun
    | .dropped _ x => some x
    | _ => none

end TimerLog

end Blockmon

/-!
## The top of the heap

In a pass of its loop `process_timer_events` calls `m_heap.top()` three times: in the test of the loop, if the heap is not empty, in
`remove_from_heap`, and in the assertion after the removal, before it gives the lock back. Nothing is known of `top()` on an empty
heap. The runs are those of `TimerThread.lean`, with calls of `remove_references`, which takes no lock and is made when no thread
holds it.
-/

namespace Blockmon

/-- The steps of the threads, and the call of `remove_references` -/
inductive HeapAct (ι β : Type) where
  | timers (a : TimerAct ι β)
  | removeReferences (b : β)

namespace TimerConfig

variable {ι β : Type}

/-- The timer on top of the heap is due. -/
def topDue (c : TimerConfig ι β) (tnow : ustime) : Bool := c.heap.any (·.time ≤ tnow)

/-- The heaps of which the next step of thread `i` asks the top. -/
def topCalls (c : TimerConfig ι β) (i : ι) : List (List (Timer β)) :=
  match c.threads i with
  | .procTest tnow _ => if c.heap.isEmpty then [] else if c.topDue tnow then [c.heap, c.heap] else [c.heap]
  -- the assertion
  | .taken _ => [c.heap]
  | _ => []

/-- The assertion, if thread `i` evaluates it, holds of every timer that can be on top. -/
def assertHolds (c : TimerConfig ι β) (i : ι) : Bool :=
  match c.threads i with
  | .taken e => c.heap.all fun t => !isTop c.heap t || e.timer.time ≤ t.time
  | _ => true

/-- No thread asks for the top of an empty heap, and no assertion fails. -/
structure TopSafe (c : TimerConfig ι β) : Prop where
  nonempty : ∀ i, ∀ heap ∈ c.topCalls i, heap ≠ []
  asserted : ∀ i, c.assertHolds i = true

/-- If the step removes a timer from the heap, the heap has another one. -/
def leavesAnother (c : TimerConfig ι β) : HeapAct ι β → Bool
  | .timers (.thread i _ _) =>
    match c.threads i with
    | .procTest tnow _ => !c.topDue tnow || 2 ≤ c.heap.length
    | _ => true
  | _ => true

variable [DecidableEq ι] [DecidableEq β]

/-- A step of the threads with `remove_references` among them: the call needs the mutex free. -/
def heapStep (c : TimerConfig ι β) : HeapAct ι β → Option (TimerConfig ι β)
  | .timers a => c.step a
  | .removeReferences b => if c.lock = none then some (Exn.leaves ((removeReferences b).run c)) else none

end TimerConfig

end Blockmon
