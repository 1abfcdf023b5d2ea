import Mathlib.Data.Stream.Init
import Blockmon.TimerThread
import Blockmon.Lib.Exn
import Blockmon.Lib.Fuel
import Blockmon.Lib.PriorityQueue

/-!
# The packet clock (`core/time/PacketTime.cpp`)

`time_past` moves the packet clock to a target in steps of 1 ms and lets the timers that are due be handled after every step. The
functions below are the complete calls, made one after the other with the packet clock selected and no other thread at work; the
steps of several threads are in `TimerThread.lean`. A handler may schedule timers: they go to the staging queue, which no function
here reads.

The state keeps the values the clock has had and the deliveries made, each with the reading of the clock. The loops take their fuel
as an argument.
-/

namespace Blockmon

/-- The heap of the timer thread: the order is that of the time points. -/
abbrev TimerHeap (β : Type) := PriorityQueue (Timer β) fun t => t.time.toNat

/-- `next_time` with the clock at `now`. -/
def Timer.renew {β : Type} (t : Timer β) (now : ustime) : Timer β :=
  match t.id.kind with
  | .oneShot => t
  | .periodic period => { t with time := now + period }

/-- The heap of the timers, the clock with its writers, and what was set and delivered so far. -/
structure PacketClock {β : Type} (P : TimerHeap β) where
  heap : P.Q
  packetTime : ustime
  writers : Nat
  history : List ustime
  deliveries : List (TimerId × ustime)

namespace PacketClock

variable {β : Type} {P : TimerHeap β}

/-- The clock as constructed, with the timers `heap`. -/
def new (heap : P.Q) : PacketClock P := { heap := heap, packetTime := 0, writers := 0, history := [0], deliveries := [] }

/-- `PacketTime::get_time` -/
def getTime (s : PacketClock P) : ustime := s.packetTime

/-- `PacketTime::register_time_writer` -/
def registerTimeWriter (s : PacketClock P) : PacketClock P := { s with writers := s.writers + 1 }

/-- The clock is set. -/
def store (s : PacketClock P) (v : ustime) : PacketClock P := { s with packetTime := v, history := s.history ++ [v] }

/-- The update of the clock in `time_past`, with `last_time`: an exchange, or a load and a store. -/
def advance (s : PacketClock P) (next : ustime) : Except String (ustime × PacketClock P) :=
  if s.writers > 1 then .ok (s.packetTime, s.store next)
  else if s.writers = 1 then
    let last := s.packetTime
    .ok (last, s.store next)
  else .error "inconsistent number of packet time writers"

/-- The body of the loop of `process_timer_events` on the timer that was removed from the heap. -/
def handleTop (s : PacketClock P) (t : Timer β) (heap : P.Q) : PacketClock P :=
  let s := { s with heap := heap, deliveries := s.deliveries ++ [(t.id, s.getTime)] }
  let t' := t.renew s.getTime
  if t'.time ≠ t.time then { s with heap := P.push t' s.heap } else s

/-- The loop of `process_timer_events`, up to a number of passes. -/
def processLoop (tnow : ustime) : Nat → PacketClock P → Option (PacketClock P)
  | 0, _ => none
  | n + 1, s =>
    match P.pop s.heap with
    | none => some s
    | some (t, heap) => if t.time ≤ tnow then processLoop tnow n (s.handleTop t heap) else some s

/-- `TimerThread::process_timer_events` -/
def processTimerEvents (fuel : Nat) (s : PacketClock P) : Option (PacketClock P) := processLoop s.getTime fuel s

/-- The loop of `time_past`. -/
def timePastLoop (target : ustime) : Nat → ustime → PacketClock P → Option (EStateM.Result String (PacketClock P) Unit)
  | 0, _, _ => none
  | n + 1, next, s =>
    let next := if next + 1000 ≤ target then next + 1000 else target
    match s.advance next with
    | .error e => some (.error e s)
    | .ok (last, s) =>
      if last > next then some (.error "packet time value out of order" s)
      else
        (s.processTimerEvents n).bind fun s =>
          if next < target then timePastLoop target n next s else some (.ok () s)

/-- `PacketTime::time_past` -/
def timePast (fuel : Nat) (target : ustime) (s : PacketClock P) : Option (EStateM.Result String (PacketClock P) Unit) :=
  timePastLoop target fuel (if s.getTime = 0 then target else s.getTime) s

end PacketClock

/-- A call on the packet clock. -/
inductive PacketCall where
  | registerTimeWriter
  | timePast (target : ustime)

namespace PacketClock

variable {β : Type} {P : TimerHeap β}

/-- A call on the clock. -/
def call (fuel : Nat) (s : PacketClock P) : PacketCall → Option (EStateM.Result String (PacketClock P) Unit)
  | .registerTimeWriter => some (.ok () s.registerTimeWriter)
  | .timePast target => timePast fuel target s

/-- The caller catches what a call throws and goes on. -/
def step (fuel : Nat) (s : PacketClock P) (c : PacketCall) : Option (PacketClock P) := (s.call fuel c).map Exn.leaves

end PacketClock

namespace PacketClock

variable {β : Type} {P : TimerHeap β} (s : PacketClock P) (v : ustime)

@[simp] theorem store_heap : (s.store v).heap = s.heap := rfl

@[simp] theorem store_packetTime : (s.store v).packetTime = v := rfl

@[simp] theorem store_writers : (s.store v).writers = s.writers := rfl

@[simp] theorem store_history : (s.store v).history = s.history ++ [v] := rfl

@[simp] theorem store_deliveries : (s.store v).deliveries = s.deliveries := rfl

end PacketClock

/-- The next time, where the clock is read. -/
theorem Timer.nextTime_eq_renew {β : Type} (t : Timer β) (now : ustime) : t.nextTime (.ok now) = .ok (t.renew now) := by
  cases hkind : t.id.kind <;> simp [nextTime, renew, hkind]

end Blockmon

/-!
## A call of `process_timer_events` (`core/time/TimerThread.cpp`)

The call with any clock and any handlers. Every call of `get_BM_time` takes the next of the readings the clock is going to give; the
blocks have a state that `handle_timer` changes, and a handler may schedule timers, which go to the queue; what a handler reads from
the clock is not among the readings. The assertion after the removal from the heap has no effect. The loop takes its fuel as an
argument.

In `PacketTime.lean` the clock stands still while the loop runs, and the handlers do nothing that the clock can see.
-/

namespace Blockmon

/-- What the call does, in the order of time. -/
inductive ServiceEvent (β : Type) where
  | read (now : ustime)
  /-- `handle_timer` of the owner is called. -/
  | handled (t : Timer β)
  | inserted (t : Timer β)

/-- The timer thread with its blocks, a clock and what has happened. -/
structure TimerService {β : Type} (P : TimerHeap β) (σ : Type) where
  queue : List (Timer β)
  heap : P.Q
  blocks : σ
  clock : Stream' ustime
  events : List (ServiceEvent β)

namespace TimerService

variable {β σ : Type} {P : TimerHeap β}

/-- One more event. -/
def emit (s : TimerService P σ) (e : ServiceEvent β) : TimerService P σ := { s with events := s.events ++ [e] }

/-- `get_BM_time`, which takes the next value of the clock. -/
def getBMTime (s : TimerService P σ) : ustime × TimerService P σ :=
  (s.clock.head, { s with clock := s.clock.tail }.emit (.read s.clock.head))

/-- `TimerThread::insert_in_heap` -/
def insertInHeap (s : TimerService P σ) (t : Timer β) : TimerService P σ := { s with heap := P.push t s.heap }.emit (.inserted t)

/-- `TimerThread::schedule_timer` -/
def scheduleTimer (s : TimerService P σ) (t : Timer β) : TimerService P σ := { s with queue := s.queue ++ [t] }

/-- The handler gives the new state of the blocks and the timers it has set. -/
def handleTimer (handler : σ → Timer β → σ × List (Timer β)) (s : TimerService P σ) (t : Timer β) : TimerService P σ :=
  let (blocks, set) := handler s.blocks t
  set.foldl scheduleTimer ({ s with blocks := blocks }.emit (.handled t))

/-- `Timer::next_time` -/
def nextTime (s : TimerService P σ) (t : Timer β) : Timer β × TimerService P σ :=
  match t.id.kind with
  | .oneShot => (t, s)
  | .periodic period =>
    let (now, s) := s.getBMTime
    ({ t with time := now + period }, s)

/-- The body of the loop on the timer `t` that was removed from the heap. -/
def handleTop (handler : σ → Timer β → σ × List (Timer β)) (s : TimerService P σ) (t : Timer β) (heap : P.Q) : TimerService P σ :=
  let s := { s with heap := heap }.handleTimer handler t
  let ttmp := t.time
  let (t, s) := s.nextTime t
  if t.time ≠ ttmp then s.insertInHeap t else s

/-- The loop of `process_timer_events`, up to a number of passes. -/
def processLoop (handler : σ → Timer β → σ × List (Timer β)) (tnow : ustime) :
    Nat → TimerService P σ → Option (TimerService P σ)
  | 0, _ => none
  | n + 1, s =>
    match P.pop s.heap with
    | none => some s
    | some (t, heap) => if t.time ≤ tnow then processLoop handler tnow n (s.handleTop handler t heap) else some s

/-- `TimerThread::process_timer_events` -/
def processTimerEvents (handler : σ → Timer β → σ × List (Timer β)) (fuel : Nat) (s : TimerService P σ) :
    Option (TimerService P σ) :=
  let (tnow, s) := s.getBMTime
  processLoop handler tnow fuel s

/-! ## What a call is to do -/

/-- The events of the delivery of the timers `ts`, in this order, when the clock is going to give the readings `clock`: a periodic
timer is put back at the reading after its delivery plus its period. -/
def served : Stream' ustime → List (Timer β) → List (ServiceEvent β)
  | _, [] => []
  | clock, t :: ts =>
    match t.id.kind with
    | .oneShot => .handled t :: served clock ts
    | .periodic period =>
      .handled t :: .read clock.head :: .inserted { t with time := clock.head + period } :: served clock.tail ts

/-- The timers that were put into the heap. -/
def inserted (events : List (ServiceEvent β)) : List (Timer β) :=
  events.filterMap fun
    | .inserted t => some t
    | _ => none

/-- The blocks and the queue after the timers `ts` were handled. -/
def handledAll (handler : σ → Timer β → σ × List (Timer β)) : List (Timer β) → σ × List (Timer β) → σ × List (Timer β)
  | [], r => r
  | t :: ts, (blocks, queue) =>
    let (blocks, set) := handler blocks t
    handledAll handler ts (blocks, queue ++ set)

end TimerService

end Blockmon
