import Blockmon.TimerThread

/-!
# Starting and stopping the timer thread (`daemon/backend_glue.cpp`)

The glue code keeps one pointer to a thread, `tt`. `start_timer_thread` creates the thread, which begins to run `operator()` of the
one `TimerThread` object at some later time; `stop_timer_thread` sets `m_stop` of the object and joins the thread. The calls
alternate, as `start_bm` and `stop_bm` of the daemon make them. The other threads move freely in between.
-/

namespace Blockmon

/-- The thread that `tt` points to, whether it has begun to run, and whether `stop_timer_thread` is waiting for it. -/
structure TimerGlue (ι β : Type) where
  timers : TimerConfig ι β
  tt : Option ι
  begun : Bool
  joining : Bool

/-- What happens to the timer thread from outside, and the steps within. -/
inductive GlueAct (ι β : Type) where
  | startTimerThread (i : ι)
  /-- The new thread enters `operator()`. -/
  | begins
  /-- The call of `stop` in `stop_timer_thread`. -/
  | stopTimerThread
  /-- The thread has returned from `operator()` and the join ends. -/
  | joined
  | timers (a : TimerAct ι β)

namespace TimerGlue

variable {ι β : Type} [DecidableEq ι]

omit [DecidableEq ι] in
/-- No thread, and nothing queued. -/
def new : TimerGlue ι β := { timers := TimerConfig.new, tt := none, begun := false, joining := false }

/-- A step that is not one of the glue code: the timer thread calls the functions of `Block` only from a handler. -/
def allowed (g : TimerGlue ι β) : TimerAct ι β → Bool
  | .start _ | .stop => false
  | .timePast i _ => g.tt ≠ some i
  | .setTimerAt i _ _ | .setPeriodicTimer i _ _ _ =>
    match g.timers.threads i with
    | .handling _ => true
    | _ => g.tt ≠ some i
  | _ => true

/-- One step: a new thread begins in `operator()`, and the join waits for its end. -/
def step (g : TimerGlue ι β) : GlueAct ι β → Option (TimerGlue ι β)
  | .startTimerThread i =>
    match g.tt, g.timers.threads i with
    | none, .idle => some { g with tt := some i, begun := false, joining := false }
    | _, _ => none
  | .begins =>
    match g.tt, g.begun with
    | some i, false => (g.timers.step (.start i)).map fun c => { g with timers := c, begun := true }
    | _, _ => none
  | .stopTimerThread =>
    match g.tt, g.joining with
    | some _, false => (g.timers.step .stop).map fun c => { g with timers := c, joining := true }
    | _, _ => none
  | .joined =>
    match g.tt with
    | none => none
    | some i =>
      match g.timers.threads i, g.begun, g.joining with
      | .idle, true, true => some { g with tt := none }
      | _, _, _ => none
  | .timers a => if g.allowed a then (g.timers.step a).map fun c => { g with timers := c } else none

end TimerGlue

end Blockmon
