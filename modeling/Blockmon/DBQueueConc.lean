import Blockmon.DBQueue
import Blockmon.Lib.Lts
import Blockmon.Lib.Collect

/-!
# Overlapping calls on the double-buffered queue

Any number of producers are inside `push` while the single consumer is inside `pop`. `ProducerPc` and `ConsumerPc` are the
positions between the atomic steps of the two functions; every step is one atomic access to `m_full`, `m_pointer`, a valid bit or
a payload, together with the private computations that follow it. All atomics are sequentially consistent here.

`log` is the history of a run. Nothing in the steps reads it.
-/

namespace Blockmon

/-- A producer's position in `push`. -/
inductive ProducerPc (T : Type) where
  | idle
  /-- About to load `m_full`. -/
  | loadFull (v : T)
  /-- About to add one to `m_pointer`. -/
  | fetchAdd (v : T)
  /-- Holds the last slot of buffer `q`; about to set `m_full`. -/
  | storeFull (v : T) (q i : Nat)
  /-- Holds slot `i` of buffer `q`; about to write the payload. -/
  | write (v : T) (q i : Nat)
  /-- About to set the valid bit. -/
  | publish (v : T) (q i : Nat)
deriving DecidableEq

/-- The consumer's position in `pop`. -/
inductive ConsumerPc where
  | idle
  /-- In `consume`, the first or the second call in this `pop`, after `tries` failed attempts on the slot under the read index. -/
  | load (second : Bool) (tries : Nat)
  /-- The slot under the read index was valid; about to move the payload out. -/
  | take
  /-- In the loop of `swap_queues`, about to clear slot `i`. -/
  | clear (i : Nat)
  /-- In `swap_queues`, about to exchange `m_pointer`. -/
  | exchange
  /-- In `swap_queues`, about to clear `m_full`. -/
  | clearFull
deriving DecidableEq

/-- What happened in a run. -/
inductive QueueEvent (ι T : Type) where
  /-- Producer `p` added one to the pointer and was given slot `i` of buffer `q`, inside the buffer or not. -/
  | fetchAdd (p : ι) (v : T) (q i : Nat) (inside : Bool)
  | wrote (p : ι) (q i : Nat)
  | pushed (p : ι) (v : T) (ok : Bool)
  | popped (q i : Nat) (v : T)
  | popFalse
  /-- The retry loop of `consume` ran out on slot `i` of buffer `q`. -/
  | abandoned (q i : Nat)
  | swapped
deriving DecidableEq

/-- The queue, the positions of the parties, and the history. -/
structure QueueConfig (ι T : Type) where
  q : DBQueue T
  producers : ι → ProducerPc T
  consumer : ConsumerPc
  log : List (QueueEvent ι T)

/-- A label: a call, or the next step of a party that is inside one. -/
inductive QueueAct (ι T : Type) where
  | push (p : ι) (v : T)
  | producer (p : ι)
  | pop
  | consumer

namespace QueueConfig

variable {ι T : Type} [DecidableEq ι] [Inhabited T]

/-- The queue as made, and no thread in a call. -/
def new : QueueConfig ι T := { q := DBQueue.new, producers := fun _ => .idle, consumer := .idle, log := [] }

/-- Producer `p` moves to `pc`. -/
def goto (c : QueueConfig ι T) (p : ι) (pc : ProducerPc T) : QueueConfig ι T :=
  { c with producers := Function.update c.producers p pc }

/-- Something is recorded. -/
def emit (c : QueueConfig ι T) (e : QueueEvent ι T) : QueueConfig ι T := { c with log := c.log ++ [e] }

/-- The next step of producer `p` in `push`. -/
def producerStep (Qlen : Nat) (c : QueueConfig ι T) (p : ι) : Option (QueueConfig ι T) :=
  match c.producers p with
  | .idle => none
  | .loadFull v =>
    if c.q.full then some ((c.goto p .idle).emit (.pushed p v false)) else some (c.goto p (.fetchAdd v))
  | .fetchAdd v =>
    let q := DBQueue.curQueue c.q.pointer
    let i := DBQueue.mySlot c.q.pointer
    let c := { c with q := { c.q with pointer := c.q.pointer + 1 } }
    if i ≥ Qlen - 1 then
      if i = Qlen - 1 then some ((c.goto p (.storeFull v q i)).emit (.fetchAdd p v q i true))
      else some (((c.goto p .idle).emit (.fetchAdd p v q i false)).emit (.pushed p v false))
    else some ((c.goto p (.write v q i)).emit (.fetchAdd p v q i true))
  | .storeFull v q i => some ({ c with q := { c.q with full := true } }.goto p (.write v q i))
  | .write v q i => some (({ c with q := c.q.storePayload q i v }.goto p (.publish v q i)).emit (.wrote p q i))
  | .publish v q i => some (({ c with q := c.q.storeValid q i true }.goto p .idle).emit (.pushed p v true))

/-- The next step of the consumer in `pop`. -/
def consumerStep (Qlen : Nat) (c : QueueConfig ι T) : Option (QueueConfig ι T) :=
  match c.consumer with
  | .idle => none
  | .load second tries =>
    if c.q.read < c.q.fullSlots then
      if (c.q.queues c.q.consumerQ c.q.read).valid then some { c with consumer := .take }
      else if tries + 1 < 100 then some { c with consumer := .load second (tries + 1) }
      else some ({ c with q := { c.q with read := c.q.read + 1 }, consumer := .load second 0 }.emit
        (.abandoned c.q.consumerQ c.q.read))
    else if second then some ({ c with consumer := .idle }.emit .popFalse)
    else some { c with consumer := .clear 0 }
  | .take => some ({ c with q := c.q.takeSlot.2, consumer := .idle }.emit (.popped c.q.consumerQ c.q.read c.q.takeSlot.1))
  | .clear i =>
    if i < c.q.fullSlots then some { c with q := c.q.storeValid c.q.consumerQ i false, consumer := .clear (i + 1) }
    else some { c with consumer := .exchange }
  | .exchange => some ({ c with q := c.q.exchangePointer Qlen, consumer := .clearFull }.emit .swapped)
  | .clearFull => some { c with q := { c.q with full := false }, consumer := .load true 0 }

/-- One atomic step of a producer or of the consumer. -/
def step (Qlen : Nat) (c : QueueConfig ι T) : QueueAct ι T → Option (QueueConfig ι T)
  | .push p v => if c.producers p matches .idle then some (c.goto p (.loadFull v)) else none
  | .producer p => c.producerStep Qlen p
  | .pop => if c.consumer matches .idle then some { c with consumer := .load false 0 } else none
  | .consumer => c.consumerStep Qlen

/-- The configuration after an interleaving `acts` of the parties' steps, from the freshly constructed queue. -/
def after (Qlen : Nat) (acts : List (QueueAct ι T)) : Option (QueueConfig ι T) := Lts.run (step Qlen) new acts

end QueueConfig

/-! ## Reading the history -/

namespace QueueLog

variable {ι T : Type}

/-- The accepted messages in the order of their reservations: those whose slot lies inside the buffer. -/
def accepted (log : List (QueueEvent ι T)) : List T :=
  log.filterMap fun
    | .fetchAdd _ v _ _ true => some v
    | _ => none

/-- The messages whose push returned true. -/
def returned (log : List (QueueEvent ι T)) : List T :=
  log.filterMap fun
    | .pushed _ v true => some v
    | _ => none

/-- The messages that were popped. -/
def popped (log : List (QueueEvent ι T)) : List T :=
  log.filterMap fun
    | .popped _ _ v => some v
    | _ => none

/-- The count of reservations since the last swap, after one more event. -/
def countAdd (n : Nat) : QueueEvent ι T → Nat
  | .fetchAdd .. => n + 1
  | .swapped => 0
  | _ => n

/-- The number of reservations since the last swap. -/
def adds (log : List (QueueEvent ι T)) : Nat := log.foldl countAdd 0

/-- Whether slot `i` of buffer `q` holds a payload that was not popped, after one more event. -/
def markDirty (q i : Nat) (b : Bool) : QueueEvent ι T → Bool
  | .wrote _ q' i' => if q' = q ∧ i' = i then true else b
  | .popped q' i' _ => if q' = q ∧ i' = i then false else b
  | _ => b

/-- Slot `i` of buffer `q` was written and not popped since. -/
def dirty (log : List (QueueEvent ι T)) (q i : Nat) : Bool := log.foldl (markDirty q i) false

/-- The consumer never gave up on a slot. -/
def NeverAbandoned (log : List (QueueEvent ι T)) : Prop := ∀ q i, .abandoned q i ∉ log

/-- Fewer than `2 ^ 30` reservations between two swaps. -/
def BoundedAdds (log : List (QueueEvent ι T)) : Prop := ∀ l, l <+: log → adds l < 2 ^ 30

/-- Between two writes to the payload of a slot there is a pop of that slot. -/
def NoDoubleWrite (log : List (QueueEvent ι T)) : Prop :=
  ∀ l₁ l₂ l₃ p p' q i, log = l₁ ++ .wrote p q i :: l₂ ++ .wrote p' q i :: l₃ → ∃ v, .popped q i v ∈ l₂

end QueueLog

/-- The message of a slot, if it is valid. -/
def Slot.message? {T : Type} (s : Slot T) : Option T := if s.valid then some s.payload else none

/-- The messages that pops to come still find: in the part of its buffer the consumer has not been through, and behind them in
the slots reserved in the producers' buffer. -/
def DBQueue.pending {T : Type} (Qlen : Nat) (d : DBQueue T) : List T :=
  Collect.collect (fun i => (d.queues d.consumerQ i).message?) d.read d.fullSlots ++
    Collect.collect (fun i => (d.queues (DBQueue.curQueue d.pointer) i).message?) 0 (min (DBQueue.mySlot d.pointer) Qlen)

end Blockmon
