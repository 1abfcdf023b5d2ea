import Mathlib.Data.List.Basic
import Mathlib.Algebra.Order.Ring.Int
import Mathlib.Logic.Function.Basic

/-!
# Flow records (`messages/Flow.hpp`, `messages/NetTypes.hpp`)

Of a packet the flow records use its key and its length; `get_payload` and the sorting of the stored packets are not modelled.
-/

namespace Blockmon

/-- Microseconds, `uint64_t`. -/
abbrev ustime := UInt64

/-- `FlowKey` -/
structure FlowKey where
  src_ip4 : UInt32
  dst_ip4 : UInt32
  src_port : UInt16
  dst_port : UInt16
  proto : UInt8
deriving DecidableEq

/-- What the flow meter reads of a packet. -/
structure Packet where
  key : FlowKey
  length : UInt64
deriving DecidableEq

/-- `Flow` -/
structure Flow where
  stime : ustime
  etime : ustime
  key : FlowKey
  bytes : UInt64
  packets : UInt64
  flowPackets : List Packet
  listSorted : Bool
deriving DecidableEq

namespace Flow

/-- The regular constructor. -/
def new (key : FlowKey) : Flow :=
  { stime := 0, etime := 0, key := key, bytes := 0, packets := 0, flowPackets := [], listSorted := false }

/-- `Flow::start_time` -/
def startTime (f : Flow) : ustime := f.stime

/-- `Flow::end_time` -/
def endTime (f : Flow) : ustime := f.etime

/-- The second test of `m_stime` comes after the first assignment. -/
def expandInterval (f : Flow) (us : ustime) : Flow :=
  let f := if f.stime = 0 ∨ f.stime > us then { f with stime := us } else f
  if f.stime = 0 ∨ f.etime < us then { f with etime := us } else f

/-- `Flow::increment_bytes` -/
def incrementBytes (f : Flow) (val : UInt64) : Flow := { f with bytes := f.bytes + val }

/-- `Flow::increment_packets` -/
def incrementPackets (f : Flow) (val : UInt64) : Flow := { f with packets := f.packets + val }

/-- The value of the copy. -/
def clone (f : Flow) : Flow :=
  { new f.key with
    etime := f.etime, stime := f.stime, bytes := f.bytes, packets := f.packets, flowPackets := f.flowPackets,
    listSorted := f.listSorted }

/-- `Flow::reset` -/
def reset (f : Flow) : Flow :=
  { f with etime := 0, stime := 0, bytes := 0, packets := 0, flowPackets := [], listSorted := false }

/-- `Flow::add_packet` -/
def addPacket (f : Flow) (p : Packet) : Flow := { f with flowPackets := f.flowPackets ++ [p] }

/-- A clone has all members. -/
@[simp] theorem clone_eq (f : Flow) : f.clone = f := rfl

@[simp] theorem expandInterval_key (f : Flow) (us : ustime) : (f.expandInterval us).key = f.key := by
  unfold expandInterval
  dsimp only
  split <;> split <;> rfl

@[simp] theorem expandInterval_bytes (f : Flow) (us : ustime) : (f.expandInterval us).bytes = f.bytes := by
  unfold expandInterval
  dsimp only
  split <;> split <;> rfl

@[simp] theorem expandInterval_packets (f : Flow) (us : ustime) : (f.expandInterval us).packets = f.packets := by
  unfold expandInterval
  dsimp only
  split <;> split <;> rfl

/-- The interval ends at the time given, unless it ended later already. -/
theorem expandInterval_etime (f : Flow) (us : ustime) :
    (f.expandInterval us).etime = us ∨ (f.expandInterval us).etime = f.etime ∧ us ≤ f.etime := by
  unfold expandInterval
  dsimp only
  split <;> split
  · exact Or.inl rfl
  · next h => exact Or.inr ⟨rfl, UInt64.not_lt.mp fun hlt => h (Or.inr hlt)⟩
  · exact Or.inl rfl
  · next h => exact Or.inr ⟨rfl, UInt64.not_lt.mp fun hlt => h (Or.inr hlt)⟩

/-- The end is not before the time of the packet. -/
theorem le_expandInterval_etime (f : Flow) (us : ustime) : us ≤ (f.expandInterval us).etime := by
  rcases expandInterval_etime f us with h | ⟨h, hle⟩
  · rw [h]
    exact UInt64.le_refl us
  · rw [h]
    exact hle

end Flow

end Blockmon

/-!
## What a flow meter is for

A table of flow records, the order in which their keys are checked, and the records exported so far. There are no pointers: a
record is a value, in the table or exported. `receive` and `check` are what a packet and a timer do; the flow meter refines them.
-/

namespace Blockmon

/-- The flows with their keys, the keys that are checked in their order, and what was exported. -/
structure FlowTable where
  entries : FlowKey → Option Flow
  slots : List (FlowKey × ustime)
  exported : List Flow

namespace FlowTable

/-- A table without flows. -/
def empty : FlowTable := { entries := fun _ => none, slots := [], exported := [] }

/-- The keys in the order in which they are checked. -/
def keys (t : FlowTable) : List FlowKey := t.slots.map Prod.fst

/-- A packet with its time: a new record, checked last if there is room for one more; or the update of the record, which is
exported and started again before if its interval is too long. -/
def receive (capacity : Nat) (tooLong : Flow → Bool) (count : Flow → Flow) (p : Packet) (now : ustime) (t : FlowTable) : FlowTable :=
  match t.entries p.key with
  | none =>
    { t with
      entries := Function.update t.entries p.key (some (count (Flow.new p.key)))
      slots := if t.slots.length < capacity then t.slots ++ [(p.key, now)] else t.slots }
  | some f =>
    if tooLong f then
      { t with
        entries := Function.update t.entries p.key (some (count (f.expandInterval now).reset))
        exported := t.exported ++ [f.expandInterval now] }
    else { t with entries := Function.update t.entries p.key (some (count f)) }

/-- The record of the key checked first is exported and erased. -/
def expire (t : FlowTable) (key : FlowKey) (f : Flow) (rest : List (FlowKey × ustime)) : FlowTable :=
  { entries := Function.update t.entries key none, slots := rest, exported := t.exported ++ [f] }

/-- The key checked first is checked again last. -/
def requeue (t : FlowTable) (key : FlowKey) (now : ustime) (rest : List (FlowKey × ustime)) : FlowTable :=
  { t with slots := rest ++ [(key, now)] }

/-- The checks of a timer at `now`, for at most `fuel` slots: a record that ended before `limit` expires, another one is checked
again last; the checks stop after a record that was checked since `limit`. -/
def check (now limit : ustime) : Nat → FlowTable → Option FlowTable
  | 0, _ => none
  | fuel + 1, t =>
    match t.slots with
    | [] => some t
    | (key, checked) :: rest =>
      match t.entries key with
      | none => none
      | some f =>
        if f.etime < limit then check now limit fuel (t.expire key f rest)
        else if checked > limit then some (t.requeue key now rest)
        else check now limit fuel (t.requeue key now rest)

end FlowTable

end Blockmon
