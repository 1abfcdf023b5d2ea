import Mathlib.Data.List.Basic
import Mathlib.Logic.Function.Basic
import Mathlib.Algebra.Order.Ring.Int

/-!
# The double-buffered queue of an input gate (`core/block/DBQueue.hpp`)

`DBQueue<T, Qlen>` keeps two buffers of `Qlen` slots. Producers fill one of them; the consumer empties the other and swaps the two
when it has reached the end of its own. The packed word `pointer` holds in bit 30 which buffer the producers fill and in the low
30 bits how many reservations were made in it.

The functions below are the complete, non-overlapping calls. The atomic steps of overlapping calls are in `DBQueueConc.lean`.
A buffer is a function of the slot index: the code indexes it below `Qlen` only. A payload that has been moved out is `default`,
which is what `std::shared_ptr` leaves behind.
-/

namespace Blockmon

/-- One slot of a buffer. -/
structure Slot (T : Type) where
  valid : Bool
  payload : T

/-- The slot as constructed: not valid, with a default-constructed payload. -/
def Slot.new {T : Type} [Inhabited T] : Slot T := ⟨false, default⟩

/-- The member variables of the queue. -/
structure DBQueue (T : Type) where
  queues : Nat → Nat → Slot T
  pointer : UInt32
  read : Nat
  consumerQ : Nat
  fullSlots : Nat
  full : Bool

namespace DBQueue

/-- The two top bits of the packed pointer. -/
def MASK : UInt32 := (0 : UInt32) ||| ((1 : UInt32) <<< (31 : UInt32)) ||| ((1 : UInt32) <<< (30 : UInt32))

/-- The buffer a value of the packed pointer selects. -/
def curQueue (p : UInt32) : Nat := ((p &&& MASK) >>> 30).toNat

/-- The slot a value of the packed pointer selects. -/
def mySlot (p : UInt32) : Nat := (p &&& ~~~MASK).toNat

/-- `exchange_queue` -/
def exchangeQueue (q : Nat) : Nat := if q = 0 then 1 else 0

variable {T : Type}

/-- The queue as constructed: the producers fill buffer 0, the consumer's buffer 1 is empty. -/
def new [Inhabited T] : DBQueue T :=
  { queues := fun _ _ => Slot.new, pointer := 0, read := 0, consumerQ := 1, fullSlots := 0, full := false }

/-- Overwrite one slot. -/
def setSlot (d : DBQueue T) (q i : Nat) (s : Slot T) : DBQueue T :=
  { d with queues := Function.update d.queues q (Function.update (d.queues q) i s) }

/-- `m_queues[q].vec[i].valid.store(b)`. -/
def storeValid (d : DBQueue T) (q i : Nat) (b : Bool) : DBQueue T :=
  d.setSlot q i { d.queues q i with valid := b }

/-- `m_queues[q].vec[i].payload = v`. -/
def storePayload (d : DBQueue T) (q i : Nat) (v : T) : DBQueue T :=
  d.setSlot q i { d.queues q i with payload := v }

/-- The first loop of `swap_queues`: clear the valid bits of the slots the consumer has been through. -/
def clearValid (d : DBQueue T) : DBQueue T :=
  (List.range d.fullSlots).foldl (fun d' i => d'.storeValid d.consumerQ i false) d

/-- The word `swap_queues` writes to `m_pointer`: the buffer the consumer gives up, with no reservation in it. -/
def newpoint (d : DBQueue T) : UInt32 := UInt32.ofNat d.consumerQ <<< 30

/-- `swap_queues` -/
def swapQueues (Qlen : Nat) (d : DBQueue T) : DBQueue T :=
  let d := d.clearValid
  let point := d.newpoint
  let d := { d with consumerQ := exchangeQueue d.consumerQ }
  let old := d.pointer
  let d := { d with pointer := point }
  let d := { d with full := false }
  { d with fullSlots := min (mySlot old) Qlen, read := 0 }

/-- The exchange of the pointer in `swap_queues`, with the assignments to the consumer's own variables around it. No other party
reads those, so they go with the exchange, before the store to `m_full`. -/
def exchangePointer (Qlen : Nat) (d : DBQueue T) : DBQueue T :=
  { d with
    consumerQ := exchangeQueue d.consumerQ, pointer := d.newpoint, fullSlots := min (mySlot d.pointer) Qlen, read := 0 }

/-- The retry loop of `consume` on the slot under the read index, `n` attempts left. -/
def awaitValid (d : DBQueue T) : Nat → Bool
  | 0 => false
  | n + 1 => if (d.queues d.consumerQ d.read).valid then true else d.awaitValid n

/-- Move the payload out of the slot under the read index. -/
def takeSlot [Inhabited T] (d : DBQueue T) : T × DBQueue T :=
  ((d.queues d.consumerQ d.read).payload,
    { d.storePayload d.consumerQ d.read default with read := d.read + 1 })

/-- The outer loop of `consume`. It moves the read index at every pass, so it makes at most `fullSlots - read` of them. -/
def consumeLoop [Inhabited T] : Nat → DBQueue T → Option T × DBQueue T
  | 0, d => (none, d)
  | n + 1, d =>
    if d.read < d.fullSlots then
      if d.awaitValid 100 then (some d.takeSlot.1, d.takeSlot.2)
      else consumeLoop n { d with read := d.read + 1 }
    else (none, d)

/-- `consume`: at most one slot is given, of those that `swap_queues` has taken over. -/
def consume [Inhabited T] (d : DBQueue T) : Option T × DBQueue T := consumeLoop (d.fullSlots - d.read) d

/-- `pop`: `none` is the return value `false`. -/
def pop [Inhabited T] (Qlen : Nat) (d : DBQueue T) : Option T × DBQueue T :=
  match d.consume with
  | (some v, d) => (some v, d)
  | (none, d) => (d.swapQueues Qlen).consume

/-- The two stores that publish a message in its slot. -/
def publish (d : DBQueue T) (q i : Nat) (v : T) : DBQueue T := (d.storePayload q i v).storeValid q i true

/-- `push`: the slot taken last of a queue makes it full. -/
def push (Qlen : Nat) (d : DBQueue T) (v : T) : Bool × DBQueue T :=
  if d.full then (false, d)
  else
    let cur := d.pointer
    let d := { d with pointer := cur + 1 }
    if mySlot cur ≥ Qlen - 1 then
      if mySlot cur = Qlen - 1 then (true, { d with full := true }.publish (curQueue cur) (mySlot cur) v)
      else (false, d)
    else (true, d.publish (curQueue cur) (mySlot cur) v)

/-- `is_full` -/
def isFull (d : DBQueue T) : Bool := d.full

/-- The body of the loops of `reset`: a valid slot loses its payload and its valid bit. -/
def resetSlot [Inhabited T] (s : Slot T) : Slot T := if s.valid then ⟨false, default⟩ else s

/-- `reset`: the slots of both queues are emptied and the consumer is on the second queue. -/
def reset [Inhabited T] (Qlen : Nat) (d : DBQueue T) : DBQueue T :=
  { queues := fun q i => if q < 2 ∧ i < Qlen then resetSlot (d.queues q i) else d.queues q i
    full := false, pointer := 0, consumerQ := 1, read := 0, fullSlots := 0 }

end DBQueue

/-! ## The packed pointer -/

namespace DBQueue

/-- The two bits that name the queue. -/
theorem MASK_toNat : MASK.toNat = 3 * 2 ^ 30 := by decide

/-- The bits that number the slot. -/
theorem not_MASK_toNat : (~~~MASK).toNat = 2 ^ 30 - 1 := by decide

/-- The slot is the low 30 bits. -/
theorem mySlot_eq (p : UInt32) : mySlot p = p.toNat % 2 ^ 30 := by
  rw [mySlot, UInt32.toNat_and, not_MASK_toNat, Nat.and_two_pow_sub_one_eq_mod]

/-- The buffer is the two high bits. -/
theorem curQueue_eq (p : UInt32) : curQueue p = p.toNat / 2 ^ 30 := by
  have hlt := p.toNat_lt
  have h3 : (3 : Nat) = 2 ^ 2 - 1 := by decide
  rw [curQueue, UInt32.toNat_shiftRight, UInt32.toNat_and, MASK_toNat]
  have h30 : (30 : UInt32).toNat % 32 = 30 := by decide
  rw [h30, Nat.shiftRight_and_distrib, Nat.shiftRight_eq_div_pow, Nat.shiftRight_eq_div_pow, Nat.mul_div_cancel _ (by decide), h3,
    Nat.and_two_pow_sub_one_eq_mod]
  omega

/-- `p` selects buffer `q`, with `n` reservations made in it. -/
def PointsTo (p : UInt32) (q n : Nat) : Prop := p.toNat = q * 2 ^ 30 + n ∧ q < 2 ∧ n < 2 ^ 30

/-- The low bits of the pointer are the slot it points to. -/
theorem PointsTo.mySlot {p : UInt32} {q n : Nat} (h : PointsTo p q n) : mySlot p = n := by
  obtain ⟨h1, _, h3⟩ := h
  rw [mySlot_eq, h1]
  omega

/-- The high bits of the pointer are the queue it points to. -/
theorem PointsTo.curQueue {p : UInt32} {q n : Nat} (h : PointsTo p q n) : curQueue p = q := by
  obtain ⟨h1, _, h3⟩ := h
  rw [curQueue_eq, h1]
  omega

/-- A reservation that does not overflow the low 30 bits stays in the buffer. -/
theorem PointsTo.succ {p : UInt32} {q n : Nat} (h : PointsTo p q n) (hn : n + 1 < 2 ^ 30) : PointsTo (p + 1) q (n + 1) := by
  obtain ⟨h1, h2, _⟩ := h
  refine ⟨?_, h2, hn⟩
  rw [UInt32.toNat_add, h1]
  have : (1 : UInt32).toNat = 1 := rfl
  omega

/-- The pointer of a new queue. -/
theorem pointsTo_zero : PointsTo 0 0 0 := ⟨rfl, by decide, by decide⟩

/-- The word `swap_queues` writes selects the buffer the consumer gives up. -/
theorem pointsTo_newpoint {T : Type} {d : DBQueue T} (h : d.consumerQ < 2) : PointsTo d.newpoint d.consumerQ 0 := by
  refine ⟨?_, h, by decide⟩
  have hc : d.consumerQ = 0 ∨ d.consumerQ = 1 := by omega
  rcases hc with hc | hc <;> rw [newpoint, hc] <;> decide

/-- The other queue is one of the two. -/
theorem exchangeQueue_lt (q : Nat) : exchangeQueue q < 2 := by
  unfold exchangeQueue
  split <;> omega

/-- The other queue is not the same. -/
theorem exchangeQueue_ne (q : Nat) : exchangeQueue q ≠ q := by
  unfold exchangeQueue
  split <;> omega

/-- Exchanged twice, the queue is the first one again. -/
theorem exchangeQueue_exchangeQueue {q : Nat} (h : q < 2) : exchangeQueue (exchangeQueue q) = q := by
  unfold exchangeQueue
  split <;> split <;> omega

end DBQueue

/-! ## What the stores change -/

namespace DBQueue

variable {T : Type} (d : DBQueue T)

/-- A slot after one slot was overwritten. -/
theorem setSlot_queues (q i : Nat) (s : Slot T) (q' i' : Nat) :
    (d.setSlot q i s).queues q' i' = if q' = q ∧ i' = i then s else d.queues q' i' := by
  by_cases hq : q' = q
  · subst hq
    by_cases hi : i' = i
    · subst hi; simp [setSlot]
    · simp [setSlot, hi]
  · simp [setSlot, hq]

@[simp] theorem setSlot_pointer (q i : Nat) (s : Slot T) : (d.setSlot q i s).pointer = d.pointer := rfl
@[simp] theorem setSlot_read (q i : Nat) (s : Slot T) : (d.setSlot q i s).read = d.read := rfl
@[simp] theorem setSlot_consumerQ (q i : Nat) (s : Slot T) : (d.setSlot q i s).consumerQ = d.consumerQ := rfl
@[simp] theorem setSlot_fullSlots (q i : Nat) (s : Slot T) : (d.setSlot q i s).fullSlots = d.fullSlots := rfl

/-- `swap_queues` in one step. -/
theorem swapQueues_eq (Qlen : Nat) : d.swapQueues Qlen = { d.clearValid.exchangePointer Qlen with full := false } := rfl

/-- The attempts of the retry loop all see the same valid bit. -/
theorem awaitValid_eq (n : Nat) : d.awaitValid (n + 1) = (d.queues d.consumerQ d.read).valid := by
  induction n with
  | zero => simp [awaitValid]
  | succ n ih =>
    rw [awaitValid, ih]
    split
    · next h => rw [h]
    · rfl

/-- Publishing overwrites the slot with the valid message. -/
theorem publish_eq (q i : Nat) (v : T) : d.publish q i v = d.setSlot q i ⟨true, v⟩ := by
  simp [publish, storePayload, storeValid, setSlot]

end DBQueue

end Blockmon
