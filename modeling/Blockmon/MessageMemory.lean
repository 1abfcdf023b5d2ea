import Blockmon.Lib.Arena

/-!
# Memory for messages (`core/message/MemoryBatch.hpp`, `core/SliceAllocator.hpp`)

A source does not allocate its packets one by one. `MemoryBatch` is a buffer in which messages are built one behind the other;
`slice_manager` is a tuple of arrays of which a slice takes one slot of each. In both, the pointer to a message owns the whole memory it
lies in (the aliasing constructor of `shared_ptr`), the source keeps a pointer of its own to the memory that it is filling, and lets it go
when that is full. The heap of buffers and managers is `Owned`, and the source and the messages in flight are a `Pool`.

What `new char[]` finds in memory is a parameter. Building a message at a null pointer or outside of its buffer is a call that is not
possible.
-/

namespace Blockmon

open Arenas

/-! ## Batches -/

/-- `MemoryBatch`; the sizes are `size_t`. -/
structure MemoryBatch where
  buff : Nat → UInt8
  size : Nat
  curr : Nat

/-- The part of a buffer that a message was given. -/
structure MsgPlace where
  addr : Nat
  len : Nat
deriving DecidableEq

/-- A message as its constructor builds it: the object, `additional` bytes behind it, and the payload that is copied there. -/
structure InPlaceMsg where
  object : List UInt8
  payload : List UInt8
  additional : Nat
  payload_le : payload.length ≤ additional

/-- `sizeof(T) + additional_space`. -/
def InPlaceMsg.size (msg : InPlaceMsg) : Nat := (msg.object.length + msg.additional) % 2 ^ 64

namespace MemoryBatch

/-- The constructor: nothing of the buffer is used. -/
def new (junk : Nat → UInt8) (size : Nat) : MemoryBatch := { buff := junk, size := size, curr := 0 }

/-- `reserve`: the address of the next bytes of the buffer, or a null pointer. -/
def reserve (b : MemoryBatch) (size : Nat) : Option Nat × MemoryBatch :=
  let curr := b.curr
  if (curr + size) % 2 ^ 64 > b.size then (none, b) else (some curr, { b with curr := (curr + size) % 2 ^ 64 })

/-- The constructor at address `mbuf` writes the object and the payload. -/
def construct (b : MemoryBatch) (mbuf : Nat) (msg : InPlaceMsg) : Option MemoryBatch :=
  let bytes := msg.object ++ msg.payload
  if mbuf + bytes.length ≤ b.size then
    some { b with buff := fun i => if mbuf ≤ i then bytes.getD (i - mbuf) (b.buff i) else b.buff i }
  else none

/-- A message writes a byte of its own, as when a packet remembers what it parsed. -/
def write (b : MemoryBatch) (p : MsgPlace) (u : Nat × UInt8) : MemoryBatch :=
  if u.1 < p.len then { b with buff := Function.update b.buff (p.addr + u.1) u.2 } else b

/-- The bytes of a message. -/
def read (b : MemoryBatch) (p : MsgPlace) : List UInt8 := (List.range p.len).map fun i => b.buff (p.addr + i)

/-- The buffer that a source starts with. -/
def initialSize : Nat := 4096 * 4

/-- The buffers that it takes afterwards. -/
def batchSize : Nat := 4096 * 256

/-- A source and the messages in flight. -/
abbrev Source := Pool MemoryBatch MsgPlace

/-- The message is built at `mbuf`, in the buffer `mem_block`, and a pointer to it is returned. -/
def buildMsg (s : Source) (memBlock : Nat) (b : MemoryBatch) (mbuf : Nat) (msg : InPlaceMsg) : Option Source :=
  (b.construct mbuf msg).bind fun b' =>
    ((s.heap.set memBlock b').copy memBlock).map fun H =>
      { heap := H, current := some memBlock, ptrs := s.ptrs ++ [(memBlock, { addr := mbuf, len := msg.size })] }

/-- `alloc_msg_from_buffer`; `junk n` is what the `n`-th buffer holds at first. -/
def allocMsgFromBuffer (junk : Nat → Nat → UInt8) (s : Source) (msg : InPlaceMsg) : Option Source :=
  s.current.bind fun memBlock => (s.heap.object memBlock).bind fun b =>
    let r := b.reserve msg.size
    r.1.elim
      ((s.heap.reset memBlock).bind fun H =>
        let fresh := new (junk H.next) batchSize
        let made := H.make fresh
        let r := fresh.reserve msg.size
        -- a message that does not fit in a buffer of its own is built at the null pointer
        r.1.bind fun mbuf => buildMsg { s with heap := made.2 } made.1 r.2 mbuf msg)
      (fun mbuf => buildMsg s memBlock r.2 mbuf msg)

/-- A source at its start. -/
def start (junk : Nat → Nat → UInt8) : Source := Arena.start (new (junk 0) initialSize)

/-- The calls: a message allocated, a pointer copied or dropped, a message that writes to itself, and the end of the source. -/
def step (junk : Nat → Nat → UInt8) : Source → Act InPlaceMsg (Nat × UInt8) → Option Source :=
  Pool.step (allocMsgFromBuffer junk) write

end MemoryBatch

/-! ## Slices -/

/-- The types of a slice: how the first one is built from the arguments and the others by default, or nothing for a type whose
constructor is trivial and leaves the memory as it is; and which of them have a destructor. -/
structure SliceTypes (n : Nat) (Args β : Type) where
  first : Option (Args → β)
  rest : Fin n → Option β
  destructs : Fin (n + 1) → Bool

/-- What the constructor of type `j` leaves in a slot, if it leaves something. -/
def SliceTypes.built {n : Nat} {Args β : Type} (t : SliceTypes n Args β) (args : Args) (j : Fin (n + 1)) : Option β :=
  Fin.cases (t.first.map fun f => f args) t.rest j

/-- `slice_manager`: the number of slots that were given away, and an array for each type. -/
structure SliceManager (n : Nat) (β : Type) where
  index : Nat
  slice : Fin (n + 1) → Nat → β

/-- A new message: the arguments of `new_slice`, and what its maker writes to the slice before the pointer is bound. -/
structure SliceMsg (n : Nat) (Args β : Type) where
  args : Args
  filled : Fin (n + 1) → Option β

namespace SliceManager

variable {n : Nat} {Args β : Type} (t : SliceTypes n Args β)

/-- `NSlots` of `slice_allocator`. -/
def nSlots : Nat := 4096 * 32

/-- The constructor: the first slice is the current one. -/
def new (junk : Fin (n + 1) → Nat → β) : SliceManager n β := { index := 0, slice := junk }

/-- Something is written to slot `i`, where there is something to write. -/
def put (m : SliceManager n β) (i : Nat) (v : Fin (n + 1) → Option β) : SliceManager n β :=
  { m with slice := fun j => Function.update (m.slice j) i ((v j).getD (m.slice j i)) }

/-- `slice_manager::alloc`: the next slot, with its objects built; an exception when there is none. -/
def alloc (m : SliceManager n β) (args : Args) : Option (Nat × SliceManager n β) :=
  if m.index = nSlots then none else some (m.index, { m.put m.index (t.built args) with index := m.index + 1 })

/-- `~slice_manager`: the destructor calls, the last type first. -/
def destroy (m : SliceManager n β) : List (Fin (n + 1) × Nat) :=
  (List.finRange (n + 1)).reverse.flatMap fun j => if t.destructs j then (List.range m.index).map fun i => (j, i) else []

/-- The objects of a slice. -/
def read (m : SliceManager n β) (i : Nat) (j : Fin (n + 1)) : β := m.slice j i

/-- An object of a slice changes. -/
def write (m : SliceManager n β) (i : Nat) (u : Fin (n + 1) × β) : SliceManager n β :=
  { m with slice := Function.update m.slice u.1 (Function.update (m.slice u.1) i u.2) }

/-- A source that holds a `slice_allocator`, and its messages. -/
abbrev Source (n : Nat) (β : Type) := Pool (SliceManager n β) Nat

variable (junk : Nat → Fin (n + 1) → Nat → β)

/-- `slice_allocator::new_slice`: the slot, in the manager that is then the current one. -/
def newSlice (s : Source n β) (args : Args) : Option (Nat × Source n β) :=
  s.current.bind fun manager => (s.heap.object manager).bind fun m =>
    if m.index = nSlots then
      let made := s.heap.make (new (junk s.heap.next))
      (made.2.reset manager).bind fun H => (alloc t (new (junk s.heap.next)) args).map fun r =>
        (r.1, { s with heap := H.set made.1 r.2, current := some made.1 })
    else (alloc t m args).map fun r => (r.1, { s with heap := s.heap.set manager r.2 })

/-- `slice_allocator::bind_shared`: a pointer to the slot, which owns the current manager. -/
def bindShared (s : Source n β) (i : Nat) : Option (Source n β) :=
  s.current.bind fun manager => (s.heap.copy manager).map fun H => { s with heap := H, ptrs := s.ptrs ++ [(manager, i)] }

/-- What `NewPacket::SimplePacket` does with the allocator: take a slice, write to its objects, and bind it. The copies of
`NewPacket::SlicedPacket` can leave their slot; they are in `Messages.Slicing`. -/
def newMsg (s : Source n β) (msg : SliceMsg n Args β) : Option (Source n β) :=
  (newSlice t junk s msg.args).bind fun r =>
    r.2.current.bind fun manager => (r.2.heap.object manager).bind fun m =>
      bindShared { r.2 with heap := r.2.heap.set manager (m.put r.1 msg.filled) } r.1

/-- A source at its start. -/
def start : Source n β := Arena.start (new (junk 0))

/-- The calls: a message allocated, a pointer copied or dropped, an object of a message that changes, and the end of the source. -/
def step : Source n β → Act (SliceMsg n Args β) (Fin (n + 1) × β) → Option (Source n β) :=
  Pool.step (newMsg t junk) write

/-- The destructor calls so far: of the manager, the type and the slot. -/
def destroyed (s : Source n β) : List (Nat × Fin (n + 1) × Nat) :=
  s.heap.freed.flatMap fun im => (im.2.destroy t).map fun ji => (im.1, ji)

end SliceManager

end Blockmon
