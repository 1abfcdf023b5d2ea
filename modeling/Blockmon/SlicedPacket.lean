import Blockmon.Lib.Exn
import Blockmon.NewPacket

/-!
# Packets cut into slices (`NewPacket::SlicedPacket`, `core/SliceAllocator.hpp`)

A slice manager has one array for each type of header, with a slot of `size_of` bytes for each packet. `SlicedPacket` dissects the raw
packet where it is and copies each header to the packet's slot in the array of its type. A pointer to a slot is an offset in its array; a
copy that runs past the end of the array is a fault, one that only leaves the slot is not. The list of the copies made so far is kept with
the state.
-/

namespace Blockmon.Messages

open NewPacket

/-- `size_of`: the size of the structure, or the size the payload has been given. -/
def Header.slotSize (payloadSize : Nat) : Header → Nat
  | .ethernet => 14
  | .ipv4 => 20
  | .tcp => 20
  | .udp => 8
  | .icmp => 8
  | .payload => payloadSize

/-- `slice_manager`, with what is in its arrays. -/
structure SliceManager (payloadSize slots : Nat) where
  array : Header → List UInt8
  length_array : ∀ h, (array h).length = h.slotSize payloadSize * slots

/-- The slice of a packet, and what is left to copy. -/
structure Slots where
  array : Header → List UInt8
  slice : Header → Option Nat
  len : Nat
  copied : List (Header × Nat)

namespace Slots

/-- `memcpy` to the slot of `h`. -/
def put (h : Header) (dst : Nat) (bytes : List UInt8) (t : Slots) : Slots :=
  { t with array := fun h' => if h' = h then Bytes.overwrite (t.array h) dst bytes else t.array h' }

/-- The copy of a header is written down. -/
def log (h : Header) (n : Nat) (t : Slots) : Slots := { t with copied := t.copied ++ [(h, n)] }

/-- The pointer of a header is set to null. -/
def null (h : Header) (t : Slots) : Slots := { t with slice := fun h' => if h' = h then none else t.slice h' }

/-- The rest of the slice that is still free. -/
def cut (len : Nat) (t : Slots) : Slots := { t with len := len }

end Slots

/-- The slots of the slice together with the parser of the packet. -/
structure Slicing extends Slots where
  parser : NewPacket

namespace Slicing

/-- A call that reads the packet and fills the slots. -/
abbrev Slice := EStateM NewPacket.Fault Slicing

/-- The raw packet with its Ethernet header, to be dissected. -/
def rawParser (rawPacket : List UInt8) : NewPacket where
  memory := rawPacket
  slice h := if h = .ethernet then some (some 0) else none
  flowKey := ⟨0, 0, 0, 0, 0⟩

variable {payloadSize slots : Nat}

/-- The slots that `construct` gives to packet number `index`. -/
def construct (manager : SliceManager payloadSize slots) (index : Fin slots) (rawPacket : List UInt8) : Slicing where
  array := manager.array
  slice h := some (h.slotSize payloadSize * index)
  len := min payloadSize rawPacket.length
  copied := []
  parser := rawParser rawPacket

/-- A call of the parser. -/
def parse {α : Type} (call : Dissect α) : Slice α := Exn.onPart (·.parser) (fun s p => { s with parser := p }) call

/-- A change of the slots. -/
def change (f : Slots → Slots) : Slice Unit := modify fun s => { s with toSlots := f s.toSlots }

/-- `memcpy` of `n` bytes of the raw packet to the slot of `h`. -/
def memcpy (h : Header) (src n : Nat) : Slice Unit := do
  change (.log h n)
  let bytes ← parse (load src n)
  let t := (← get).toSlots
  match t.slice h with
  | none => throw .nullPointer
  | some dst => if (t.array h).length < dst + n then throw .outOfBounds else change (.put h dst bytes)

/-- `len && get_header<H>(parser)`. -/
def present (h : Header) : Slice Bool := do
  if (← get).len = 0 then return false
  else return (← parse (find h)).isSome

/-- One header into the slice. What does not fit ends the slice. -/
def copyHeader (h : Header) : Slice Unit := do
  let src ← parse (find h >>= deref)
  let thisLen ← parse (h.sizeOf src)
  let len := (← get).len
  if thisLen ≤ len then
    change (.cut (len - thisLen))
    memcpy h src thisLen
  else change (.cut 0)

/-- A header is copied, or its pointer is null and the code behind `else` runs. -/
def sliceHeader (h : Header) (otherwise : Slice Unit) : Slice Unit := do
  if ← present h then copyHeader h
  else
    change (.null h)
    otherwise

/-- The payload into what is left of the slice. -/
def slicePayload : Slice Unit := do
  if ← present .payload then
    let src ← parse (payload >>= deref)
    memcpy .payload src (← get).len
  else change (.null .payload)

/-- The level-4 headers: TCP, else UDP, else ICMP. -/
def sliceL4 : Slice Unit := sliceHeader .tcp (sliceHeader .udp (sliceHeader .icmp (return ())))

/-- `SlicedPacket`, from the slots on. -/
def slicedPacket : Slice Unit := do
  sliceHeader .ethernet (return ())
  sliceHeader .ipv4 (return ())
  sliceL4
  slicePayload

end Slicing

end Blockmon.Messages
