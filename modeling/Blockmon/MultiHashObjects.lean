import Blockmon.MultiHash

/-!
# Objects of the class, and their copies (`lib/hash/khash.hpp`, `lib/hash/khash.cpp`)

What `new` leaves in an array is a parameter of the members that make one, and so is what lies in the place of a member that nothing has set.
A program makes objects and calls their members; an object that is not there is not called.
-/

namespace Blockmon.MultiHash

/-- `memcpy` between arrays of which each element has `size` bytes; the number of bytes is a multiple of that. -/
def memcpy {α : Type} {n m : Nat} (size : Nat) (dest : Vector α n) (src : Vector α m) (bytes : Nat) : Except Fault (Vector α n) :=
  if bytes ≤ size * n ∧ bytes ≤ size * m then
    .ok (Vector.ofFn fun i => if h : i.val < m ∧ size * i < bytes then src.get ⟨i.val, h.1⟩ else dest.get i)
  else .error .outOfBounds

/-- What a new array holds, and what lies where a new object has its `hashtodo`. -/
structure Memory where
  res : Nat → UInt32
  msgdig : Nat → UInt8
  hashtodo : UInt32

section Members

variable (memory : Memory)

/-- `KHASH::KHASH(const KHASH&)`. It initialises `hashtodo` with itself. -/
def khashCopy (copy : KHASH) : Except Fault KHASH := do
  let hashtodo := memory.hashtodo
  let newRes : Vector UInt32 copy.nhash.toNat := Vector.ofFn fun i => memory.res i
  let newMsgdig : Vector UInt8 (hashtodo * copy.hashdiglen + 4).toNat := Vector.ofFn fun i => memory.msgdig i
  let res ← memcpy 4 newRes copy.res (copy.nhash <<< 3).toNat
  let msgdig ← memcpy 1 newMsgdig copy.msgdig (hashtodo * copy.hashdiglen + 4).toNat
  .ok {
    hash := copy.hash
    hashdiglen := copy.hashdiglen
    nhash := copy.nhash
    shash := copy.shash
    norep := copy.norep
    hashtodo := hashtodo
    res := res
    msgdig := msgdig
    shash_pos := copy.shash_pos
    shash_le := copy.shash_le }

/-- `operator =`. The object's own arrays are deleted first: if `copy` is the same object, its arrays are the new ones. -/
def operatorAssign (same : Bool) (copy : KHASH) : Except Fault KHASH := do
  let newRes : Vector UInt32 copy.nhash.toNat := Vector.ofFn fun i => memory.res i
  let newMsgdig : Vector UInt8 (copy.hashtodo * copy.hashdiglen + 4).toNat := Vector.ofFn fun i => memory.msgdig i
  let res ← memcpy 4 newRes (if same then newRes else copy.res) (copy.nhash <<< 3).toNat
  let msgdig ← memcpy 1 newMsgdig (if same then newMsgdig else copy.msgdig) (copy.hashtodo * copy.hashdiglen + 4).toNat
  .ok { copy with res := res, msgdig := msgdig }

/-- `inc_nhash`: the results are a new array, the rest stays. -/
def incNhash (h : KHASH) : KHASH := { h with nhash := h.nhash + 1, res := Vector.ofFn fun i => memory.res i }

/-- `dec_nhash`: the digest buffer is a new array too. -/
def decNhash (h : KHASH) : KHASH :=
  let nhash := h.nhash - 1
  let bitneeded := (h.shash * nhash) <<< 3
  { h with
    nhash := nhash
    hashtodo := hashesToDoFor h.hashdiglen bitneeded
    res := Vector.ofFn fun i => memory.res i
    msgdig := Vector.replicate _ 0 }

end Members

/-! ## A program -/

/-- The calls on the objects of a program. -/
inductive Call where
  | construct (memory : Memory) (hash : HASH) (nhash shash : UInt32) (norep : Bool)
  | copyConstruct (memory : Memory) (i : Nat)
  | assign (memory : Memory) (i j : Nat)
  | incNhash (memory : Memory) (i : Nat)
  | decNhash (memory : Memory) (i : Nat)
  | compute (i : Nat) (key : List UInt8)

section Calls

variable (objects : List KHASH)

/-- A new object. -/
def newObject (made : Except Fault KHASH) : Except Fault (List KHASH) := do
  let h ← made
  .ok (objects ++ [h])

/-- A member that changes the `i`-th object. -/
def onObject (i : Nat) (f : KHASH → Except Fault KHASH) : Except Fault (List KHASH) :=
  match objects[i]? with
  | none => .ok objects
  | some h => do
    let h' ← f h
    .ok (objects.set i h')

/-- One call: an object that is not there is left alone. -/
def call : Call → Except Fault (List KHASH)
  | .construct memory hash nhash shash norep => newObject objects (khash memory.res hash nhash shash norep)
  | .copyConstruct memory i =>
    match objects[i]? with
    | none => .ok objects
    | some copy => newObject objects (khashCopy memory copy)
  | .assign memory i j =>
    match objects[j]? with
    | none => .ok objects
    | some copy => onObject objects i fun _ => operatorAssign memory (i == j) copy
  | .incNhash memory i => onObject objects i fun h => .ok (incNhash memory h)
  | .decNhash memory i => onObject objects i fun h => .ok (decNhash memory h)
  | .compute i key => onObject objects i fun h => h.compute key

end Calls

end Blockmon.MultiHash
