import Blockmon.Lib.Bytes
import Blockmon.Lib.Exn
import Blockmon.Lib.Lts

/-!
# The message buffer (`core/message/BufferSerializer.hpp`)

A buffer of 64 KiB with four pointers into it. A pointer is an offset from the start of the array; the memory around the array is
there too, so that an access outside of it can be said. `assert` ends the program; the constructor of `std::string` throws when it is
given a negative length. An `int` that is passed as a `size_t` keeps its bits, so a negative length copies almost all of the memory.
The host stores the least significant byte of a number first, and `int` arithmetic wraps.

`log` is a history for the statements: the accesses to the memory of the buffer.
-/

namespace Blockmon

/-- Why a call does not return. -/
inductive Stop where
  | assertion
  | lengthError
deriving DecidableEq

/-- An access to `len` bytes from `addr` on. -/
structure Access where
  write : Bool
  addr : Int
  len : Nat
deriving DecidableEq

/-- The memory with the pointers of the class, and the accesses so far. -/
structure BufferSerializer where
  mem : Int → UInt8
  head : Int
  data : Int
  tail : Int
  bufEnd : Int
  log : List Access

/-- `MESSAGE_MAX_DATA` -/
def MESSAGE_MAX_DATA : Int := 65536

/-- A number as an `int`. -/
def toInt (v : Int) : Int := Bytes.signed (2 ^ 32) v

/-- An `int` as a `size_t`. -/
def toSize (v : Int) : Nat := Bytes.unsigned (2 ^ 64) v

/-- `std::string::max_size()`. -/
def maxSize : Nat := 2 ^ 63 - 1

/-- `htons` -/
def htons (v : Nat) : Nat := Bytes.swap 2 v

/-- `htonl` -/
def htonl (v : Nat) : Nat := Bytes.swap 4 v

/-- `ntohll` of the class exchanges the halves and leaves the bytes of each as they are. -/
def ntohll (v : Nat) : Nat := Bytes.half v

/-- `htonll` -/
def htonll (v : Nat) : Nat := ntohll v

namespace BufferSerializer

/-- An assertion. -/
def check (c : Prop) [Decidable c] : EStateM Stop BufferSerializer Unit := if c then pure () else throw .assertion

/-- A read, which is noted. -/
def load (addr : Int) (n : Nat) : EStateM Stop BufferSerializer (List UInt8) := fun s =>
  .ok (Bytes.read s.mem addr n) { s with log := s.log ++ [⟨false, addr, n⟩] }

/-- `memcpy` of `n` bytes of `src` to `addr`. -/
def store (addr : Int) (n : Nat) (src : Nat → UInt8) : EStateM Stop BufferSerializer Unit :=
  modify fun s => { s with mem := Bytes.write s.mem addr n src, log := s.log ++ [⟨true, addr, n⟩] }

/-- The number in `n` bytes from `addr` on. -/
def loadUnsigned (addr : Int) (n : Nat) : EStateM Stop BufferSerializer Nat := do
  return Bytes.decode (← load addr n)

/-- An unsigned number is written. -/
def storeUnsigned (addr : Int) (n v : Nat) : EStateM Stop BufferSerializer Unit :=
  store addr n (Bytes.source (Bytes.encode n v))

/-- `data += n`. -/
def advanceData (n : Int) : EStateM Stop BufferSerializer Unit := modify fun s => { s with data := s.data + n }

/-- `tail += n`. -/
def advanceTail (n : Int) : EStateM Stop BufferSerializer Unit := modify fun s => { s with tail := s.tail + n }

/-- `reset` -/
def reset : EStateM Stop BufferSerializer Unit :=
  modify fun s => { s with head := 0, data := 0, tail := 0, bufEnd := MESSAGE_MAX_DATA }

/-- `compact` -/
def compact : EStateM Stop BufferSerializer Unit := do
  let s ← get
  let len := toInt (s.tail - s.data)
  let _ ← load s.data (toSize len)
  store s.head (toSize len) fun i => s.mem (s.data + (i : Int))
  modify fun s => { s with data := s.head, tail := s.head + len }

/-- `put` -/
def put (offset : Int) : EStateM Stop BufferSerializer Unit := do
  let s ← get
  check (s.tail + offset ≤ s.bufEnd)
  advanceTail offset

/-- The offset is checked against the distance from `head`. -/
def consume (offset : Int) : EStateM Stop BufferSerializer Unit := do
  let s ← get
  check (s.head + offset ≤ s.tail)
  advanceData offset

/-- The body of `put_int16`, `put_int32` and `put_int64`: `n` bytes, in the order that `hton` gives. -/
def putInt (n : Nat) (hton : Nat → Nat) (val : Int) : EStateM Stop BufferSerializer Unit := do
  let s ← get
  check (s.tail + n ≤ s.bufEnd)
  storeUnsigned s.tail n (hton (Bytes.unsigned (256 ^ n) val))
  advanceTail n

/-- `put_int32` -/
def putInt32 (val : Int) : EStateM Stop BufferSerializer Unit := putInt 4 htonl val

/-- `put_int64` -/
def putInt64 (val : Int) : EStateM Stop BufferSerializer Unit := putInt 8 htonll val

/-- `put_int16` -/
def putInt16 (val : Int) : EStateM Stop BufferSerializer Unit := putInt 2 htons val

/-- `put_raw_data` -/
def putRawData (dataBytes : Nat → UInt8) (dataLen : Int) : EStateM Stop BufferSerializer Unit := do
  let s ← get
  check (s.tail + dataLen ≤ s.bufEnd)
  store s.tail (toSize dataLen) dataBytes
  advanceTail dataLen

/-- `put_data` -/
def putData (dataBytes : Nat → UInt8) (dataLen : Int) : EStateM Stop BufferSerializer Unit := do
  putInt16 dataLen
  putRawData dataBytes dataLen

/-- The body of `consume_int16`, `consume_int32` and `consume_int64`. -/
def consumeInt (n : Nat) (ntoh : Nat → Nat) : EStateM Stop BufferSerializer Int := do
  let s ← get
  check (s.data + n ≤ s.tail)
  advanceData n
  return Bytes.signed (256 ^ n) (ntoh (← loadUnsigned s.data n))

/-- `consume_int32` -/
def consumeInt32 : EStateM Stop BufferSerializer Int := consumeInt 4 htonl

/-- `consume_int64` -/
def consumeInt64 : EStateM Stop BufferSerializer Int := consumeInt 8 ntohll

/-- `consume_int16` -/
def consumeInt16 : EStateM Stop BufferSerializer Int := consumeInt 2 htons

/-- The bytes that are copied. -/
def consumeRawData (dataLen : Int) : EStateM Stop BufferSerializer (List UInt8) := do
  let s ← get
  check (s.data + dataLen ≤ s.tail)
  let bytes ← load s.data (toSize dataLen)
  advanceData dataLen
  return bytes

/-- The length that is returned, and the bytes that are copied. -/
def consumeAllData (maxDataLen : Int) : EStateM Stop BufferSerializer (Int × List UInt8) := do
  let dataRawLen ← consumeInt16
  check (dataRawLen ≤ maxDataLen)
  let bytes ← consumeRawData dataRawLen
  return (dataRawLen, bytes)

/-- `std::string(addr, n)`. -/
def stringAt (addr : Int) (n : Int) : EStateM Stop BufferSerializer (List UInt8) := do
  if maxSize < toSize n then throw .lengthError
  load addr (toSize n)

/-- The length is not checked against what is in the buffer. -/
def consumeAllDataIntoString : EStateM Stop BufferSerializer (List UInt8) := do
  let dataRawLen ← consumeInt16
  let str ← stringAt (← get).data dataRawLen
  advanceData dataRawLen
  return str

/-- The check of `set_int16` and `get_int16`, whose sum may overflow. -/
def checkOffset (offset : Int) : EStateM Stop BufferSerializer Unit := do
  let s ← get
  check (0 ≤ offset ∧ toInt (offset + 2) ≤ toInt (s.tail - s.data))

/-- `set_int16` -/
def setInt16 (val offset : Int) : EStateM Stop BufferSerializer Unit := do
  checkOffset offset
  let s ← get
  storeUnsigned (s.data + offset) 2 (htons (Bytes.unsigned (256 ^ 2) val))

/-- `get_int16` -/
def getInt16 (offset : Int) : EStateM Stop BufferSerializer Int := do
  checkOffset offset
  let s ← get
  return Bytes.signed (256 ^ 2) (htons (← loadUnsigned (s.data + offset) 2))

/-- `len` -/
def len : EStateM Stop BufferSerializer Int := do
  let s ← get
  return toInt (s.tail - s.data)

/-- `data()`. -/
def dataPointer : EStateM Stop BufferSerializer Int := do
  let s ← get
  return s.data

end BufferSerializer

/-! ## Sequences of operations -/

/-- A call of a public function of the class. -/
inductive BufferOp where
  | reset
  | compact
  | put (offset : Int)
  | consume (offset : Int)
  | putInt32 (val : Int)
  | putInt64 (val : Int)
  | putInt16 (val : Int)
  | putRawData (dataBytes : Nat → UInt8) (dataLen : Int)
  | putData (dataBytes : Nat → UInt8) (dataLen : Int)
  | consumeInt32
  | consumeInt64
  | consumeInt16
  | consumeRawData (dataLen : Int)
  | consumeAllData (maxDataLen : Int)
  | consumeAllDataIntoString
  | setInt16 (val offset : Int)
  | getInt16 (offset : Int)
  | len
  | dataPointer

/-- The call of a method, without its value. -/
def BufferOp.exec : BufferOp → EStateM Stop BufferSerializer Unit
  | .reset => BufferSerializer.reset
  | .compact => BufferSerializer.compact
  | .put offset => BufferSerializer.put offset
  | .consume offset => BufferSerializer.consume offset
  | .putInt32 val => BufferSerializer.putInt32 val
  | .putInt64 val => BufferSerializer.putInt64 val
  | .putInt16 val => BufferSerializer.putInt16 val
  | .putRawData dataBytes dataLen => BufferSerializer.putRawData dataBytes dataLen
  | .putData dataBytes dataLen => BufferSerializer.putData dataBytes dataLen
  | .consumeInt32 => do let _ ← BufferSerializer.consumeInt32
  | .consumeInt64 => do let _ ← BufferSerializer.consumeInt64
  | .consumeInt16 => do let _ ← BufferSerializer.consumeInt16
  | .consumeRawData dataLen => do let _ ← BufferSerializer.consumeRawData dataLen
  | .consumeAllData maxDataLen => do let _ ← BufferSerializer.consumeAllData maxDataLen
  | .consumeAllDataIntoString => do let _ ← BufferSerializer.consumeAllDataIntoString
  | .setInt16 val offset => BufferSerializer.setInt16 val offset
  | .getInt16 offset => do let _ ← BufferSerializer.getInt16 offset
  | .len => do let _ ← BufferSerializer.len
  | .dataPointer => do let _ ← BufferSerializer.dataPointer

namespace BufferSerializer

/-- The buffer after an operation whose assertions pass. -/
def step (s : BufferSerializer) (op : BufferOp) : Option BufferSerializer :=
  match op.exec.run s with
  | .ok _ s' => some s'
  | .error .lengthError s' => some s'
  | .error .assertion _ => none

/-- A buffer after `reset`, with any bytes in its memory. -/
def fresh (mem : Int → UInt8) : BufferSerializer :=
  { mem := mem, head := 0, data := 0, tail := 0, bufEnd := MESSAGE_MAX_DATA, log := [] }

end BufferSerializer

end Blockmon
