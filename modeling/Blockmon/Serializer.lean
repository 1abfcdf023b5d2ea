import Blockmon.BufferSerializer

/-!
# Messages as bytes (`core/message/Serializer.hpp`, `messages/Tweet.cpp`, `messages/WordRecord.cpp`)

A `Serializer` has one `BufferSerializer` and passes the calls on to it. The first two bytes of a serialized message are kept free for
its length, which `finalize` writes. A `std::string` is a list of bytes; its size is passed as an `int`.
-/

namespace Blockmon

namespace Serializer

/-- `reset`, which leaves room for the length. -/
def reset : EStateM Stop BufferSerializer Unit := do
  BufferSerializer.reset
  BufferSerializer.put 2

/-- `empty` -/
def empty : EStateM Stop BufferSerializer Unit := BufferSerializer.reset

/-- `add_int16` -/
def addInt16 (value : Int) : EStateM Stop BufferSerializer Unit := BufferSerializer.putInt16 value

/-- `consume` -/
def consume (offset : Int) : EStateM Stop BufferSerializer Unit := BufferSerializer.consume offset

/-- `read_int16` -/
def readInt16 : EStateM Stop BufferSerializer Int := BufferSerializer.getInt16 0

/-- `get_int16` -/
def getInt16 : EStateM Stop BufferSerializer Int := BufferSerializer.consumeInt16

/-- `add_int32` -/
def addInt32 (value : Int) : EStateM Stop BufferSerializer Unit := BufferSerializer.putInt32 value

/-- `get_int32` -/
def getInt32 : EStateM Stop BufferSerializer Int := BufferSerializer.consumeInt32

/-- `add_int64` -/
def addInt64 (value : Int) : EStateM Stop BufferSerializer Unit := BufferSerializer.putInt64 value

/-- `get_int64` -/
def getInt64 : EStateM Stop BufferSerializer Int := BufferSerializer.consumeInt64

/-- `add_data` -/
def addData (data : List UInt8) (datalen : Int) : EStateM Stop BufferSerializer Unit :=
  BufferSerializer.putData (Bytes.source data) datalen

/-- `get_data` -/
def getData (dstbufferMaxlen : Int) : EStateM Stop BufferSerializer (Int × List UInt8) :=
  BufferSerializer.consumeAllData dstbufferMaxlen

/-- `get_string` -/
def getString : EStateM Stop BufferSerializer (List UInt8) := BufferSerializer.consumeAllDataIntoString

/-- `get_len` -/
def getLen : EStateM Stop BufferSerializer Int := BufferSerializer.len

/-- The pointer to the message and its length. -/
def finalize : EStateM Stop BufferSerializer (Int × Int) := do
  BufferSerializer.setInt16 (← BufferSerializer.len) 0
  let buf ← BufferSerializer.dataPointer
  return (buf, ← BufferSerializer.len)

/-- `next` -/
def next : EStateM Stop BufferSerializer Unit := BufferSerializer.compact

/-- `add_raw_data` -/
def addRawData (dataBytes : List UInt8) (dataLen : Int) : EStateM Stop BufferSerializer Unit :=
  BufferSerializer.putRawData (Bytes.source dataBytes) dataLen

end Serializer

/-! ## Tweets -/

/-- `Tweet` -/
structure Tweet where
  tweet : List UInt8
deriving DecidableEq

namespace Tweet

/-- `Tweet::serialize` -/
def serialize (t : Tweet) : EStateM Stop BufferSerializer Unit := do
  Serializer.reset
  Serializer.addData t.tweet (toInt t.tweet.length)

/-- `Tweet::build_same` -/
def buildSame : EStateM Stop BufferSerializer Tweet := do
  return ⟨← Serializer.getString⟩

end Tweet

/-! ## Word records -/

/-- `WordRecord` -/
structure WordRecord where
  word : List (List UInt8)
deriving DecidableEq

namespace WordRecord

/-- The loop runs up to the size as an `int`. -/
def serialize (r : WordRecord) : EStateM Stop BufferSerializer Unit := do
  Serializer.reset
  Serializer.addInt32 (toInt r.word.length)
  forM (r.word.take (toInt r.word.length).toNat) fun w => Serializer.addData w (toInt w.length)

/-- The words that the loop adds, for the number of words left. -/
def getWords : Nat → EStateM Stop BufferSerializer (List (List UInt8))
  | 0 => return []
  | n + 1 => do
    let w ← Serializer.getString
    let ws ← getWords n
    return w :: ws

/-- `WordRecord::build_same` -/
def buildSame : EStateM Stop BufferSerializer WordRecord := do
  if (← Serializer.getLen) ≠ 0 then
    let wordNumber ← Serializer.getInt32
    return ⟨← getWords wordNumber.toNat⟩
  else return ⟨[]⟩

end WordRecord

end Blockmon
