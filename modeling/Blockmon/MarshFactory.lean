import Blockmon.Lib.Bytes
import Blockmon.Lib.OrdMap

/-!
# Marshalling (`core/MarshFactory.hpp`)

A buffer is a byte string; a buffer that is written is handed on with its new contents. A read outside of a buffer is a fault of the model, and so
is a sum that an `int` does not hold. A marshalling module is a subclass of `BaseMarshall`, for messages of a type `M`.
-/

namespace Blockmon.Marsh

/-- How a call ends that gives no message: a throw, a read behind the buffer, or a length that wraps. -/
inductive Stop where
  | runtimeError (what : String)
  | outOfBounds
  | overflow

/-- What a module does with a buffer: the length that it returns with the new contents of the buffer, and the message that it reads. -/
structure BaseMarshall (M : Type) where
  marshall : M → List UInt8 → Except String (Int × List UInt8)
  unmarshall : List UInt8 → Except String M
  length_marshall : ∀ m body r, marshall m body = .ok r → r.2.length = body.length

/-- The modules by their code. -/
structure MarshallFactory (M : Type) where
  map : OrdMap Int (BaseMarshall M)

/-- `HEAD_SIZE` -/
def HEAD_SIZE : Nat := 8

/-- An `unsigned int` as an `int`. -/
def toInt (v : UInt32) : Int := Bytes.signed (2 ^ 32) v.toNat

/-- `htonl` on a little-endian machine. -/
def htonl (v : UInt32) : UInt32 := UInt32.ofNat (Bytes.swap 4 v.toNat)

/-- `ntohl` -/
def ntohl (v : UInt32) : UInt32 := htonl v

/-- The four bytes from `off` on, as a word of the host. -/
def load (inb : List UInt8) (off : Nat) : UInt32 := UInt32.ofNat (Bytes.decode ((inb.drop off).take 4))

/-- A 32-bit word written into the buffer. -/
def store (inb : List UInt8) (off : Nat) (v : UInt32) : List UInt8 := Bytes.overwrite inb off (Bytes.encode 4 v.toNat)

/-- What an exception of a module is for the caller. -/
def ofModule {α : Type} : Except String α → Except Stop α
  | .ok a => .ok a
  | .error what => .error (.runtimeError what)

namespace MarshallFactory

variable {M : Type}

/-- `int newlen=inb.len()-HEAD_SIZE` -/
def newlen (inb : List UInt8) : Int := Bytes.signed (2 ^ 32) (inb.length - HEAD_SIZE)

/-- What `marshall` returns, and the buffer afterwards. `type` is the method of the message. -/
def marshall (f : MarshallFactory M) (type : M → UInt32) (inm : M) (inb : List UInt8) : Except Stop (Int × List UInt8) :=
  let room := newlen inb
  if room ≤ 0 then .error (.runtimeError "marshalling:: provided buffer is too small")
  else
    match f.map.find? (toInt (type inm)) with
    | none => .error (.runtimeError "marshalling:: message type not supported")
    | some module => do
      let inb := store inb 0 (htonl (type inm))
      let (mLen, body) ← ofModule (module.marshall inm ((inb.drop HEAD_SIZE).take room.toNat))
      let inb := Bytes.overwrite inb HEAD_SIZE body
      let inb := store inb 4 (htonl (UInt32.ofNat (Bytes.unsigned (2 ^ 32) mLen)))
      if mLen + HEAD_SIZE < 2 ^ 31 then .ok (mLen + HEAD_SIZE, inb) else .error .overflow

/-- The module that `unmarshall` calls, and the position and the length of the bytes that it passes. -/
def unmarshallRange (f : MarshallFactory M) (inb : List UInt8) : Except Stop (BaseMarshall M × Nat × Nat) :=
  if inb.length < HEAD_SIZE then .error .outOfBounds
  else
    let type := toInt (ntohl (load inb 0))
    let len := ntohl (load inb 4)
    match f.map.find? type with
    | none => .error (.runtimeError "marshalling:: message type not supported")
    | some module => .ok (module, HEAD_SIZE, len.toNat)

/-- `unmarshall` -/
def unmarshall (f : MarshallFactory M) (inb : List UInt8) : Except Stop M := do
  let (module, pos, len) ← f.unmarshallRange inb
  if pos + len ≤ inb.length then ofModule (module.unmarshall ((inb.drop pos).take len)) else .error .outOfBounds

/-- `f_register`: a code that is known keeps its module. -/
def fRegister (f : MarshallFactory M) (msgCode : Int) (inb : BaseMarshall M) : MarshallFactory M :=
  { f with map := f.map.insert msgCode inb }

end MarshallFactory

end Blockmon.Marsh
