import Blockmon.Lib.Exn
import Mathlib.Data.List.Basic

/-!
# The tag registry (`core/message/TagRegistry.hpp`, `core/Assert.hpp`)

The registry gives each tag a part of the tag buffers of its messages. Ids are byte strings; `none` stands for `TAG_INVALID`, which is no
index of a vector. What the compiler knows of a type of tags is in `TagTypes`. The lock is left out: calls come one after the other.
-/

namespace Blockmon.Tags

/-- What the compiler makes of the types: their hash codes and sizes, and the layout of `tag_object<Tag>`, in which the flag is in front. -/
structure TagTypes (τ : Type) where
  hashCode : τ → UInt64
  sizeofTag : τ → UInt64
  valueOffset : τ → UInt64
  sizeofObject : τ → UInt64
  sizeofTag_pos : ∀ t, 0 < (sizeofTag t).toNat
  valueOffset_pos : ∀ t, 0 < (valueOffset t).toNat
  value_le : ∀ t, (valueOffset t).toNat + (sizeofTag t).toNat ≤ (sizeofObject t).toNat

/-- The exceptions of the registry and the failure of `blockmon_assert` -/
inductive TagError where
  | runtimeError (what : String)
  | assertion (reason : String)
deriving DecidableEq

/-- `tag_metadata`: size, place in the buffer, code of the type and name. -/
structure TagMetadata where
  size : UInt64
  offset : UInt64
  hashCode : UInt64
  tagId : List UInt8
deriving DecidableEq

/-- The registry of one carrier: the next free place and the metadata in the order of their handles. -/
structure TagRegistry where
  nextOffset : UInt64
  tagInfo : List TagMetadata
deriving DecidableEq

/-- A call that can throw and changes the registry. -/
abbrev Registering := EStateM TagError TagRegistry

/-- What `c_str` shows of a string. -/
def cStr (s : List UInt8) : List UInt8 := s.takeWhile (· ≠ 0)

namespace TagRegistry

/-- A registry before the first tag. -/
def empty : TagRegistry := { nextOffset := 0, tagInfo := [] }

/-- `find_tag_`, the first entry of the name. -/
def findTag (ref : TagRegistry) (id : List UInt8) : Option Nat := ref.tagInfo.findIdx? fun m => m.tagId = id

/-- `get_handle_by_name` -/
def getHandleByName (ref : TagRegistry) (tagId : List UInt8) : Except TagError Nat :=
  match ref.findTag (cStr tagId) with
  | some h => .ok h
  | none => .error (.runtimeError "TagRegistery::find_tag: No tags registered for this name")

/-- `get_info`: size, offset and code of the type. -/
def getInfo (ref : TagRegistry) (h : Nat) : Except TagError (UInt64 × UInt64 × UInt64) :=
  match ref.tagInfo[h]? with
  | some m => .ok (m.size, m.offset, m.hashCode)
  | none => .error (.runtimeError "TagRegistry::get_info: bad tag handler")

/-- `buffer_size` -/
def bufferSize (ref : TagRegistry) : UInt64 := ref.nextOffset

section Register

variable {τ : Type} (types : TagTypes τ) (t : τ)

/-- The alignment of the next object. -/
def aligned (ref : TagRegistry) : UInt64 :=
  let rem := ref.nextOffset % types.sizeofObject t
  if rem ≠ 0 then ref.nextOffset + (types.sizeofObject t - rem) else ref.nextOffset

/-- What `register_tag` does under the lock. -/
def add (ref : TagRegistry) (tagId : List UInt8) : TagRegistry where
  nextOffset := ref.aligned types t + types.sizeofObject t
  tagInfo := ref.tagInfo ++ [{
    size := types.sizeofTag t
    offset := ref.aligned types t
    hashCode := types.hashCode t
    tagId := tagId }]

/-- `register_tag` on a name that is known: the same type gives the old handle, another one throws. -/
def knownTag (h : Nat) : Registering Nat := do
  let ref ← get
  if some (types.hashCode t) ≠ (ref.tagInfo[h]?).map TagMetadata.hashCode then
    throw (.runtimeError "TagRegistry::register_tag: trying to register the same tag with different types")
  else pure h

/-- `register_tag` on a new name: the handle is the next index. -/
def newTag (tagId : List UInt8) : Registering Nat := do
  let ref ← get
  set (ref.add types t tagId)
  pure ref.tagInfo.length

/-- `register_tag` -/
def registerTag (tagId : List UInt8) : Registering Nat := do
  let ref ← get
  match ref.findTag (cStr tagId) with
  | some h => knownTag types t h
  | none => newTag types t tagId

end Register

end TagRegistry

/-! ## Access to the tags -/

/-- The values of `BLOCKMON_ASSERT`: 0 (also if it is not defined), 1 and 2. -/
inductive AssertLevel where
  | off
  | abort
  | throw
deriving DecidableEq

/-- `blockmon_assert` of an expression in parentheses. -/
def blockmonAssert (level : AssertLevel) (expr : Bool) (reason : String) : Except TagError Unit :=
  match level with
  | .off => .ok ()
  | .abort => if expr then .ok () else .error (.assertion reason)
  | .throw => if !expr then .error (.runtimeError reason) else .ok ()

/-- `blockmon_assert(hash_code == hash_code_<Tag>(), reason)`, which has no parentheses: the third expansion negates the left side. -/
def blockmonAssertHash (level : AssertLevel) (hashCode hashCodeTag : UInt64) (reason : String) : Except TagError Unit :=
  match level with
  | .off => .ok ()
  | .abort => if hashCode = hashCodeTag then .ok () else .error (.assertion reason)
  | .throw => if (if hashCode = 0 then 1 else 0) = hashCodeTag then .error (.runtimeError reason) else .ok ()

/-- A tag buffer: its length, and the flag of the object at an offset. -/
structure TagBuffer where
  len : UInt64
  flag : Nat → Bool

/-- The object of the tag buffer that a call works on. -/
structure Extent where
  offset : Nat
  length : Nat
deriving DecidableEq

section Access

variable {τ : Type} (level : AssertLevel) (types : TagTypes τ) (ref : TagRegistry) (buf : TagBuffer) (h : Nat)

/-- A new object is valid if its constructor has arguments. -/
def emplaceTag (t : τ) (args : Nat) : Except TagError (Extent × TagBuffer) := do
  let (size, offset, hashCode) ← ref.getInfo h
  blockmonAssert level (offset + size ≤ buf.len) "emplace_tag: buffer overflow"
  blockmonAssertHash level hashCode (types.hashCode t) "emplace_tag: Tag type mismatch"
  .ok ({ offset := offset.toNat, length := (types.sizeofObject t).toNat },
    { buf with flag := fun off => if off = offset.toNat then args ≠ 0 else buf.flag off })

/-- `none` is the null pointer. -/
def getTag (t : τ) : Except TagError (Extent × Option Nat) := do
  let (size, offset, hashCode) ← ref.getInfo h
  blockmonAssert level (offset + size ≤ buf.len) "get_tag: buffer overflow"
  blockmonAssertHash level hashCode (types.hashCode t) "get_tag: Tag type mismatch"
  .ok ({ offset := offset.toNat, length := (types.sizeofObject t).toNat },
    if buf.flag offset.toNat then some (offset.toNat + (types.valueOffset t).toNat) else none)

/-- `sizeof` of the base class of a tag: its flag. -/
def sizeofTagBase : Nat := 1

/-- The test of a tag: the assertion, then the flag at the start of the slot. -/
def isAvailableTag : Except TagError (Extent × Bool) := do
  let (size, offset, _) ← ref.getInfo h
  blockmonAssert level (offset + size ≤ buf.len) "is_valid_tag: buffer overflow"
  .ok ({ offset := offset.toNat, length := sizeofTagBase }, buf.flag offset.toNat)

end Access

end Blockmon.Tags
