import Blockmon.Jsmn

/-!
# What the JSON tokenizer reads

A text is read one event after the other: a blank, a word, a string, or a bracket. A `Reader` holds what has been read: the brackets that are
open, with what is complete before each of them, and what is complete behind the last one. A `Forest` is a text whose brackets match; `spans`
are the places of its values.
-/

namespace Blockmon.Jsmn

/-! ## The parts of a text -/

/-- The characters of a primitive. -/
def isPlain (c : UInt8) : Bool := !endsPrimitive c && !(c < 32 || 127 ≤ c)

/-- The first character of a primitive is none that opens something else. -/
structure IsWord (w : List UInt8) : Prop where
  ne_nil : w ≠ []
  plain : ∀ c ∈ w, isPlain c = true
  head : ∀ c ∈ w.head?, c ≠ 0x7B ∧ c ≠ 0x5B ∧ c ≠ quote

/-- What stands between the quotes of a string. -/
inductive IsBody : List UInt8 → Prop where
  | nil : IsBody []
  | plain {c : UInt8} {w : List UInt8} (hquote : c ≠ quote) (hbackslash : c ≠ backslash) (hw : IsBody w) : IsBody (c :: w)
  | escape {e : UInt8} {w : List UInt8} (he : isEscape e = true) (hw : IsBody w) : IsBody (backslash :: e :: w)

/-- A blank character, which the parser passes over. -/
abbrev Blank := { c : UInt8 // Parser.isBlank c = true }

/-- The characters of a primitive. -/
abbrev Word := { w : List UInt8 // IsWord w }

/-- The characters of a string. -/
abbrev Body := { w : List UInt8 // IsBody w }

/-- The kinds of brackets. -/
inductive Kind where
  | object
  | array
deriving DecidableEq

namespace Kind

/-- The type of a token in brackets. -/
def type : Kind → JsmnType
  | object => .object
  | array => .array

/-- The opening bracket. -/
def opening : Kind → UInt8
  | object => 0x7B
  | array => 0x5B

/-- The closing bracket. -/
def closing : Kind → UInt8
  | object => 0x7D
  | array => 0x5D

end Kind

/-- A place of a value that is complete, and the number of values right inside it. -/
structure Span where
  type : JsmnType
  start : Nat
  stop : Nat
  size : Nat

/-- The token of a span. -/
def Span.token (s : Span) : Token := ⟨s.type, s.start, s.stop, s.size⟩

/-! ## Events -/

/-- What a text consists of, from left to right. -/
inductive Event where
  | blank (c : Blank)
  | word (w : Word)
  | str (w : Body)
  | opening (k : Kind)
  | closing (k : Kind)

namespace Event

/-- The characters of an event. -/
def chars : Event → List UInt8
  | blank c => [c.val]
  | word w => w.val
  | str w => quote :: w.val ++ [quote]
  | opening k => [k.opening]
  | closing k => [k.closing]

/-- The tokens that it takes. -/
def tokens : Event → Nat
  | blank _ => 0
  | word _ => 1
  | str _ => 1
  | opening _ => 1
  | closing _ => 0

/-- The event is a primitive. -/
def isWord : Event → Bool
  | word _ => true
  | _ => false

end Event

/-- Nothing that would go on with a primitive. -/
def Apart (t : List UInt8) : Prop := ∀ c ∈ t.head?, endsPrimitive c = true

/-- A bracket that is open, behind what is complete. -/
structure Frame where
  before : List Span
  kind : Kind
  start : Nat
  size : Nat

/-- A reader within its frames. -/
structure Reader where
  frames : List Frame
  last : List Span
  pos : Nat

namespace Reader

/-- A reader at the start. -/
def new : Reader := ⟨[], [], 0⟩

/-- One value more inside the last bracket. -/
def count (n : Nat) : List Frame → List Frame
  | [] => []
  | f :: fs => { f with size := f.size + n } :: fs

/-- A value that is complete. -/
def leaf (r : Reader) (s : Span) (pos : Nat) : Reader := ⟨count 1 r.frames, r.last ++ [s], pos⟩

/-- An opening bracket enters a frame. -/
def enter (r : Reader) (k : Kind) (pos : Nat) : Reader := ⟨⟨r.last, k, r.pos, 0⟩ :: count 1 r.frames, [], pos⟩

/-- The bracket `f` is complete. -/
def leave (r : Reader) (f : Frame) (pos : Nat) : Reader :=
  ⟨r.frames.tail, f.before ++ ⟨f.kind.type, f.start, r.pos + 1, f.size⟩ :: r.last, pos⟩

/-- An event, where it is allowed. -/
def step (r : Reader) : Event → Option Reader
  | .blank _ => some { r with pos := r.pos + 1 }
  | .word w => some (r.leaf ⟨.primitive, r.pos, r.pos + w.val.length, 0⟩ (r.pos + w.val.length))
  | .str w => some (r.leaf ⟨.string, r.pos + 1, r.pos + 1 + w.val.length, 0⟩ (r.pos + 1 + w.val.length + 1))
  | .opening k => some (r.enter k (r.pos + 1))
  | .closing k => r.frames.head?.bind fun f => if f.kind = k then some (r.leave f (r.pos + 1)) else none

/-- The events in their order. -/
def run (r : Reader) : List Event → Option Reader
  | [] => some r
  | e :: es => (r.step e).bind fun r => r.run es

end Reader

/-! ### Its tokens -/

/-- The token of a bracket that is open. -/
def Frame.token (f : Frame) : Token := ⟨f.kind.type, f.start, -1, f.size⟩

/-- Tokens that are not in use. -/
def unused (k : Nat) : List Token := List.replicate k (fillToken .primitive (-1) (-1))

namespace Reader

/-- The tokens of the frames, from the outermost on. -/
def frameTokens : List Frame → List Token
  | [] => []
  | f :: fs => frameTokens fs ++ (f.before.map Span.token ++ [f.token])

/-- The tokens of a reader. -/
def tokens (r : Reader) : List Token := frameTokens r.frames ++ r.last.map Span.token

/-- The index of the last bracket that is open. -/
def super : List Frame → Option Nat
  | [] => none
  | f :: fs => some (frameTokens fs ++ f.before.map Span.token).length

/-- The parent, as the parser has it. -/
def superOf (fs : List Frame) : Int := (super fs).elim (-1) fun i => i

/-- What a parser holds that has `k` tokens left. -/
def parser (r : Reader) (k : Nat) : Parser := ⟨r.pos, r.tokens.length, superOf r.frames, r.tokens ++ unused k⟩

end Reader

/-! ## Forests -/

/-- A text whose brackets match. A primitive ends where its level does, or at a blank. -/
inductive Forest where
  | nil
  | blank (c : Blank) (rest : Forest)
  | lastWord (w : Word)
  | word (w : Word) (c : Blank) (rest : Forest)
  | str (w : Body) (rest : Forest)
  | node (k : Kind) (inner rest : Forest)

namespace Forest

/-- The characters of a forest. -/
def chars : Forest → List UInt8
  | nil => []
  | blank c rest => c.val :: rest.chars
  | lastWord w => w.val
  | word w c rest => w.val ++ c.val :: rest.chars
  | str w rest => quote :: w.val ++ quote :: rest.chars
  | node k inner rest => k.opening :: inner.chars ++ k.closing :: rest.chars

/-- The number of values that are not inside of others. -/
def size : Forest → Nat
  | nil => 0
  | blank _ rest => rest.size
  | lastWord _ => 1
  | word _ _ rest => 1 + rest.size
  | str _ rest => 1 + rest.size
  | node _ _ rest => 1 + rest.size

/-- The places of the values of a forest that starts at `pos`, in the order in which they start. -/
def spans (pos : Nat) : Forest → List Span
  | nil => []
  | blank _ rest => rest.spans (pos + 1)
  | lastWord w => [⟨.primitive, pos, pos + w.val.length, 0⟩]
  | word w _ rest => ⟨.primitive, pos, pos + w.val.length, 0⟩ :: rest.spans (pos + w.val.length + 1)
  | str w rest => ⟨.string, pos + 1, pos + 1 + w.val.length, 0⟩ :: rest.spans (pos + 1 + w.val.length + 1)
  | node k inner rest =>
    ⟨k.type, pos, pos + 1 + inner.chars.length + 1, inner.size⟩
      :: (inner.spans (pos + 1) ++ rest.spans (pos + 1 + inner.chars.length + 1))

end Forest

end Blockmon.Jsmn
