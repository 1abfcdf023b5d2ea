import Mathlib.Algebra.Order.Ring.Int
import Mathlib.Data.List.Basic
import Mathlib.Data.UInt

/-!
# The JSON tokenizer (`lib/jsmn/jsmn.cpp`)

The tokenizer writes the places of the values of a text into an array of its caller. It is compiled without `JSMN_STRICT`, so a primitive is
any run of characters. An access outside of the text, the zero behind it included, or outside of the array gives `none`, as does a loop that
goes on for more passes than the text has characters.
-/

namespace Blockmon.Jsmn

/-- `jsmntype_t` -/
inductive JsmnType where
  | primitive
  | object
  | array
  | string
deriving DecidableEq, Repr

/-- `jsmnerr_t` -/
inductive JsmnErr where
  | nomem
  | inval
  | part
  | success
deriving DecidableEq, Repr

/-- `jsmntok_t` -/
structure Token where
  type : JsmnType
  start : Int
  stop : Int
  size : Nat
deriving DecidableEq, Repr

/-- `jsmn_parser`, with the array of tokens of the call. -/
structure Parser where
  pos : Nat
  toknext : Nat
  toksuper : Int
  tokens : List Token
deriving DecidableEq, Repr

/-- A string of C without its zero. -/
structure CString where
  chars : List UInt8
  ne_zero : ∀ c ∈ chars, c ≠ 0

/-- A string whose positions are numbers of an `int`. -/
abbrev Text := { js : CString // js.chars.length < 2 ^ 31 }

/-- An array whose tokens are counted with an `int`. -/
abbrev TokenArray := { tokens : List Token // tokens.length < 2 ^ 31 }

/-- What an array has behind the tokens that the parser has allocated. -/
abbrev Parser.Room (parser : Parser) := { room : List Token // parser.toknext + room.length < 2 ^ 31 }

/-- `js[i]` -/
def CString.at? (js : CString) (i : Nat) : Option UInt8 := (js.chars ++ [0])[i]?

/-- A loop over the text has at most this many passes. -/
def CString.passes (js : CString) : Nat := js.chars.length + 1

/-! ## Tokens -/

/-- `jsmn_fill_token` -/
def fillToken (type : JsmnType) (start stop : Int) : Token := ⟨type, start, stop, 0⟩

/-- A token that is neither opened nor closed. -/
def Token.isUnused (token : Token) : Bool := token.start = -1 ∧ token.stop = -1

/-- A token that is opened and not yet closed. -/
def Token.isOpen (token : Token) : Bool := token.start ≠ -1 ∧ token.stop = -1

namespace Parser

/-- `jsmn_alloc_token`: the index of the token. -/
def allocToken (parser : Parser) : Option (Nat × Parser) :=
  ((List.range' parser.toknext (parser.tokens.length - parser.toknext)).find? fun i => parser.tokens[i]?.any Token.isUnused).map fun i =>
    (i, { parser with toknext := i + 1 })

/-- `tokens[i]` -/
def token? (parser : Parser) (i : Int) : Option Token := if i < 0 then none else parser.tokens[i.toNat]?

/-- `if (parser->toksuper != -1) tokens[parser->toksuper].size++` -/
def countInSuper (parser : Parser) : Option Parser :=
  if parser.toksuper = -1 then some parser
  else (parser.token? parser.toksuper).map fun token =>
    { parser with tokens := parser.tokens.set parser.toksuper.toNat { token with size := token.size + 1 } }

/-- The loops over the tokens before `n` that look for the last one that is open. -/
def lastOpen (tokens : List Token) : Nat → Option (Option Nat)
  | 0 => some none
  | n + 1 => tokens[n]?.bind fun token => if token.isOpen then some (some n) else lastOpen tokens n

end Parser

/-! ## `jsmn_parse_primitive` and `jsmn_parse_string` -/

/-- `'\t'`, `'\r'`, `'\n'`, `' '`, `':'`, `','`, `']'` and `'}'` -/
def endsPrimitive (c : UInt8) : Bool := [0x09, 0x0D, 0x0A, 0x20, 0x3A, 0x2C, 0x5D, 0x7D].contains c

/-- `'\"'` -/
def quote : UInt8 := 0x22

/-- `'\\'` -/
def backslash : UInt8 := 0x5C

/-- `'\"'`, `'/'`, `'\\'`, `'b'`, `'f'`, `'r'`, `'n'`, `'t'` and `'u'` -/
def isEscape (c : UInt8) : Bool := [quote, 0x2F, backslash, 0x62, 0x66, 0x72, 0x6E, 0x74, 0x75].contains c

/-- The loop over a primitive: where it ends, if all its characters are valid. -/
def scanPrimitive (js : CString) : Nat → Nat → Option (Option Nat)
  | 0, _ => none
  | n + 1, pos => (js.at? pos).bind fun c =>
    if c = 0 then some (some pos)
    else if endsPrimitive c then some (some pos)
    else if c < 32 ∨ 127 ≤ c then some none
    else scanPrimitive js n (pos + 1)

/-- The loop over a string: success with the place of its closing quote, or the error. -/
def scanString (js : CString) : Nat → Nat → Option (JsmnErr × Nat)
  | 0, _ => none
  | n + 1, pos => (js.at? pos).bind fun c =>
    if c = 0 then some (.part, pos)
    else if c = quote then some (.success, pos)
    else if c = backslash then
      (js.at? (pos + 1)).bind fun e => if isEscape e then scanString js n (pos + 2) else some (.inval, pos)
    else scanString js n (pos + 1)

namespace Parser

/-- A token for the characters from `start` up to `stop`, after which the parser is at `pos`. -/
def takeToken (parser : Parser) (type : JsmnType) (start stop pos : Nat) : JsmnErr × Parser :=
  parser.allocToken.elim (.nomem, parser) fun a =>
    (.success, { a.2 with tokens := a.2.tokens.set a.1 (fillToken type start stop), pos := pos })

/-- `jsmn_parse_primitive`. Its caller goes on behind `pos`, so it ends one before the character it stopped at. -/
def parsePrimitive (js : CString) (parser : Parser) : Option (JsmnErr × Parser) :=
  (scanPrimitive js js.passes parser.pos).map fun found =>
    found.elim (.inval, parser) fun stop => parser.takeToken .primitive parser.pos stop (stop - 1)

/-- `jsmn_parse_string`. An error takes the parser back to the opening quote. -/
def parseString (js : CString) (parser : Parser) : Option (JsmnErr × Parser) :=
  (scanString js js.passes (parser.pos + 1)).map fun r =>
    if r.1 = .success then parser.takeToken .string (parser.pos + 1) r.2 r.2 else (r.1, parser)

/-! ## `jsmn_parse` -/

/-- `'{'` and `'['` -/
def openToken (type : JsmnType) (parser : Parser) : Option (JsmnErr × Parser) :=
  parser.allocToken.elim (some (.nomem, parser)) fun a =>
    a.2.countInSuper.bind fun counted => counted.tokens[a.1]?.map fun token =>
      (.success, { counted with
        tokens := counted.tokens.set a.1 { token with type := type, start := parser.pos }
        toksuper := (counted.toknext : Int) - 1 })

/-- `'}'` and `']'` -/
def closeToken (type : JsmnType) (parser : Parser) : Option (JsmnErr × Parser) :=
  (lastOpen parser.tokens parser.toknext).bind fun found => found.elim (some (.inval, parser)) fun i =>
    parser.tokens[i]?.bind fun token =>
      if token.type ≠ type then some (.inval, parser)
      else
        let tokens := parser.tokens.set i { token with stop := parser.pos + 1 }
        (lastOpen tokens (i + 1)).map fun super =>
          (.success, { parser with tokens := tokens, toksuper := super.elim (-1) fun j => j })

/-- What is done after a string and after a primitive. -/
def counting (r : JsmnErr × Parser) : Option (JsmnErr × Parser) :=
  if r.1 = .success then r.2.countInSuper.map fun parser => (.success, parser) else some r

/-- `'\t'`, `'\r'`, `'\n'`, `':'`, `','` and `' '` -/
def isBlank (c : UInt8) : Bool := [0x09, 0x0D, 0x0A, 0x3A, 0x2C, 0x20].contains c

/-- What the loop does with the character at `pos`. -/
def parseChar (js : CString) (c : UInt8) (parser : Parser) : Option (JsmnErr × Parser) :=
  if c = 0x7B ∨ c = 0x5B then parser.openToken (if c = 0x7B then .object else .array)
  else if c = 0x7D ∨ c = 0x5D then parser.closeToken (if c = 0x7D then .object else .array)
  else if c = quote then (parser.parseString js).bind counting
  else if isBlank c then some (.success, parser)
  else (parser.parsePrimitive js).bind counting

/-- The end of the text. -/
def finish (parser : Parser) : Option (JsmnErr × Parser) :=
  (lastOpen parser.tokens parser.toknext).map fun found => (if found.isSome then .part else .success, parser)

/-- The loop of `jsmn_parse` over the text. -/
def parseLoop (js : CString) : Nat → Parser → Option (JsmnErr × Parser)
  | 0, _ => none
  | n + 1, parser => (js.at? parser.pos).bind fun c =>
    if c = 0 then parser.finish
    else (parser.parseChar js c).bind fun r =>
      if r.1 = .success then parseLoop js n { r.2 with pos := r.2.pos + 1 } else some r

/-- The tokens that are not allocated yet are as a new array has them. -/
def clearRest (parser : Parser) : Parser :=
  { parser with
    tokens := parser.tokens.take parser.toknext
      ++ List.replicate (parser.tokens.length - parser.toknext) (fillToken .primitive (-1) (-1)) }

/-- `jsmn_parse` -/
def parse (js : CString) (parser : Parser) : Option (JsmnErr × Parser) := parseLoop js js.passes parser.clearRest

/-- `jsmn_init`, for a first call with these tokens. -/
def init (tokens : List Token) : Parser := ⟨0, 0, -1, tokens⟩

end Parser

end Blockmon.Jsmn
