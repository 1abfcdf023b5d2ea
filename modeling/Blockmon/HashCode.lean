import Blockmon.Lib.BlockHash
import Blockmon.Lib.Words

/-!
# What the hash functions share (`lib/hash/C/md5.c`, `sha1.c`, `sha2.c`, `sha4.c`)

The functions for a context are the same in the four files, but for sizes, constants and the order of bytes; a `Design` has what they
differ in. An `unsigned long` has 64 bits. An input comes with its length, an `int`, so that it has less than 2^31 bytes. A buffer is a list
of bytes, which becomes longer if something is written behind its end.
-/

namespace Blockmon.Hash

/-! ## Words and bytes -/

/-- `(unsigned long) b[i]` -/
def getByte (b : List UInt8) (i : Nat) : BitVec 64 := BitVec.ofNat 64 (b.getD i 0).toNat

/-- `GET_ULONG_BE` -/
def getUlongBE (b : List UInt8) (i : Nat) : BitVec 64 :=
  getByte b i <<< 24 ||| getByte b (i + 1) <<< 16 ||| getByte b (i + 2) <<< 8 ||| getByte b (i + 3)

/-- `GET_ULONG_LE` -/
def getUlongLE (b : List UInt8) (i : Nat) : BitVec 64 :=
  getByte b i ||| getByte b (i + 1) <<< 8 ||| getByte b (i + 2) <<< 16 ||| getByte b (i + 3) <<< 24

/-- `GET_UINT64_BE` -/
def getUint64BE (b : List UInt8) (i : Nat) : BitVec 64 :=
  getByte b i <<< 56 ||| getByte b (i + 1) <<< 48 ||| getByte b (i + 2) <<< 40 ||| getByte b (i + 3) <<< 32 |||
    getByte b (i + 4) <<< 24 ||| getByte b (i + 5) <<< 16 ||| getByte b (i + 6) <<< 8 ||| getByte b (i + 7)

/-- `(unsigned char) (n >> s)` -/
def putByte (n : BitVec 64) (s : Nat) : UInt8 := Words.byteAt n s

/-- `PUT_ULONG_BE` -/
def putUlongBE (n : BitVec 64) : List UInt8 := [putByte n 24, putByte n 16, putByte n 8, putByte n 0]

/-- `PUT_ULONG_LE` -/
def putUlongLE (n : BitVec 64) : List UInt8 := [putByte n 0, putByte n 8, putByte n 16, putByte n 24]

/-- `PUT_UINT64_BE` -/
def putUint64BE (n : BitVec 64) : List UInt8 :=
  [putByte n 56, putByte n 48, putByte n 40, putByte n 32, putByte n 24, putByte n 16, putByte n 8, putByte n 0]

/-! ## Contexts -/

/-- An input with its length. -/
abbrev Input := { input : List UInt8 // input.length < 2 ^ 31 }

/-- A context, with its state of any type. -/
structure Context (σ : Type) where
  total0 : BitVec 64
  total1 : BitVec 64
  state : σ
  buffer : List UInt8
  ipad : List UInt8
  opad : List UInt8

/-- What the size of the words makes of the buffer, of the mask and the limit of `total[0]`, which has `width` bits, and of the constants of
`..._finish`. -/
structure Sizes where
  blen : Nat
  mask : BitVec 64
  cut : BitVec 64 → BitVec 64
  shift : Nat
  padTo : Nat
  padOver : Nat
  width : Nat
  blen_dvd : blen ∣ 2 ^ width
  blen_lt : blen < 2 ^ 31
  width_ge : 31 ≤ width
  width_le : width ≤ 64
  shift_eq : shift + 3 = width
  toNat_mask : ∀ x, (x &&& mask).toNat = x.toNat % blen
  toNat_cut : ∀ x, (cut x).toNat = x.toNat % 2 ^ width
  padOver_eq : padOver = padTo + blen

/-- The sizes of the functions on blocks of 64 bytes. -/
def sizes32 : Sizes where
  blen := 64
  mask := 0x3F
  cut := (· &&& 0xFFFFFFFF)
  shift := 29
  padTo := 56
  padOver := 120
  width := 32
  blen_dvd := by decide
  blen_lt := by decide
  width_ge := by decide
  width_le := by decide
  shift_eq := rfl
  toNat_mask x := Words.toNat_and_mask x (v := 6) (by decide)
  toNat_cut x := Words.toNat_and_mask x (v := 32) (by decide)
  padOver_eq := rfl

/-- The sizes of the functions on blocks of 128 bytes. -/
def sizes64 : Sizes where
  blen := 128
  mask := 0x7F
  cut := id
  shift := 61
  padTo := 112
  padOver := 240
  width := 64
  blen_dvd := by decide
  blen_lt := by decide
  width_ge := by decide
  width_le := by decide
  shift_eq := rfl
  toNat_mask x := Words.toNat_and_mask x (v := 7) (by decide)
  toNat_cut x := (Nat.mod_eq_of_lt x.isLt).symm
  padOver_eq := rfl

/-- What else the files differ in: the states that `..._starts` and `..._process` give, how the length is written, and the output. -/
structure Design (σ : Type) extends Sizes where
  starts : σ
  process : σ → List UInt8 → σ
  msglen : BitVec 64 → BitVec 64 → List UInt8
  output : σ → List UInt8
  length_msglen : ∀ high low, (msglen high low).length + padTo = blen
  length_output : ∀ state, (output state).length ≤ blen

/-- The length as SHA-1 and SHA-256 write it. -/
def msglenBE (high low : BitVec 64) : List UInt8 := putUlongBE high ++ putUlongBE low

/-- The length fills the block. -/
theorem length_msglenBE (high low : BitVec 64) : (msglenBE high low).length + sizes32.padTo = sizes32.blen := rfl

namespace Design

variable {σ : Type} (D : Design σ)

/-- A block has bytes. -/
theorem blen_pos : 0 < D.blen := Nat.pos_of_dvd_of_pos D.blen_dvd (Nat.two_pow_pos D.width)

/-- `..._starts`: the counters and the state. -/
def start (ctx : Context σ) : Context σ := { ctx with total0 := 0, total1 := 0, state := D.starts }

/-- The loop over full blocks; what it leaves of the input. -/
def processBlocks : Nat → σ → List UInt8 → σ × List UInt8
  | 0, state, input => (state, input)
  | fuel + 1, state, input =>
    if D.blen ≤ input.length then processBlocks fuel (D.process state (input.take D.blen)) (input.drop D.blen) else (state, input)

/-- The end of `..._update`: the loop, and the copy behind `left` bytes of the buffer. -/
def updateFrom (ctx : Context σ) (left : Nat) (input : List UInt8) : Context σ :=
  let (state, input) := D.processBlocks input.length ctx.state input
  { ctx with state := state, buffer := if 0 < input.length then Bytes.overwrite ctx.buffer left input else ctx.buffer }

/-- `..._update` -/
def update (ctx : Context σ) (input : List UInt8) : Context σ :=
  let ilen := BitVec.ofNat 64 input.length
  if input.length = 0 then ctx
  else
    let left := (ctx.total0 &&& D.mask).toNat
    let fill := D.blen - left
    let total0 := D.cut (ctx.total0 + ilen)
    let total1 := if total0 < ilen then ctx.total1 + 1 else ctx.total1
    let ctx := { ctx with total0 := total0, total1 := total1 }
    if left ≠ 0 ∧ fill ≤ input.length then
      let buffer := Bytes.overwrite ctx.buffer left (input.take fill)
      D.updateFrom { ctx with buffer := buffer, state := D.process ctx.state buffer } 0 (input.drop fill)
    else D.updateFrom ctx left input

/-- The array `..._padding`. -/
def padding : List UInt8 := 0x80 :: List.replicate (D.blen - 1) 0

/-- `..._finish`: the context it leaves, and the digest. -/
def finish (ctx : Context σ) : Context σ × List UInt8 :=
  let high := ctx.total0 >>> D.shift ||| ctx.total1 <<< 3
  let low := ctx.total0 <<< 3
  let last := (ctx.total0 &&& D.mask).toNat
  let padn := if last < D.padTo then D.padTo - last else D.padOver - last
  let ctx := D.update ctx (D.padding.take padn)
  let ctx := D.update ctx (D.msglen high low)
  (ctx, D.output ctx.state)

/-- A context on the stack, with what is in its memory. -/
def fresh (memory : Nat → UInt8) : Context σ where
  total0 := 0
  total1 := 0
  state := D.starts
  buffer := (List.range D.blen).map memory
  ipad := (List.range D.blen).map memory
  opad := (List.range D.blen).map memory

/-- The digest of one input. -/
def hash (memory : Nat → UInt8) (input : List UInt8) : List UInt8 := (D.finish (D.update (D.start (D.fresh memory)) input)).2

/-- The digest of inputs that come one after the other, as `..._file` computes it from the pieces that `fread` returns. -/
def digestOf (memory : Nat → UInt8) (pieces : List Input) : List UInt8 :=
  (D.finish (pieces.foldl (fun ctx piece => D.update ctx piece.val) (D.start (D.fresh memory)))).2

/-! ## Keyed digests -/

/-- `memset`, and the loop over the key. -/
def xorKey (pad : UInt8) (key : List UInt8) : List UInt8 := Bytes.overwrite (List.replicate D.blen pad) 0 (key.map (pad ^^^ ·))

/-- `..._hmac_starts` -/
def hmacStarts (memory : Nat → UInt8) (ctx : Context σ) (key : List UInt8) : Context σ :=
  let key := if D.blen < key.length then D.hash memory key else key
  let ctx := { ctx with ipad := D.xorKey 0x36 key, opad := D.xorKey 0x5C key }
  D.update (D.start ctx) ctx.ipad

/-- `..._hmac_finish` -/
def hmacFinish (ctx : Context σ) : Context σ × List UInt8 :=
  let (ctx, tmpbuf) := D.finish ctx
  let ctx := D.start ctx
  D.finish (D.update (D.update ctx ctx.opad) tmpbuf)

/-- `..._hmac_reset` -/
def hmacReset (ctx : Context σ) : Context σ := D.update (D.start ctx) ctx.ipad

/-- `..._hmac` -/
def hmac (memory : Nat → UInt8) (key input : List UInt8) : List UInt8 :=
  (D.hmacFinish (D.update (D.hmacStarts memory (D.fresh memory) key) input)).2

/-- Any number of messages under one key, each in pieces, with `..._hmac_reset` before the next one. -/
def hmacRun (ctx : Context σ) : List (List Input) → List (List UInt8)
  | [] => []
  | pieces :: later =>
    let (ctx, sum) := D.hmacFinish (pieces.foldl (fun ctx piece => D.update ctx piece.val) ctx)
    sum :: hmacRun (D.hmacReset ctx) later

end Design

end Blockmon.Hash
