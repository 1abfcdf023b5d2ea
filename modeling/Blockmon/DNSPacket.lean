import Blockmon.Packet

/-!
# DNS packets (`messages/DNSPacket.hpp`, `messages/DNSPacket.cpp`)

A DNS packet is a packet with a copy of the bytes, which its constructor parses. Pointers are offsets in `m_buffer`; reading outside of it
is a fault of the model, and so is a loop or a recursion that is not through when its fuel is used up: what does not end has that fault
whatever the fuel. Strings are their bytes. Each record comes with the place at which its pass of the loop begins. The sum of two halves
in `load_BE_u32` is taken as the 32 bits that it has, also where the sign bit is set.
-/

namespace Blockmon.Messages.Dns

/-! ## Memory -/

/-- One byte of the payload, or the fault of a read behind it. -/
def byteAt (buffer : List UInt8) (off : Nat) : Except Fault UInt8 :=
  match buffer[off]? with
  | some b => .ok b
  | none => .error .outOfBounds

/-- `n` bytes of the payload from `off` on. -/
def bytesAt (buffer : List UInt8) (off n : Nat) : Except Fault (List UInt8) :=
  if off + n ≤ buffer.length then .ok ((buffer.drop off).take n) else .error .outOfBounds

/-- `load_BE_u16`. -/
def loadBEu16 (buffer : List UInt8) (off : Nat) : Except Fault UInt16 := do
  let hi ← byteAt buffer off
  let lo ← byteAt buffer (off + 1)
  .ok (.ofNat (hi.toNat * 2 ^ 8 + lo.toNat))

/-- `load_BE_u32`. -/
def loadBEu32 (buffer : List UInt8) (off : Nat) : Except Fault UInt32 := do
  let hi ← loadBEu16 buffer off
  let lo ← loadBEu16 buffer (off + 2)
  .ok (.ofNat (hi.toNat * 2 ^ 16 + lo.toNat))

/-! ## Names -/

/-- The byte put between two labels. -/
def dot : UInt8 := 46

/-- The loop over the labels of a name, `j` being the byte at `data + i`. -/
def readLabels (buffer : List UInt8) (data : Nat) : Nat → UInt32 → UInt8 → List UInt8 → Except Fault (UInt32 × UInt8 × List UInt8)
  | 0, _, _, _ => .error .noEnd
  | fuel + 1, i, j, ret =>
    if j ≠ 0 ∧ j < 0xC0 then do
      let tmp ← bytesAt buffer (data + (i + 1).toNat) j.toNat
      let next ← byteAt buffer (data + (i + 1 + .ofNat tmp.length).toNat)
      readLabels buffer data fuel (i + 1 + .ofNat tmp.length) next ((if i + 1 ≠ 1 then ret ++ [dot] else ret) ++ tmp)
    else .ok (i, j, ret)

/-- Where a link leads to. -/
def readJump (buffer : List UInt8) (off : Nat) : Except Fault Nat := do
  let link ← loadBEu16 buffer off
  .ok (link &&& 0x3FFF).toNat

/-- What `*consumed` becomes, and the name. -/
def readDnsName (buffer : List UInt8) (dnsStart : Nat) : Nat → UInt16 → Nat → Except Fault (UInt16 × List UInt8)
  | 0, _, _ => .error .noEnd
  | fuel + 1, consumed, data => do
    let first ← byteAt buffer data
    if first < 0xC0 then do
      let labels ← readLabels buffer data (fuel + 1) 0 first []
      if labels.2.1 ≠ 0 then do
        let jump ← readJump buffer (data + labels.1.toNat)
        let tmp ← readDnsName buffer dnsStart fuel 0 (dnsStart + jump)
        .ok (consumed + .ofNat (labels.1.toNat + 2), labels.2.2 ++ [dot] ++ tmp.2)
      else .ok (consumed + .ofNat (labels.1.toNat + 1), labels.2.2)
    else do
      let jump ← readJump buffer data
      let ret ← readDnsName buffer dnsStart fuel 0 (dnsStart + jump)
      .ok (consumed + 2, ret.2)

/-! ## Records -/

/-- `q_record`: a question. -/
structure QRecord where
  rtype : UInt16
  dclass : UInt16
  qname : List UInt8
deriving DecidableEq

/-- `cname_record`: an answer of type CNAME. -/
structure CnameRecord where
  ttl : UInt32
  rtype : UInt16
  dclass : UInt16
  qname : List UInt8
  cname : List UInt8
deriving DecidableEq

/-- `a_record`: an answer of type A. -/
structure ARecord where
  ttl : UInt32
  rtype : UInt16
  dclass : UInt16
  ipAddr : UInt32
  qname : List UInt8
deriving DecidableEq

/-- What a pass of the loop over the answers adds to the members. -/
inductive Answer where
  | a (r : ARecord)
  | cname (r : CnameRecord)
  | none
deriving DecidableEq

/-- The members filled from the twelve bytes of the header. -/
structure Header where
  transactionId : UInt16
  qrFlag : UInt8
  opCode : UInt8
  aaFlag : UInt8
  tcFlag : UInt8
  rdFlag : UInt8
  raFlag : UInt8
  adFlag : UInt8
  ndFlag : UInt8
  reCode : UInt8
  nQuestions : UInt16
  nAnswer : UInt16
  nNs : UInt16
  nAdditional : UInt16
deriving DecidableEq

/-- The header: the constructor up to the counts. -/
def readHeader (buffer : List UInt8) (dnsOffset : Nat) : Except Fault Header := do
  let transactionId ← loadBEu16 buffer dnsOffset
  let b2 ← byteAt buffer (dnsOffset + 2)
  let b3 ← byteAt buffer (dnsOffset + 3)
  let nQuestions ← loadBEu16 buffer (dnsOffset + 4)
  let nAnswer ← loadBEu16 buffer (dnsOffset + 6)
  let nNs ← loadBEu16 buffer (dnsOffset + 8)
  let nAdditional ← loadBEu16 buffer (dnsOffset + 10)
  .ok {
    transactionId := transactionId
    qrFlag := b2 >>> 7
    opCode := (b2 >>> 3) &&& 0xF
    aaFlag := (b2 >>> 2) &&& 1
    tcFlag := (b2 >>> 1) &&& 1
    rdFlag := b2 &&& 1
    raFlag := b3 >>> 7
    adFlag := (b3 >>> 5) &&& 1
    ndFlag := (b3 >>> 4) &&& 1
    reCode := b3 &&& 0xF
    nQuestions := nQuestions
    nAnswer := nAnswer
    nNs := nNs
    nAdditional := nAdditional }

section Loops

variable (buffer : List UInt8) (dnsStart fuel : Nat)

/-- A pass of the loop over the questions: the new `q_size` and the record. -/
def readQuestion (qOffset qSize : UInt16) : Except Fault (UInt16 × QRecord) := do
  let name ← readDnsName buffer dnsStart fuel 0 (qOffset.toNat + qSize.toNat)
  let rtype ← loadBEu16 buffer (qOffset.toNat + (qSize + name.1).toNat)
  let dclass ← loadBEu16 buffer (qOffset.toNat + (qSize + name.1 + 2).toNat)
  .ok (qSize + name.1 + 2 + 2, { rtype := rtype, dclass := dclass, qname := name.2 })

/-- The loop over the questions: the size so far is a `uint16_t` -/
def readQuestions (qOffset : UInt16) : Nat → UInt16 → Except Fault (UInt16 × List (Nat × QRecord))
  | 0, qSize => .ok (qSize, [])
  | n + 1, qSize => do
    let q ← readQuestion buffer dnsStart fuel qOffset qSize
    let rest ← readQuestions qOffset n q.1
    .ok (rest.1, (qOffset.toNat + qSize.toNat, q.2) :: rest.2)

/-- The switch on the record type: the new `a_size` and what is added. -/
def readData (aOffset aSize type dclass : UInt16) (ttl : UInt32) (tmp : List UInt8) : Except Fault (UInt16 × Answer) :=
  if type = 1 then do
    let ipAddr ← loadBEu32 buffer (aOffset.toNat + aSize.toNat)
    .ok (aSize + 4, .a { ttl := ttl, rtype := type, dclass := dclass, ipAddr := ipAddr, qname := tmp })
  else if type = 5 then do
    let cname ← readDnsName buffer dnsStart fuel 0 (aOffset.toNat + aSize.toNat)
    .ok (aSize + cname.1, .cname { ttl := ttl, rtype := type, dclass := dclass, qname := tmp, cname := cname.2 })
  else .ok (aSize, .none)

/-- A pass of the loop over the answers. The length of the data is not read. -/
def readAnswer (aOffset aSize : UInt16) : Except Fault (UInt16 × Answer) := do
  let tmp ← readDnsName buffer dnsStart fuel 0 (aOffset.toNat + aSize.toNat)
  let type ← loadBEu16 buffer (aOffset.toNat + (aSize + tmp.1).toNat)
  let dclass ← loadBEu16 buffer (aOffset.toNat + (aSize + tmp.1 + 2).toNat)
  let ttl ← loadBEu32 buffer (aOffset.toNat + (aSize + tmp.1 + 2 + 2).toNat)
  readData buffer dnsStart fuel aOffset (aSize + tmp.1 + 2 + 2 + 4 + 2) type dclass ttl tmp.2

/-- The loop over the answers. -/
def readAnswers (aOffset : UInt16) : Nat → UInt16 → Except Fault (List (Nat × Answer))
  | 0, _ => .ok []
  | n + 1, aSize => do
    let a ← readAnswer buffer dnsStart fuel aOffset aSize
    let rest ← readAnswers aOffset n a.1
    .ok ((aOffset.toNat + aSize.toNat, a.2) :: rest)

end Loops

/-- The members that `parse_dns` sets, before the records are sorted into vectors. -/
structure Parsed where
  header : Header
  questions : List (Nat × QRecord)
  answers : List (Nat × Answer)

namespace Parsed

/-- The vector `queries` -/
def queries (d : Parsed) : List QRecord := d.questions.map Prod.snd

/-- The vector `a_recs` -/
def aRecs (d : Parsed) : List ARecord :=
  d.answers.filterMap fun
    | (_, .a r) => some r
    | _ => none

/-- The vector `c_names` -/
def cNames (d : Parsed) : List CnameRecord :=
  d.answers.filterMap fun
    | (_, .cname r) => some r
    | _ => none

end Parsed

/-- `payload() - m_buffer` as a `uint8_t`, `m_buffer` being an address. -/
def dnsOffset (mBuffer : Nat) (payload : Option Nat) : UInt8 :=
  let address := match payload with
    | some off => mBuffer + off
    | none => 0
  .ofNat (((address : Int) - mBuffer) % 2 ^ 8).toNat

/-- `parse_dns` behind its first line. -/
def parseAt (buffer : List UInt8) (fuel : Nat) (dnsOffset : UInt8) : Except Fault Parsed := do
  let header ← readHeader buffer dnsOffset.toNat
  let qOffset := dnsOffset.toUInt16 + 12
  let questions ← readQuestions buffer dnsOffset.toNat fuel qOffset header.nQuestions.toNat 0
  let answers ← readAnswers buffer dnsOffset.toNat fuel (qOffset + questions.1) header.nAnswer.toNat 0
  .ok { header := header, questions := questions.2, answers := answers }

/-- The constructor on a packet: the payload is taken by its accessor, which caches the offsets. -/
def parseDns (mBuffer fuel : Nat) : Parse Parsed := do
  let ptr ← Packet.payload
  let p ← get
  ofExcept (parseAt p.buffer.bytes fuel (dnsOffset mBuffer ptr))

/-- The packet that the constructor makes of the bytes at `base()`. -/
def newPacket (memory : Packet) (buffer : ConstBuffer) : Packet := Packet.new memory buffer kEthernet

end Blockmon.Messages.Dns
