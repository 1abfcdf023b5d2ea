import Blockmon.Serializer

/-!
# Messages over connections (`blocks/SerExporter.cpp`, `blocks/SerSource.cpp`)

An exporter serializes every message it receives and sends the bytes; the source keeps one `Serializer` for each of its clients, appends
what `recv` returns to it and takes the complete messages out again. A connection delivers the bytes in the order in which they are
sent. When they arrive, and how many of them one `recv` returns, is up to the network: this is the input of the loop. Sockets that fail
are left out.
-/

namespace Blockmon

/-- A message of one of the two types that can be serialized. -/
inductive Message where
  | tweet (t : Tweet)
  | wordRecord (r : WordRecord)
deriving DecidableEq

/-- `msg_prototype`. -/
inductive Prototype where
  | tweet
  | wordRecord
deriving DecidableEq

/-- `serialize` of either message. -/
def Message.serialize : Message → EStateM Stop BufferSerializer Unit
  | .tweet t => t.serialize
  | .wordRecord r => r.serialize

/-- The prototype that the message was made from. -/
def Message.prototype : Message → Prototype
  | .tweet _ => .tweet
  | .wordRecord _ => .wordRecord

/-- `build_same`: a message of the same class, read from the buffer. -/
def Prototype.buildSame : Prototype → EStateM Stop BufferSerializer Message
  | .tweet => return .tweet (← Tweet.buildSame)
  | .wordRecord => return .wordRecord (← WordRecord.buildSame)

/-! ## The exporter -/

/-- `wire` is what has been given to `send`. -/
structure SerExporter where
  ser : BufferSerializer
  wire : List UInt8

namespace SerExporter

/-- A call on the `Serializer`. -/
def onSer {α : Type} (call : EStateM Stop BufferSerializer α) : EStateM Stop SerExporter α :=
  Exn.onPart SerExporter.ser (fun e ser => { e with ser := ser }) call

/-- The bytes from a pointer on. -/
def send (buffer len : Int) : EStateM Stop SerExporter Unit := do
  let bytes ← onSer (BufferSerializer.load buffer (toSize len))
  modify fun e => { e with wire := e.wire ++ bytes }

/-- `_receive_msg` once the socket is connected. -/
def receiveMsg (m : Message) : EStateM Stop SerExporter Unit := do
  onSer m.serialize
  let (buffer, len) ← onSer Serializer.finalize
  send buffer len

end SerExporter

/-- The other end of a connection: the messages its exporter receives, and the memory that the exporter's `Serializer` and the one of the
source are made in. -/
structure Peer where
  messages : List Message
  exporterMem : Int → UInt8
  sourceMem : Int → UInt8

/-- The constructor of `Serializer`. -/
def Serializer.new (mem : Int → UInt8) : BufferSerializer := Exn.leaves (Serializer.reset.run (BufferSerializer.fresh mem))

/-- The run of the exporter. -/
def Peer.exports (peer : Peer) : EStateM.Result Stop SerExporter Unit :=
  (forM peer.messages SerExporter.receiveMsg).run { ser := Serializer.new peer.exporterMem, wire := [] }

/-- The bytes on the connection. -/
def Peer.wire (peer : Peer) : List UInt8 := (Exn.leaves peer.exports).wire

/-! ## The source -/

/-- `MAX_CLIENT_SOCKET` -/
def MAX_CLIENT_SOCKET : Nat := 30

/-- `DEFAULT_RECV_SIZE` -/
def DEFAULT_RECV_SIZE : Nat := 2000

/-- A connection that was accepted. `received` counts the bytes that `recv` has returned, `sent` is what the block has sent out for it. -/
structure Client where
  peer : Peer
  ser : BufferSerializer
  received : Nat
  sent : List Message

namespace Client

/-- A call of the serializer of a client. -/
def onSer {α : Type} (call : EStateM Stop BufferSerializer α) : EStateM Stop Client α :=
  Exn.onPart Client.ser (fun c ser => { c with ser := ser }) call

/-- A new connection, with an empty `Serializer`. -/
def accept (peer : Peer) : Client :=
  { peer := peer
    ser := Exn.leaves (Serializer.empty.run (Serializer.new peer.sourceMem))
    received := 0
    sent := [] }

/-- One more record sent through the gate. -/
def sendRecord (m : Message) : EStateM Stop Client Unit := modify fun c => { c with sent := c.sent ++ [m] }

/-- The body of the loop over `sers`: whether a message was consumed. -/
def consume (msgPrototype : Prototype) : EStateM Stop Client Bool := do
  if 2 ≤ (← onSer Serializer.getLen) then
    let msgLen ← onSer Serializer.readInt16
    if msgLen ≤ (← onSer Serializer.getLen) then
      onSer (Serializer.consume 2)
      sendRecord (← onSer msgPrototype.buildSame)
      onSer Serializer.next
      return true
    else return false
  else return false

/-- The bytes that `recv` returns when up to `n` are there. -/
def chunk (c : Client) (n : Nat) : List UInt8 := (c.peer.wire.drop c.received).take (min n DEFAULT_RECV_SIZE)

/-- The body of the loop over `client_socket`. No bytes stand for a socket that is not ready. -/
def receive (n : Nat) : EStateM Stop Client Unit := do
  let c ← get
  if c.chunk n ≠ [] then
    onSer (Serializer.addRawData (c.chunk n) (c.chunk n).length)
    modify fun c' => { c' with received := c'.received + (c.chunk n).length }

end Client

/-- What `select` finds: a new connection, and how many bytes are there for each client. -/
structure Select where
  accepted : Option Peer
  ready : Nat → Nat

/-- `clients` stands for `client_socket` and `sers`. A connection beyond the limit is accepted and then ignored. -/
structure SerSource where
  msgPrototype : Prototype
  clients : List Client
  ignored : List Client

namespace SerSource

/-- The loop over `sers`: the clients, and `consumed`. -/
def consume (msgPrototype : Prototype) : List Client → Except Stop (List Client × Bool)
  | [] => return ([], false)
  | c :: cs =>
    match (Client.consume msgPrototype).run c with
    | .error e _ => throw e
    | .ok consumed c' => do
      let (cs', consumed') ← consume msgPrototype cs
      return (c' :: cs', consumed || consumed')

/-- The loop over `client_socket`. -/
def receive (ready : Nat → Nat) : List Client → Except Stop (List Client)
  | [] => return []
  | c :: cs =>
    match (Client.receive (ready 0)).run c with
    | .error e _ => throw e
    | .ok _ c' => do
      let cs' ← receive (fun i => ready (i + 1)) cs
      return c' :: cs'

/-- The new connection, if there is one. -/
def accept (accepted : Option Peer) (s : SerSource) : SerSource :=
  match accepted with
  | none => s
  | some peer =>
    if s.clients.length = MAX_CLIENT_SOCKET then { s with ignored := s.ignored ++ [Client.accept peer] }
    else { s with clients := s.clients ++ [Client.accept peer] }

/-- One iteration of the `while` loop of `_do_async`. -/
def iteration (s : SerSource) (input : Select) : Except Stop SerSource := do
  let (clients, consumed) ← consume s.msgPrototype s.clients
  if consumed then return { s with clients := clients }
  else
    let s' := accept input.accepted { s with clients := clients }
    -- `read_fds` is from before the new connection
    let clients' ← receive (fun i => if i < clients.length then input.ready i else 0) s'.clients
    return { s' with clients := clients' }

/-- Before the first iteration. -/
def start (msgPrototype : Prototype) : SerSource := { msgPrototype := msgPrototype, clients := [], ignored := [] }

/-- An iteration in which no call ends the program. -/
def step (s : SerSource) (input : Select) : Option SerSource := (iteration s input).toOption

/-- The iterations until one consumes nothing and gets to `select`, at most `fuel` of them: the clients at that point. -/
def drain (msgPrototype : Prototype) : Nat → List Client → Except Stop (Option (List Client))
  | 0, _ => return none
  | fuel + 1, cs => do
    let (cs', consumed) ← consume msgPrototype cs
    if consumed then drain msgPrototype fuel cs' else return some cs'

end SerSource

end Blockmon
