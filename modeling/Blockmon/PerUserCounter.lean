import Blockmon.StatMsg

/-!
# The per-user block (`app_Stat_AD/blocks/PerUserCounter.cpp`)

The keys of the table are user IDs. The tickets that the block sends are listed; its log messages and the XML node that `_configure` reads are
left out. The interval `60*m_out_timescale` is computed in 32 bits and is a divisor: where it comes to 0 the code is not modelled.
-/

namespace Blockmon.StatAD

/-- The features of a user and their sums. -/
abbrev FeaturesMap := OrdMap String UInt64

/-- The block. -/
structure PerUserCounter where
  inTimescale : UInt32
  outTimescale : UInt32
  currentAggTime : UInt64
  ticketsHt : OrdMap UInt32 FeaturesMap

namespace PerUserCounter

/-- A configured block before its first ticket. -/
def new (inTimescale outTimescale : UInt32) : PerUserCounter where
  inTimescale := inTimescale
  outTimescale := outTimescale
  currentAggTime := 0
  ticketsHt := OrdMap.empty

/-- The tickets of the elements; the table is empty afterwards. -/
def emptyHashTable (order : VisitOrder (UInt32 × FeaturesMap)) (currAggTime : UInt64) (ht : OrdMap UInt32 FeaturesMap) :
    List TicketMsg × OrdMap UInt32 FeaturesMap :=
  ((order.visit ht.entries).map fun e => (TicketMsg.new currAggTime e.1).setFeatures e.2, OrdMap.empty)

/-- A pass of the loop over the features of the ticket. -/
def addFeature (feats : FeaturesMap) (feat : String × UInt64) : FeaturesMap :=
  match feats.find? feat.1 with
  | none => feats.insert feat.1 feat.2
  | some value => feats.assign feat.1 (value + feat.2)

/-- `insert_element_in_hash_table`: the features of a known user are added up. -/
def insertElementInHashTable (ht : OrdMap UInt32 FeaturesMap) (ticket : TicketMsg) : OrdMap UInt32 FeaturesMap :=
  match ht.find? ticket.userID with
  | none => ht.insert ticket.userID ticket.featurePairs
  | some feats => ht.assign ticket.userID (ticket.featurePairs.entries.foldl addFeature feats)

/-- `(time_now/(60*m_out_timescale) + 1) * (60*m_out_timescale)` -/
def nextAggTime (b : PerUserCounter) (timeNow : UInt64) : UInt64 :=
  (timeNow / (60 * b.outTimescale).toUInt64 + 1) * (60 * b.outTimescale).toUInt64

variable (order : VisitOrder (UInt32 × FeaturesMap))

/-- A signalling ticket that ends the interval, in either branch. -/
def closeInterval (b : PerUserCounter) (timeNow : UInt64) : PerUserCounter × List TicketMsg :=
  ({ inTimescale := b.inTimescale
     outTimescale := b.outTimescale
     currentAggTime := b.nextAggTime timeNow
     ticketsHt := (emptyHashTable order b.currentAggTime b.ticketsHt).2 },
    (emptyHashTable order b.currentAggTime b.ticketsHt).1 ++ [TicketMsg.new (b.nextAggTime timeNow) 0])

/-- The ticket is counted and nothing is sent. -/
def insertTicket (b : PerUserCounter) (ticket : TicketMsg) : PerUserCounter × List TicketMsg :=
  ({ inTimescale := b.inTimescale
     outTimescale := b.outTimescale
     currentAggTime := b.currentAggTime
     ticketsHt := insertElementInHashTable b.ticketsHt ticket }, [])

/-- `_receive_msg` -/
def receiveMsg (b : PerUserCounter) (ticket : TicketMsg) : PerUserCounter × List TicketMsg :=
  if ticket.timestamp < b.currentAggTime ∧ ticket.Signalling then (b, [])
  else if b.inTimescale = 0 then
    if ticket.timestamp ≥ b.currentAggTime ∧ ticket.Signalling then b.closeInterval order ticket.timestamp else b.insertTicket ticket
  else
    if ticket.timestamp > b.currentAggTime ∧ ticket.Signalling then b.closeInterval order ticket.timestamp else b.insertTicket ticket

/-- The block after the tickets, and what it has sent. -/
def receiveMsgs : List TicketMsg → PerUserCounter → PerUserCounter × List TicketMsg
  | [], b => (b, [])
  | t :: ts, b => ((receiveMsgs ts (b.receiveMsg order t).1).1, (b.receiveMsg order t).2 ++ (receiveMsgs ts (b.receiveMsg order t).1).2)

end PerUserCounter

end Blockmon.StatAD
