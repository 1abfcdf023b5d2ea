import Blockmon.StatMsg

/-!
# The histogram block (`app_Stat_AD/blocks/HistoCalc.cpp`, `app_Stat_AD/blocks/binning_function.cpp`)

The binning looks for its edges in floating point: this search is a parameter, and the two cases without it are as in the source. The XML
node that `_configure` reads is left out. An unordered map is one whose entries are visited in an order that is a parameter as well. The
fault `outOfBounds` is an access outside of a vector or through the end of a map, `noEnd` a loop that is not through.
-/

namespace Blockmon.StatAD

/-- A read outside of a vector, or the fuel at its end. -/
inductive Fault where
  | outOfBounds
  | noEnd
deriving DecidableEq

/-- The edges of a feature and the number of its bins. -/
structure FeatInfo where
  edges : List UInt64
  histoDim : UInt16

/-- What is counted for a feature since the last message. -/
structure HistoEntry where
  uniqueUsersMap : OrdMap UInt32 UInt32
  histogram : List UInt32
  totalVal : UInt64

/-! ## The configuration -/

/-- The edges that are found for a maximum and a number of classes: the floors of 0, 1 and the powers of a base, once each and in order. -/
structure Search where
  bins : UInt64 → UInt16 → List UInt64
  sorted : ∀ max n, (bins max n).Pairwise (· < ·)
  zero : ∀ max n, (bins max n)[0]? = some 0
  one : ∀ max n, 2 ≤ (bins max n).length → (bins max n)[1]? = some 1

/-- `binning_function`: the two ways to bin without the value zero, and the search for the rest. -/
def binningFunction (search : Search) (maxData : UInt64) (nClassMax : UInt16) (flag0 : Bool) : FeatInfo :=
  if maxData = 0 then
    if flag0 = false then { edges := [maxData], histoDim := 1 } else { edges := [], histoDim := 0 }
  else if flag0 then
    { edges := (search.bins maxData nClassMax).tail, histoDim := UInt16.ofNat (search.bins maxData nClassMax).length - 1 - 1 }
  else { edges := search.bins maxData nClassMax, histoDim := UInt16.ofNat (search.bins maxData nClassMax).length - 1 }

/-- The maxima of the features with their edges. -/
def featInfoMap (search : Search) (maxNrBins : UInt32) (flag0 : Bool) (features : List (String × UInt32)) : OrdMap String FeatInfo :=
  features.foldl (fun m f => m.insert f.1 (binningFunction search f.2.toUInt64 maxNrBins.toUInt16 flag0)) OrdMap.empty

/-- What `_configure` leaves behind. -/
structure Config where
  timescale : UInt32
  flag0 : Bool
  featInfoMap : OrdMap String FeatInfo

/-- What `_configure` reads. -/
def configure (search : Search) (timescale maxNrBins : UInt32) (flag0 : Bool) (features : List (String × UInt32)) : Config where
  timescale := timescale
  flag0 := flag0
  featInfoMap := featInfoMap search maxNrBins flag0 features

/-- The block. -/
structure HistoCalc where
  config : Config
  currentAggTime : UInt64
  histoHt : OrdMap String HistoEntry

namespace HistoCalc

/-- A configured block before its first ticket. -/
def new (config : Config) : HistoCalc where
  config := config
  currentAggTime := 0
  histoHt := OrdMap.empty

/-! ## One ticket -/

/-- The messages of the elements; the table is empty afterwards. -/
def emptyHashTable (order : VisitOrder (String × HistoEntry)) (currAggTime : UInt64) (ht : OrdMap String HistoEntry) :
    List HistoMsg × OrdMap String HistoEntry :=
  ((order.visit ht.entries).map fun e => {
    timestamp := currAggTime
    featureID := e.1
    nrUniqueUsers := UInt64.ofNat e.2.uniqueUsersMap.entries.length
    histogram := e.2.histogram
    totalValue := e.2.totalVal }, OrdMap.empty)

/-- One edge of a histogram. -/
def edge (bEd : List UInt64) (i : Nat) : Except Fault UInt64 :=
  match bEd[i]? with
  | some e => .ok e
  | none => .error .outOfBounds

/-- The loop of `get_bin_for_count` with the passes that are left of it. -/
def binLoop (count : UInt64) (bEd : List UInt64) : Nat → Nat → Except Fault UInt32
  | 0, _ => .ok (UInt32.ofNat (10 * bEd.length))
  | passes + 1, i => do
    let lo ← edge bEd i
    let hi ← edge bEd (i + 1)
    if lo ≤ count ∧ count < hi then .ok (UInt32.ofNat i)
    else if i + 2 = bEd.length ∧ hi ≤ count then .ok (UInt32.ofNat i)
    else binLoop count bEd passes (i + 1)

/-- For an empty vector, `b_ed.size()-1` wraps around. -/
def getBinForCount (flag0 : Bool) (count : UInt64) (bEd : List UInt64) : Except Fault UInt32 :=
  if flag0 = true ∧ count = 0 then .ok (UInt32.ofNat (20 * bEd.length))
  else binLoop count bEd (UInt64.ofNat bEd.length - 1).toNat 0

/-- An entry with nothing counted. -/
def dummy (fInfo : FeatInfo) : HistoEntry where
  uniqueUsersMap := OrdMap.empty
  histogram := List.replicate fInfo.histoDim.toNat 0
  totalVal := 0

/-- An empty entry for every configured feature. -/
def insertDummyElements (config : Config) (ht : OrdMap String HistoEntry) : OrdMap String HistoEntry :=
  config.featInfoMap.entries.foldl (fun ht f => ht.insert f.1 (dummy f.2)) ht

/-- A pass of the loop of `insert_elements`. -/
def insertElement (config : Config) (user : UInt32) (ht : OrdMap String HistoEntry) (feat : String × UInt64) :
    Except Fault (OrdMap String HistoEntry) :=
  match ht.find? feat.1, config.featInfoMap.find? feat.1 with
  | none, _ => .ok ht
  | some _, none => .error .outOfBounds
  | some hEntry, some featEntry => do
    let histoIndex ← getBinForCount config.flag0 feat.2 featEntry.edges
    if featEntry.histoDim.toUInt32 < histoIndex then .ok ht
    else
      match hEntry.histogram[histoIndex.toNat]? with
      | none => .error .outOfBounds
      | some n =>
        .ok (ht.assign feat.1 {
          uniqueUsersMap := hEntry.uniqueUsersMap.insert user user
          histogram := hEntry.histogram.set histoIndex.toNat (n + 1)
          totalVal := hEntry.totalVal + feat.2 })

/-- The loop over the features of a ticket. -/
def insertElements (config : Config) (user : UInt32) : List (String × UInt64) → OrdMap String HistoEntry → Except Fault (OrdMap String HistoEntry)
  | [], ht => .ok ht
  | feat :: feats, ht => do
    let ht' ← insertElement config user ht feat
    insertElements config user feats ht'

variable (order : VisitOrder (String × HistoEntry))

/-- The loop of `_receive_msg`. -/
def fillHoles (timeNow : UInt64) : Nat → HistoCalc → Except Fault (HistoCalc × List HistoMsg)
  | 0, _ => .error .noEnd
  | fuel + 1, b =>
    if b.currentAggTime < timeNow then do
      let rest ← fillHoles timeNow fuel {
        config := b.config
        currentAggTime := b.currentAggTime + (b.config.timescale * 60).toUInt64
        histoHt := insertDummyElements b.config (emptyHashTable order b.currentAggTime b.histoHt).2 }
      .ok (rest.1, (emptyHashTable order b.currentAggTime b.histoHt).1 ++ rest.2)
    else .ok (b, [])

/-- The first ticket sets the time. -/
def start (b : HistoCalc) (timeNow : UInt64) : HistoCalc :=
  if b.currentAggTime = 0 then
    { config := b.config, currentAggTime := timeNow, histoHt := insertDummyElements b.config b.histoHt }
  else b

/-- `_receive_msg`: first the windows that ended are sent, then the ticket is counted. -/
def receiveMsg (fuel : Nat) (b : HistoCalc) (ticket : TicketMsg) : Except Fault (HistoCalc × List HistoMsg) := do
  let filled ← fillHoles order ticket.timestamp fuel (b.start ticket.timestamp)
  if ticket.Signalling then .ok filled
  else do
    let ht ← insertElements filled.1.config ticket.userID ticket.featurePairs.entries filled.1.histoHt
    .ok ({ config := filled.1.config, currentAggTime := filled.1.currentAggTime, histoHt := ht }, filled.2)

/-- A run of the block on a list of tickets, with all that it sends. -/
def receiveMsgs (fuel : Nat) : List TicketMsg → HistoCalc → Except Fault (HistoCalc × List HistoMsg)
  | [], b => .ok (b, [])
  | t :: ts, b => do
    let first ← receiveMsg order fuel b t
    let rest ← receiveMsgs fuel ts first.1
    .ok (rest.1, first.2 ++ rest.2)

end HistoCalc

end Blockmon.StatAD
