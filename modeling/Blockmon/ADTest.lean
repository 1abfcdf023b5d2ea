import Blockmon.Lib.Floats
import Blockmon.StatMsg

/-!
# The detection block (`app_Stat_AD/blocks/ADTest.cpp`)

The numbers of a distribution are `double`s: their operations are a parameter. What the test of a histogram against its window says is an
argument of each message; the dispersions and the reference set that go with it, and the text files, are left out. `exit` ends the process:
nothing is done after it.
-/

namespace Blockmon.StatAD

/-- The code for a histogram like the ones of the window. -/
def NOT_ANOMALOUS : UInt16 := 0
/-- The code for one that is not. -/
def ANOMALOUS : UInt16 := 1
/-- The code for a reference set that is too small. -/
def NOT_ENOUGH_EL_IN_REF_SET : UInt16 := 2
/-- The code for too few users, in the detection. -/
def NOT_ENOUGH_ACTIVE_USERS_DET : UInt16 := 3
/-- The code for too few bins that are not empty, in the detection. -/
def NOT_ENOUGH_NOT_NULL_BINS_DET : UInt16 := 4
/-- The code for too few users, in the learning. -/
def NOT_ENOUGH_ACTIVE_USERS_LEARN : UInt16 := 39
/-- The code for too few bins that are not empty, in the learning. -/
def NOT_ENOUGH_NOT_NULL_BINS_LEARN : UInt16 := 49
/-- The code for a histogram that is learnt. -/
def LEARNING_OK : UInt16 := 99

/-- Arithmetic on `double`. -/
structure Doubles (α : Type) where
  ofNat : Nat → α
  add : α → α → α
  sub : α → α → α
  div : α → α → α
  isZero : α → Bool
  epsilon : α

/-- An element of a window. -/
structure WindowElement (α : Type) where
  timestamp : UInt64
  nrUniqueUsers : UInt16
  pdfSize : UInt16
  pdf : List α
  lPhase : Bool

/-- `ADResultMsg` -/
structure ADResultMsg (α : Type) where
  timestamp : UInt64
  timescale : UInt16
  featureID : String
  nrUniqueUsers : UInt64
  totalValue : UInt64
  ccdfSize : UInt16
  ccdf : List α
  lPhase : Bool
  anomalyCode : UInt16

/-- `ADAnomalMsg` -/
structure ADAnomalMsg (α : Type) where
  timestamp : UInt64
  timescale : UInt16
  featureID : String
  ccdfSize : UInt16
  ccdf : List α

/-- What the identification of the reference set and the test on it end with. -/
inductive Verdict where
  | notEnoughEl
  | notAnomalous
  | anomalous
deriving DecidableEq

/-- `ADTest`, with what it has of a message until the next one. -/
structure ADTest (α : Type) where
  timescale : UInt16
  nHistogramsInWindow : UInt32
  minActiveUsers : UInt32
  learningStartTime : UInt64
  stopTime : UInt64
  currentAggTime : UInt64
  notNullBins : UInt16
  anomalyCode : UInt16
  windowsHt : OrdMap String (List (WindowElement α))
  currPDF : List α
  currCCDF : List α
  exited : Bool

namespace ADTest

variable {α : Type} (D : Doubles α)

/-- A configured block. -/
def new (timescale : UInt16) (nHistogramsInWindow minActiveUsers : UInt32) (learningStartTime stopTime : UInt64) : ADTest α where
  timescale := timescale
  nHistogramsInWindow := nHistogramsInWindow
  minActiveUsers := minActiveUsers
  learningStartTime := learningStartTime
  stopTime := stopTime
  currentAggTime := 0
  notNullBins := 0
  anomalyCode := 199
  windowsHt := OrdMap.empty
  currPDF := []
  currCCDF := []
  exited := false

/-! ## The distribution of a histogram -/

/-- The first loop of `create_CCDF`, on the vector, `n_dummy_users` and `n_empty_bins`. -/
def countUsers (totNumUsers : UInt16) : List UInt32 → Nat → List α × α × UInt16 → List α × α × UInt16
  | [], _, s => s
  | x :: histog, i, (pdf, nDummyUsers, nEmptyBins) =>
    let pdf' := pdf ++ [D.div (D.ofNat x.toNat) (D.ofNat totNumUsers.toNat)]
    if D.isZero (pdf'.getD i D.epsilon) then
      countUsers totNumUsers histog (i + 1)
        (pdf'.set i D.epsilon, D.add nDummyUsers ((pdf'.set i D.epsilon).getD i D.epsilon), nEmptyBins + 1)
    else countUsers totNumUsers histog (i + 1) (pdf', D.add nDummyUsers (pdf'.getD i D.epsilon), nEmptyBins)

/-- The second loop, with the passes that are left of it, on the three vectors. -/
def normalize (nDummyUsers : α) : Nat → Nat → List α × List α × List α → List α × List α × List α
  | 0, _, s => s
  | passes + 1, i, (pdf, cdf, ccdf) =>
    let pdf' := pdf.set i (D.div (pdf.getD i D.epsilon) nDummyUsers)
    let cdf' := cdf ++ [if i = 0 then pdf'.getD i D.epsilon else D.add (cdf.getD (i - 1) D.epsilon) (pdf'.getD i D.epsilon)]
    normalize nDummyUsers passes (i + 1) (pdf', cdf', ccdf ++ [D.sub (D.ofNat 1) (cdf'.getD i D.epsilon)])

/-- `create_CCDF` -/
def createCCDF (b : ADTest α) (histog : List UInt32) : ADTest α :=
  let counted := countUsers D (histog.foldl (fun tot x => tot + x.toUInt16) 0) histog 0 (b.currPDF, D.ofNat 0, 0)
  let normalized := normalize D counted.2.1 histog.length 0 (counted.1, [], b.currCCDF)
  { b with
    currPDF := normalized.1
    currCCDF := normalized.2.2
    notNullBins := UInt16.ofNat histog.length - counted.2.2 }

/-! ## The window -/

/-- The window of a feature. -/
def window (b : ADTest α) (featureID : String) : List (WindowElement α) := (b.windowsHt.find? featureID).getD []

/-- `insert_window_entry` -/
def insertWindowEntry (b : ADTest α) (featureID : String) : ADTest α := { b with windowsHt := b.windowsHt.insert featureID [] }

/-- `update_window_entry` -/
def updateWindowEntry (b : ADTest α) (m : HistoMsg) (lPhase : Bool) : ADTest α :=
  let wEl : WindowElement α := {
    timestamp := m.timestamp
    nrUniqueUsers := m.nrUniqueUsers.toUInt16
    pdfSize := UInt16.ofNat b.currPDF.length
    pdf := b.currPDF
    lPhase := lPhase }
  let windowsEntry := if lPhase then b.window m.featureID else (b.window m.featureID).tail
  { b with windowsHt := b.windowsHt.assign m.featureID (windowsEntry ++ [wEl]) }

/-! ## Receiving -/

/-- The message of `send_result_message`. -/
def resultMessage (b : ADTest α) (m : HistoMsg) (lPhase : Bool) : ADResultMsg α where
  timestamp := m.timestamp
  timescale := b.timescale
  featureID := m.featureID
  nrUniqueUsers := m.nrUniqueUsers
  totalValue := m.totalValue
  ccdfSize := UInt16.ofNat m.histogram.length
  ccdf := b.currCCDF
  lPhase := lPhase
  anomalyCode := b.anomalyCode

/-- The message of `send_anomal_message`. -/
def anomalMessage (b : ADTest α) (m : HistoMsg) : ADAnomalMsg α where
  timestamp := m.timestamp
  timescale := b.timescale
  featureID := m.featureID
  ccdfSize := UInt16.ofNat m.histogram.length
  ccdf := b.currCCDF

/-- What a call sends on the two gates. -/
structure Sent (α : Type) where
  results : List (ADResultMsg α)
  anomals : List (ADAnomalMsg α)

/-- The end of both phases: the result is sent, then, if it is one, the anomaly, and the vectors are cleared. -/
def finish (b : ADTest α) (m : HistoMsg) (lPhase : Bool) : ADTest α × Sent α :=
  if m.timestamp ≥ b.stopTime then ({ b with exited := true }, { results := [b.resultMessage m lPhase], anomals := [] })
  else
    ({ b with currPDF := [], currCCDF := [] },
      { results := [b.resultMessage m lPhase]
        anomals := if lPhase = false ∧ (b.anomalyCode = NOT_ENOUGH_EL_IN_REF_SET ∨ b.anomalyCode = ANOMALOUS) then [b.anomalMessage m] else [] })

/-- A message in the learning phase. -/
def learn (b : ADTest α) (m : HistoMsg) : ADTest α :=
  if m.nrUniqueUsers ≤ b.minActiveUsers.toUInt64 then { b with anomalyCode := NOT_ENOUGH_ACTIVE_USERS_LEARN }
  else if b.notNullBins ≤ 5 then { b with anomalyCode := NOT_ENOUGH_NOT_NULL_BINS_LEARN }
  else { b with anomalyCode := LEARNING_OK }.updateWindowEntry m true

/-- The code of the detection phase. -/
def detectCode (b : ADTest α) (m : HistoMsg) (v : Verdict) : UInt16 :=
  if m.nrUniqueUsers ≤ b.minActiveUsers.toUInt64 then NOT_ENOUGH_ACTIVE_USERS_DET
  else if b.notNullBins ≤ 5 then NOT_ENOUGH_NOT_NULL_BINS_DET
  else
    match v with
    | .notEnoughEl => NOT_ENOUGH_EL_IN_REF_SET
    | .notAnomalous => NOT_ANOMALOUS
    | .anomalous => ANOMALOUS

/-- A message in the detection phase. -/
def detect (b : ADTest α) (m : HistoMsg) (v : Verdict) : ADTest α :=
  let b' := { b with anomalyCode := b.detectCode m v }
  if b'.anomalyCode = NOT_ANOMALOUS then b'.updateWindowEntry m false else b'

/-- `_receive_msg` -/
def receiveMsg (b : ADTest α) (m : HistoMsg) (v : Verdict) : ADTest α × Sent α :=
  let b := { b with currentAggTime := m.timestamp }
  if b.currentAggTime < b.learningStartTime then (b, { results := [], anomals := [] })
  else
    let b := b.createCCDF D m.histogram
    let b := if (b.windowsHt.find? m.featureID).isSome then b else b.insertWindowEntry m.featureID
    if (b.window m.featureID).length < b.nHistogramsInWindow.toNat then (b.learn m).finish m true else (b.detect m v).finish m false

/-- The block after the messages, and each message with what has been sent about it. -/
def receiveMsgs : List (HistoMsg × Verdict) → ADTest α → ADTest α × List (HistoMsg × Sent α)
  | [], b => (b, [])
  | (m, v) :: ms, b =>
    if b.exited then (b, [])
    else
      ((receiveMsgs ms (b.receiveMsg D m v).1).1, (m, (b.receiveMsg D m v).2) :: (receiveMsgs ms (b.receiveMsg D m v).1).2)

end ADTest

end Blockmon.StatAD
