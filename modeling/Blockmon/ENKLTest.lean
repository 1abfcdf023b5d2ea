import Blockmon.HistoCalc
import Blockmon.RSIA
import Mathlib.Data.Rat.Cast.OfScientific
import Mathlib.Data.UInt

/-!
# The test on the reference set (`app_Stat_AD/blocks/ADTest.cpp`)

The mean divergence of the current distribution from those of the reference set is tested against the 99th percentile of the divergences inside of
the reference set. An index of a loop is an `uint`, as is a size that is kept: the size of a longer vector is cut, and a loop over one has no end.
What a `double` holds is exact here, and the matrix of the third step is a function of its row and column.
-/

namespace Blockmon.StatAD

namespace ADTest

/-! ## Vectors -/

section Vectors

variable {α β K : Type} [ExactDouble K]

/-- `vec[i]` -/
def element (vec : List α) (i : Nat) : Except Fault α :=
  match vec[i]? with
  | some x => .ok x
  | none => .error .outOfBounds

/-- A loop up to the size of a vector. -/
def overVector (vec : List α) (loop : Except Fault β) : Except Fault β := if vec.length < 2 ^ 32 then loop else .error .noEnd

/-- `vector_mean` -/
def vectorMean (vec : List K) : Except Fault K := overVector vec (.ok (vec.sum / (vec.length : K)))

end Vectors

/-! ## Percentiles -/

section Percentiles

variable {K : Type} [ExactDouble K] [LinearOrder K]

/-- `p_vector`; `N` is the size of the vector with the values. -/
def pVector (N : UInt32) : List K :=
  (List.range N.toNat).map fun i => (100 : Nat) / (N.toNat : K) * (((i + 1 : Nat) : K) - 0.5)

/-- The loop for `k`, from the `i`-th element of `p_vector` on. -/
def lastRank (p : K) : Nat → Nat → List K → Nat
  | _, k, [] => k
  | i, k, x :: pVector => lastRank p (i + 1) (if p ≥ x then i else k) pVector

/-- `percentile_of_array`: the value between the two ranks around `p` -/
def percentileOfArray (vVector : List K) (p : UInt32) : Except Fault K := do
  let vVector := StableSort.sortBy id vVector
  let N := UInt32.ofNat vVector.length
  let pVector : List K := ADTest.pVector N
  let p : K := p.toNat
  let first ← element pVector 0
  if p < first then element vVector 0
  else do
    let last ← element pVector (N - 1).toNat
    if p > last then element vVector (N - 1).toNat
    else do
      let k := lastRank p 0 0 pVector
      let n : K := N.toNat / (100 : Nat)
      let pk ← element pVector k
      let vk ← element vVector k
      let vNext ← element vVector (k + 1)
      .ok (vk + n * (p - pk) * (vNext - vk))

end Percentiles

/-! ## The test -/

section Test

variable {K : Type} [ExactDouble K] [LinearOrder K] (refSetIIISize : UInt32) (closestDistance : Nat → Nat → K) (distVec : List K)
  (keepIndex : List Nat)

/-- A row of `closest_dist`, which is zero up to the diagonal. -/
def closestRow (i indexI : Nat) : Except Fault (List K) :=
  (List.range refSetIIISize.toNat).mapM fun j =>
    if j < i + 1 then .ok 0
    else do
      let indexJ ← element keepIndex j
      .ok (closestDistance indexI indexJ)

/-- `closest_dist`, row by row. -/
def closestRows : Except Fault (List (List K)) :=
  (List.range refSetIIISize.toNat).mapM fun i => do
    let indexI ← element keepIndex i
    closestRow refSetIIISize closestDistance keepIndex i indexI

/-- `closest_dist_vec`, from the `i`-th row on: the elements behind the diagonal. -/
def closestDistVec {K : Type} : Nat → List (List K) → List K
  | _, [] => []
  | i, row :: rows => row.drop (i + 1) ++ closestDistVec (i + 1) rows

/-- What the test leaves behind its pointers, and the code of the block. -/
structure TestResult (K : Type) where
  lENKLDBase : K
  uENKLDBase : K
  meanENKLDBase : K
  currentENKLD : K
  anomalyCode : UInt16

/-- `ENKL_test` -/
def enklTest : Except Fault (TestResult K) := do
  let closestDist ← closestRows refSetIIISize closestDistance keepIndex
  let closestDistVec := ADTest.closestDistVec 0 closestDist
  let meanENKLDBase ← vectorMean closestDistVec
  let alpha : UInt32 := 99
  let lENKLDBase ← percentileOfArray closestDistVec (100 - alpha)
  let uENKLDBase ← percentileOfArray closestDistVec alpha
  let appo ← overVector keepIndex (keepIndex.mapM (element distVec))
  let currentENKLD ← vectorMean appo
  .ok {
    lENKLDBase := lENKLDBase
    uENKLDBase := uENKLDBase
    meanENKLDBase := meanENKLDBase
    currentENKLD := currentENKLD
    anomalyCode := if currentENKLD < uENKLDBase then NOT_ANOMALOUS else ANOMALOUS }

end Test

end ADTest

end Blockmon.StatAD
