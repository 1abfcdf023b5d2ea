import Blockmon.ADTest
import Blockmon.Lib.Rounding
import Blockmon.Lib.StableSort
import Mathlib.Algebra.Order.Field.Basic
import Mathlib.Algebra.Order.Group.Abs

/-!
# The reference set of the detection block (`app_Stat_AD/blocks/ADTest.cpp`)

The algorithm that identifies the reference set has three steps. In the first one every result is rounded as a `double` is; what a `double` holds
in the others is exact here. The divergence of two distributions is a parameter of the steps (the one of the code is `lDivergence`, for a
logarithm), and so is the mean of a matrix (`doubleMatrixMean`). A matrix is a function of its row and column. The loop of the third step ends by
its own condition: the number of its passes is bounded by fuel, and `none` says that the bound was too small.
-/

namespace Blockmon.StatAD

namespace ADTest

/-! ## Divergences -/

section Divergence

variable {K : Type} [ExactDouble K] (log2 : K → K)

/-- `KuLe_Divergence`; the distributions of a feature have one length. -/
def kuLeDivergence (p q : List K) : K := (List.zipWith (fun x y => x * log2 (x / y)) p q).sum

/-- `Entropy` -/
def entropy (histo : List K) : K := -(histo.map fun x => x * log2 x).sum

/-- `L_Divergence` -/
def lDivergence (p q : List K) : K :=
  (kuLeDivergence log2 p q / entropy log2 p + kuLeDivergence log2 q p / entropy log2 q) / 2

end Divergence

/-! ## First step -/

section StepI

variable {α : Type} (guardPeriodLowBound uniqueUsers : UInt64)

/-- A `double`. -/
def double (x : ℚ) : ℚ := Rounding.round 53 x

/-- `sf += 0.02` -/
def nextSlackFactor (sf : ℚ) : ℚ := double (sf + double (1 / 50))

/-- The loop over the window, from the `i`-th element on. The numbers of users are converted to `double`, which rounds from `2 ^ 53` on. -/
def indexList (sf : ℚ) : Nat → List (WindowElement α) → List Nat
  | _, [] => []
  | i, wEl :: windowsEntry =>
    if wEl.timestamp ≤ guardPeriodLowBound ∧
        |double (double uniqueUsers.toNat - double wEl.nrUniqueUsers.toNat)| < double (sf * double uniqueUsers.toNat) then
      i :: indexList sf (i + 1) windowsEntry
    else indexList sf (i + 1) windowsEntry

/-- The loop over the slack factor. -/
def slackLoop (windowsEntry : List (WindowElement α)) : Nat → ℚ → List Nat → List Nat
  | 0, _, indexes => indexes
  | passes + 1, sf, indexes =>
    if sf ≤ 1 / 2 ∧ indexes.length ≤ 200 then
      slackLoop windowsEntry passes (nextSlackFactor sf) (indexList guardPeriodLowBound uniqueUsers (nextSlackFactor sf) 0 windowsEntry)
    else indexes

/-- `RSIA_stepI`. The slack factor is past its bound after 25 passes (`slackLoop_passes`). -/
def rsiaStepI (windowsEntry : List (WindowElement α)) : List (WindowElement α) :=
  (slackLoop guardPeriodLowBound uniqueUsers windowsEntry 25 0 []).filterMap fun i => windowsEntry[i]?

end StepI

/-! ## Second step -/

/-- `Divergence`: the divergence of a window of the reference set, and the index of the window. -/
structure Divergence (κ : Type) where
  lDiv : κ
  index : Nat

section StepII

variable {α κ : Type} [LinearOrder κ] (byDiv : Sorting (Divergence κ) κ Divergence.lDiv) (byIndex : Sorting (Divergence κ) Nat Divergence.index)
  (divergence : List α → List α → κ) (currPDF : List α)

/-- `RSIA_stepII` -/
def rsiaStepII (refSetIstep : List (WindowElement α)) : List (WindowElement α) :=
  let lPq := refSetIstep.mapIdx fun i wEl => { lDiv := divergence currPDF wEl.pdf, index := i : Divergence κ }
  let minAllowedEl := 50
  let nrOfElem := min refSetIstep.length minAllowedEl
  let lPqSorted := (byDiv.sort lPq).take nrOfElem
  (byIndex.sort lPqSorted).filterMap fun divElem => refSetIstep[divElem.index]?

end StepII

/-! ## Third step -/

/-- `find_in_uint_vector`: how often the target is in the array. -/
def findInUintVector (array : List Nat) (target : Nat) : Nat := array.count target

/-- The loops that write one vector over another, which keeps the rest of its own. -/
def overwrite : List Nat → List Nat → List Nat
  | [], dest => dest
  | x :: src, [] => x :: overwrite src []
  | x :: src, _ :: dest => x :: overwrite src dest

section StepIII

variable {α K : Type} [ExactDouble K] [LinearOrder K]

/-- `double_matrix_max`. The indexes are left as they are if nothing is greater than the start value. -/
def doubleMatrixMax (N : Nat) (matrix : Nat → Nat → K) (index : Nat × Nat) : Nat × Nat :=
  (((List.range N).product (List.range N)).foldl
    (fun s p => if s.1 < matrix p.1 p.2 then (matrix p.1 p.2, p) else s) (-99999999, index)).2

/-- `double_matrix_mean` -/
def doubleMatrixMean (mat : List (List K)) : K := (mat.map List.sum).sum / ((mat.length * (mat.headD []).length : Nat) : K)

/-- The local variables of the loop. -/
structure Pruning (K : Type) where
  a : List Nat
  b : List Nat
  aBranch1 : List Nat
  aBranch2 : List Nat
  bBranch1 : List Nat
  bBranch2 : List Nat
  dReg : Nat → Nat → K
  index : Nat × Nat

namespace Pruning

variable (mean : List (List K) → K) (N : Nat) (simmD : Nat → Nat → K)

/-- The cost of a cut: the mean over all pairs of the two branches. -/
def cost (aBranch bBranch : List Nat) : K := mean (aBranch.map fun indexA => bBranch.map fun indexB => simmD indexA indexB)

/-- The last case: both indexes are new. -/
def branch (s : Pruning K) (indexI indexJ : Nat) : Pruning K :=
  let aBranch1 := overwrite s.a s.aBranch1 ++ [indexI]
  let aBranch2 := overwrite s.a s.aBranch2 ++ [indexJ]
  let bBranch1 := overwrite s.b s.bBranch1 ++ [indexJ]
  let bBranch2 := overwrite s.b s.bBranch2 ++ [indexI]
  let s := { s with aBranch1 := aBranch1, aBranch2 := aBranch2, bBranch1 := bBranch1, bBranch2 := bBranch2 }
  if cost mean simmD aBranch1 bBranch1 > cost mean simmD aBranch2 bBranch2 then { s with a := overwrite aBranch1 s.a, b := overwrite bBranch1 s.b }
  else { s with a := overwrite aBranch2 s.a, b := overwrite bBranch2 s.b }

/-- The five cases of a pass. -/
def assign (s : Pruning K) (indexI indexJ : Nat) : Pruning K :=
  if findInUintVector s.a indexI > 0 then
    if findInUintVector s.b indexJ = 0 ∧ findInUintVector s.a indexJ = 0 then { s with b := s.b ++ [indexJ] } else s
  else if findInUintVector s.a indexJ > 0 then
    if findInUintVector s.b indexI = 0 ∧ findInUintVector s.a indexI = 0 then { s with b := s.b ++ [indexI] } else s
  else if findInUintVector s.b indexI > 0 then
    if findInUintVector s.a indexJ = 0 ∧ findInUintVector s.b indexJ = 0 then { s with a := s.a ++ [indexJ] } else s
  else if findInUintVector s.b indexJ > 0 then
    if findInUintVector s.a indexI = 0 ∧ findInUintVector s.b indexI = 0 then { s with a := s.a ++ [indexI] } else s
  else s.branch mean simmD indexI indexJ

/-- A pass of the loop. -/
def pass (s : Pruning K) : Pruning K :=
  let index := doubleMatrixMax N s.dReg s.index
  { s with
    dReg := fun i j => if i = index.1 ∧ j = index.2 then 0 else s.dReg i j
    index := index }.assign mean simmD index.1 index.2

/-- `while((A.size() + B.size()) < N)` -/
def Goes (s : Pruning K) : Prop := s.a.length + s.b.length < N

/-- The test of the pruning loop can be decided. -/
instance decidableGoes (s : Pruning K) : Decidable (s.Goes N) := inferInstanceAs (Decidable (_ < _))

/-- The loop, with a bound on its passes. -/
def loop : Nat → Pruning K → Option (Pruning K)
  | 0, s => if s.Goes N then none else some s
  | passes + 1, s => if s.Goes N then loop passes (s.pass mean N simmD) else some s

end Pruning

variable (mean : List (List K) → K) (divergence : List α → List α → K)

/-- The divergences of the elements, above the diagonal and below it. -/
def simmD (refSet : List (WindowElement α)) (i j : Nat) : K :=
  match refSet[i]?, refSet[j]? with
  | some lElI, some lElJ => if i < j then divergence lElI.pdf lElJ.pdf else if j < i then divergence lElJ.pdf lElI.pdf else 0
  | _, _ => 0

/-- `D_reg` and `closest_dist` as they are filled: the divergences above the diagonal. -/
def closestDist (refSet : List (WindowElement α)) (i j : Nat) : K := if i < j then simmD divergence refSet i j else 0

/-- The variables before the loop; nothing has set `index_i` and `index_j`. -/
def Pruning.start (refSet : List (WindowElement α)) (uninitialised : Nat × Nat) : Pruning K where
  a := []
  b := []
  aBranch1 := []
  aBranch2 := []
  bBranch1 := []
  bBranch2 := []
  dReg := closestDist divergence refSet
  index := uninitialised

/-- The larger subset if the sizes are too different, and everything otherwise. -/
def keepIndex (K : Type) [ExactDouble K] [LinearOrder K] (N : Nat) (a b : List Nat) : List Nat :=
  if |((a.length : K) - (b.length : K)) / ((a.length : K) + (b.length : K))| > 1 / 10 then
    if a.length < b.length then b else a
  else List.range N

/-- What `RSIA_stepIII` returns, and what it leaves behind its pointers. -/
structure Reference (α K : Type) where
  refSetFinal : List (WindowElement α)
  keepIndex : List Nat
  closestDist : Nat → Nat → K
  distVec : List K

/-- `RSIA_stepIII`; the vector of the caller is empty. -/
def rsiaStepIII (passes : Nat) (currPDF : List α) (uninitialised : Nat × Nat) (refSetII : List (WindowElement α)) : Option (Reference α K) := do
  let s ← Pruning.loop mean refSetII.length (simmD divergence refSetII) passes (Pruning.start divergence refSetII uninitialised)
  let a := StableSort.sortBy id s.a
  let b := StableSort.sortBy id s.b
  let keep := ADTest.keepIndex K refSetII.length a b
  some {
    refSetFinal := keep.filterMap fun i => refSetII[i]?
    keepIndex := keep
    closestDist := ADTest.closestDist divergence refSetII
    distVec := refSetII.map fun wEl => divergence wEl.pdf currPDF }

end StepIII

end ADTest

end Blockmon.StatAD
