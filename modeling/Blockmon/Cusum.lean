import Blockmon.Lib.Floats
import Mathlib.Algebra.Order.Field.Basic

/-!
# Change detection (`lib/cusum/Cusum.cpp`, `lib/cusum/CusumNP.cpp`, `lib/cusum/MultiCusum.cpp`)

`Cusum` leaves the score to its subclasses: `Score` is what they define. What a `double` holds is exact here, and what `new` leaves in an array is
a parameter of the members that make one.
-/

namespace Blockmon.Csm

/-! ## `Cusum` -/

/-- The virtual functions of the class, with the state they keep. A clone has the configuration, not the state; the number tells apart the
clones that are made of one object. -/
structure Score (K σ : Type) where
  computeScore : K → σ → K × σ
  resetScore : σ → σ
  clone : Nat → σ → σ

/-- `Cusum`, over a score. -/
structure Cusum (K σ : Type) where
  threshold : K
  currentSum : K
  score : σ

namespace Cusum

variable {K σ : Type} [ExactDouble K] [LinearOrder K] (S : Score K σ)

/-- The constructor of `Cusum`. -/
def new (threshold : K) (score : σ) : Cusum K σ where
  threshold := threshold
  currentSum := 0
  score := score

/-- `Cusum::check` -/
def check (value : K) (c : Cusum K σ) : Bool × Cusum K σ :=
  let (score, state) := S.computeScore value c.score
  let currentSum := if c.currentSum + score > 0 then c.currentSum + score else 0
  (currentSum ≥ c.threshold, { c with currentSum := currentSum, score := state })

/-- `Cusum::reset` -/
def reset (c : Cusum K σ) : Cusum K σ := { c with currentSum := 0, score := S.resetScore c.score }

/-- `Cusum::clone` -/
def clone (i : Nat) (c : Cusum K σ) : Cusum K σ := new c.threshold (S.clone i c.score)

end Cusum

/-! ## `CusumNP` -/

/-- `CusumNP`, with its index and its count in their bounds. -/
structure CusumNP (K : Type) where
  meanWindow : UInt32
  offset : K
  lastValues : Vector K meanWindow.toNat
  lastValueIndex : UInt32
  lastValuesCount : UInt32
  lastValueIndex_lt : lastValueIndex < meanWindow
  lastValuesCount_le : lastValuesCount ≤ meanWindow

namespace CusumNP

variable {K : Type}

/-- The constructor of `CusumNP`, which leaves the values as the memory has them. -/
def new (memory : Nat → K) (meanWindow : UInt32) (offset : K) (hwindow : 0 < meanWindow) : CusumNP K where
  meanWindow := meanWindow
  offset := offset
  lastValues := Vector.ofFn fun i => memory i
  lastValueIndex := 0
  lastValuesCount := 0
  lastValueIndex_lt := hwindow
  lastValuesCount_le := UInt32.zero_le

/-- The next index, around the window. -/
def nextIndex (c : CusumNP K) : UInt32 := (c.lastValueIndex + 1) % c.meanWindow

/-- The next count, up to the window. -/
def nextCount (c : CusumNP K) : UInt32 := if c.lastValuesCount < c.meanWindow then c.lastValuesCount + 1 else c.lastValuesCount

/-- The next index is inside of the window. -/
theorem nextIndex_lt (c : CusumNP K) : c.nextIndex < c.meanWindow :=
  UInt32.mod_lt _ (UInt32.lt_of_le_of_lt UInt32.zero_le c.lastValueIndex_lt)

/-- The next count, as a number. -/
theorem toNat_nextCount (c : CusumNP K) : c.nextCount.toNat = min (c.lastValuesCount.toNat + 1) c.meanWindow.toNat := by
  have hle := UInt32.le_iff_toNat_le.mp c.lastValuesCount_le
  have hlt := c.meanWindow.toNat_lt
  rw [nextCount]
  split
  · rename_i hroom
    have hroom' := UInt32.lt_iff_toNat_lt.mp hroom
    rw [UInt32.toNat_add, UInt32.toNat_one, Nat.mod_eq_of_lt (by omega)]
    omega
  · rename_i hfull
    have hfull' := mt UInt32.lt_iff_toNat_lt.mpr hfull
    omega

/-- The next count is not above the window. -/
theorem nextCount_le (c : CusumNP K) : c.nextCount ≤ c.meanWindow := by
  rw [UInt32.le_iff_toNat_le, toNat_nextCount]
  exact Nat.min_le_right _ _

variable [ExactDouble K]

/-- The mean of the values that are there, or the value itself. -/
def mean (value : K) (c : CusumNP K) : K :=
  if c.lastValuesCount > 0 then
    (c.lastValues.toList.take c.lastValuesCount.toNat).foldl (· + ·) 0 / (c.lastValuesCount.toNat : K)
  else value

/-- `CusumNP::compute_score` -/
def computeScore (value : K) (c : CusumNP K) : K × CusumNP K :=
  (value - c.mean value - c.offset,
    { c with
      lastValues := c.lastValues.setIfInBounds c.lastValueIndex.toNat value
      lastValueIndex := c.nextIndex
      lastValuesCount := c.nextCount
      lastValueIndex_lt := c.nextIndex_lt
      lastValuesCount_le := c.nextCount_le })

/-- `CusumNP::reset_score` -/
def resetScore (c : CusumNP K) : CusumNP K :=
  { c with
    lastValueIndex := 0
    lastValuesCount := 0
    lastValueIndex_lt := UInt32.lt_of_le_of_lt UInt32.zero_le c.lastValueIndex_lt
    lastValuesCount_le := UInt32.zero_le }

/-- `CusumNP::clone` -/
def clone (memory : Nat → K) (c : CusumNP K) : CusumNP K :=
  new memory c.meanWindow c.offset (UInt32.lt_of_le_of_lt UInt32.zero_le c.lastValueIndex_lt)

/-- The class as a subclass of `Cusum`; `memory i` is what the array of the clone `i` holds when it is made. -/
def score (memory : Nat → Nat → K) : Score K (CusumNP K) where
  computeScore := computeScore
  resetScore := resetScore
  clone i := clone (memory i)

end CusumNP

/-! ## `MultiCusum` -/

/-- `MultiCusum` -/
structure MultiCusum (K σ : Type) where
  cusum : List (Cusum K σ)

namespace MultiCusum

variable {K σ : Type} [ExactDouble K] [LinearOrder K] (S : Score K σ)

/-- The constructor of `MultiCusum`, which clones one detector. -/
def new (cusum : Cusum K σ) (count : Nat) : MultiCusum K σ where
  cusum := (List.range count).map fun i => cusum.clone S i

/-- The loop of `check` from the component `i` on: what it returns, and the components after it. -/
def checkFrom (value : Nat → K) (i : Nat) : List (Cusum K σ) → Int × List (Cusum K σ)
  | [] => (-1, [])
  | c :: cs =>
    if (c.check S (value i)).1 then (i, (c.check S (value i)).2 :: cs)
    else ((checkFrom value (i + 1) cs).1, (c.check S (value i)).2 :: (checkFrom value (i + 1) cs).2)

/-- `MultiCusum::check` -/
def check (value : Nat → K) (m : MultiCusum K σ) : Int × MultiCusum K σ :=
  ((checkFrom S value 0 m.cusum).1, { m with cusum := (checkFrom S value 0 m.cusum).2 })

/-- The other `check`; the numbers are converted one by one. -/
def checkInt (value : Nat → Int) (m : MultiCusum K σ) : Int × MultiCusum K σ := check S (fun i => (value i : K)) m

/-- `MultiCusum::reset` -/
def reset (m : MultiCusum K σ) : MultiCusum K σ := { m with cusum := m.cusum.map fun c => c.reset S }

end MultiCusum

end Blockmon.Csm
