import Blockmon.HistoCalc
import Mathlib.Data.List.Destutter

/-!
# The edges of the bins (`app_Stat_AD/blocks/binning_function.cpp`)

The search for a base whose powers, rounded down, make as many classes as are wanted. The arithmetic on `double` and the functions of the
mathematical library are parameters. The loop ends when the number is found, or when the best base has not changed for `max_iter` passes.
-/

namespace Blockmon.StatAD

/-- `<math.h>`, and arithmetic on `double`; `ceil` and `floor` are together with the conversion to the integer that they are assigned to. -/
structure Libm (α : Type) where
  ofInt : Int → α
  add : α → α → α
  div : α → α → α
  pow : α → α → α
  log : α → α
  le : α → α → Bool
  ceil : α → Int
  floor : α → UInt64

namespace Binning

variable {α : Type} (L : Libm α)

/-- `unique_floor`: sorted, rounded down, each value once. -/
def uniqueFloor (array : List α) : List UInt64 := ((array.mergeSort L.le).map L.floor).destutter (· ≠ ·)

/-- `binsf`: 0 and the powers of the base from the exponent 0 on. -/
def binsf (b : α) (n : Nat) : List α := L.ofInt 0 :: (List.range n).map fun i : Nat => L.pow b (L.ofInt i)

/-- The variable `esp`: the power of the base that reaches the maximum. -/
def esp (maxData : UInt64) (b : α) : Int := L.ceil (L.div (L.log (L.ofInt maxData.toNat)) (L.log b))

/-- The edges of a base, with the exponents that the data span needs: `i` goes from 1 to `esp+1`. -/
def binsOf (maxData : UInt64) (b : α) : List UInt64 := uniqueFloor L (binsf L b (esp L maxData b + 1).toNat)

/-- The variable `scarto`: how far the edges found are from the number asked for. -/
def scartoOf (NNC : Nat) (bins : List UInt64) : Nat := ((bins.length : Int) - (NNC + 1)).natAbs

/-- `max_iter` -/
def maxIter : Nat := 10000

/-- The variables of the loop. -/
structure Vars (α : Type) where
  b : α
  bestB : α
  sup : α
  inf : α
  scarto : Nat
  bestScarto : Nat
  cont : Nat
  bins : List UInt64

/-- Before the loop: the base that reaches the maximum with as many powers as there are classes. -/
def firstVars (maxData : UInt64) (NNC : Nat) : Vars α :=
  let b := L.pow (L.ofInt maxData.toNat) (L.div (L.ofInt 1) (L.ofInt ((NNC : Int) - 1)))
  let bins := uniqueFloor L (binsf L b NNC)
  { b := b
    bestB := b
    sup := b
    inf := L.ofInt 1
    scarto := scartoOf NNC bins
    bestScarto := scartoOf NNC bins
    cont := 0
    bins := bins }

/-- A pass of the loop. -/
def pass (maxData : UInt64) (NNC : Nat) (s : Vars α) : Vars α :=
  let better := s.scarto < s.bestScarto
  let inf := if NNC + 1 < s.bins.length then s.b else s.inf
  let sup := if NNC + 1 < s.bins.length then s.sup else s.b
  let b := L.div (L.add inf sup) (L.ofInt 2)
  let bins := binsOf L maxData b
  { b := b
    bestB := if better then s.b else s.bestB
    sup := sup
    inf := inf
    scarto := scartoOf NNC bins
    bestScarto := if better then s.scarto else s.bestScarto
    cont := if better then 0 else s.cont + 1
    bins := bins }

/-- The search loop: it stops at a hit or after `max_iter` passes. -/
def loop (maxData : UInt64) (NNC : Nat) (s : Vars α) : Vars α :=
  if s.scarto ≠ 0 ∧ s.cont ≤ maxIter then loop maxData NNC (pass L maxData NNC s) else s
termination_by (s.bestScarto, maxIter + 1 - s.cont)
decreasing_by
  rename_i h
  rw [pass, Prod.lex_def]
  by_cases hbetter : s.scarto < s.bestScarto
  · left
    simp [hbetter]
  · right
    simp only [hbetter, if_false, true_and]
    omega

/-- The classes that are wanted: the smaller number, as `long long`. -/
def wanted (maxData : UInt64) (nClassMax : UInt16) : UInt16 := UInt16.ofInt (min (nClassMax.toNat : Int) maxData.toInt64.toInt)

/-- The variables when the loop is through. -/
def lastVars (maxData : UInt64) (nClassMax : UInt16) : Vars α :=
  loop L maxData (wanted maxData nClassMax).toNat (firstVars L maxData (wanted maxData nClassMax).toNat)

/-- The edges before class 0 is removed. -/
def found (maxData : UInt64) (nClassMax : UInt16) : List UInt64 :=
  if maxIter < (lastVars L maxData nClassMax).cont then binsOf L maxData (lastVars L maxData nClassMax).bestB
  else (lastVars L maxData nClassMax).bins

/-- `binning_function` with its search loop. -/
def binningFunction (maxData : UInt64) (nClassMax : UInt16) (flag0 : Bool) : FeatInfo :=
  if maxData = 0 then
    if flag0 = false then { edges := [maxData], histoDim := 1 } else { edges := [], histoDim := 0 }
  else
    let bins := found L maxData nClassMax
    let NC := UInt16.ofNat bins.length - 1
    if flag0 then { edges := bins.tail, histoDim := NC - 1 } else { edges := bins, histoDim := NC }

/-- What `_configure` reads, with these edges. -/
def configure (timescale maxNrBins : UInt32) (flag0 : Bool) (features : List (String × UInt32)) : Config where
  timescale := timescale
  flag0 := flag0
  featInfoMap := features.foldl (fun m f => m.insert f.1 (binningFunction L f.2.toUInt64 maxNrBins.toUInt16 flag0)) OrdMap.empty

end Binning

end Blockmon.StatAD
