import Blockmon.Lib.Bytes
import Blockmon.Lib.Rounding

/-!
# Distributions of packet sizes (`blocks/CDFGenerator.hpp`, `blocks/CDFGenerator.cpp`)

A `float` has 24 binary digits, and here no exponent is out of range. What an `int` does not hold, a division by zero and an index outside of a
vector are faults. The attributes of the configuration are numbers already; the noise is a parameter, and a message is a packet by its length.
What the timer prints is the list of the numbers.
-/

namespace Blockmon

/-- A quotient that is no `int`, an access outside of a vector, or a length that `vector` refuses. -/
inductive CDFFault where
  | overflow
  | outOfBounds
  | lengthError
deriving DecidableEq

/-- The block: the range, the width of a bin, the noise parameter and both vectors. -/
structure CDFGenerator where
  min : Int
  max : Int
  bin : Int
  epsilon : ℚ
  histo : List Int
  cdf : List Int

namespace CDFGenerator

/-- The value of an expression of type `int`. -/
def int (v : Int) : Except CDFFault Int := if -2 ^ 31 ≤ v ∧ v < 2 ^ 31 then .ok v else .error .overflow

/-- What an `unsigned int` or a `size_t` is as an `int`. -/
def toInt (v : Nat) : Int := Bytes.signed (2 ^ 32) v

/-- The value rounded to a `float` -/
def float (x : ℚ) : ℚ := Rounding.round 24 x

/-- `values_num` -/
def valuesNum (min max bin : Int) : Except CDFFault Int :=
  if bin = 0 then .error .overflow else int ⌊float (float (float max - float min) / float bin)⌋

/-- The histogram with all values set to zero. -/
def histoSetZero (min max bin : Int) : Except CDFFault (List Int) := do
  let n ← valuesNum min max bin
  if n < 0 then .error .lengthError else return List.replicate n.toNat 0

/-- `_configure` -/
def configure (min max bin : UInt32) (epsilon : ℚ) : Except CDFFault CDFGenerator := do
  let min := toInt min.toNat
  let max := toInt max.toNat
  let bin := toInt bin.toNat
  let histo ← histoSetZero min max bin
  let cdf ← histoSetZero min max bin
  return { min, max, bin, epsilon, histo, cdf }

/-- `histo[i]++` -/
def increment (histo : List Int) (i : Int) : Except CDFFault (List Int) :=
  match i with
  | .ofNat i =>
    match histo[i]? with
    | some v => do return histo.set i (← int (v + 1))
    | none => .error .outOfBounds
  | .negSucc _ => .error .outOfBounds

/-- The index for a packet size. -/
def index (pktSize : Int) (b : CDFGenerator) : Except CDFFault Int := do
  let d ← int (pktSize - b.min)
  if b.bin = 0 then .error .overflow else int (d.tdiv b.bin)

/-- `_receive_msg`: a packet in the range is counted. -/
def receiveMsg (length : UInt64) (b : CDFGenerator) : Except CDFFault CDFGenerator := do
  let pktSize := toInt length.toNat
  if pktSize ≥ b.min ∧ pktSize ≤ b.max then
    let i ← b.index pktSize
    return { b with histo := ← increment b.histo i }
  else return b

/-- The loop of `cdf_computation` from the value `i` on, `sum` being the value before. -/
def cdfFrom (noise : Nat → Int) (epsilon : ℚ) (i : Nat) (sum : Int) : List Int → Except CDFFault (List Int)
  | [] => .ok []
  | h :: histo => do
    let v ← int (sum + h)
    let v ← if epsilon > 0 then int (v + noise i) else .ok v
    return v :: (← cdfFrom noise epsilon (i + 1) v histo)

/-- `cdf_computation` -/
def cdfComputation (noise : Nat → Int) (histo cdf : List Int) (epsilon : ℚ) : Except CDFFault (List Int) := do
  let values ← cdfFrom noise epsilon 0 0 histo
  if histo.length ≤ cdf.length then return values ++ cdf.drop histo.length else .error .outOfBounds

/-- What is printed, and the block afterwards. -/
def handleTimer (noise : Nat → Int) (b : CDFGenerator) : Except CDFFault (List Int × CDFGenerator) := do
  let cdf ← cdfComputation noise b.histo b.cdf b.epsilon
  let histo ← histoSetZero b.min b.max b.bin
  return (cdf.take b.histo.length, { b with histo := histo, cdf := cdf })

end CDFGenerator

end Blockmon
