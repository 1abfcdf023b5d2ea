import Mathlib.Algebra.Order.Ring.Rat
import Mathlib.Algebra.Field.Rat
import Blockmon.Cusum
import Blockmon.Lib.LastValues
import Blockmon.Lib.SuffixSum

/-!
# What a change detection has summed up

The score of a value is how far it lies above the mean of the last values, less an offset. The sum that is compared with the threshold is the
greatest one that the scores since some moment after the last reset add up to.
-/

namespace Blockmon.Csm

/-- The public members. -/
inductive CusumCall (K : Type) where
  | check (value : K)
  | reset

namespace Cusum

variable {K σ : Type} [ExactDouble K] [LinearOrder K] (S : Score K σ)

/-- A call, without its answer. -/
def call (c : Cusum K σ) : CusumCall K → Cusum K σ
  | .check value => (c.check S value).2
  | .reset => c.reset S

/-- The calls in their order. -/
def run (c : Cusum K σ) (calls : List (CusumCall K)) : Cusum K σ := calls.foldl (call S) c

omit [LinearOrder K] [ExactDouble K] in
/-- The values since the last reset, after one more call. -/
def sinceReset (values : List K) : CusumCall K → List K
  | .check value => values ++ [value]
  | .reset => []

omit [LinearOrder K] [ExactDouble K] in
/-- The values since the last reset. -/
def checked (calls : List (CusumCall K)) : List K := calls.foldl sinceReset []

end Cusum

/-! ## What the scores are -/

section Scores

variable {K : Type} [ExactDouble K] (window : Nat) (offset : K)

/-- The mean of the last values, or the value itself if there are none. -/
def meanOf (before : List K) (value : K) : K :=
  if before = [] then value else (before.rtake window).sum / ((before.rtake window).length : K)

/-- The score of a value that comes after others. -/
def scoreOf (before : List K) (value : K) : K := value - meanOf window before value - offset

/-- The scores of the values, each after those before it. -/
def scoresOf (values : List K) : List K := values.mapIdx fun i value => scoreOf window offset (values.take i) value

/-- The last value has the last score. -/
theorem scoresOf_snoc (values : List K) (value : K) :
    scoresOf window offset (values ++ [value]) = scoresOf window offset values ++ [scoreOf window offset values value] := by
  rw [scoresOf, scoresOf, List.mapIdx_append, List.mapIdx_singleton, Nat.zero_add, List.take_left]
  congr 1
  refine List.mapIdx_eq_mapIdx_iff.mpr fun i hi => ?_
  rw [List.take_append_of_le_length (Nat.le_of_lt hi)]

end Scores

/-! ## The buffer and the sum -/

namespace CusumNP

section Buffer

variable {K : Type} {c : CusumNP K} {values : List K}

/-- The array holds the last of these values. -/
def Follows (c : CusumNP K) (values : List K) : Prop :=
  LastValues.Holds c.meanWindow.toNat c.lastValues.toList c.lastValueIndex.toNat c.lastValuesCount.toNat values

/-- A new score has seen no value. -/
theorem follows_new (memory : Nat → K) {meanWindow : UInt32} (offset : K) (hwindow : 0 < meanWindow) :
    Follows (new memory meanWindow offset hwindow) [] :=
  LastValues.Holds.nil Vector.length_toList

/-- A score that is reset has seen no value. -/
theorem follows_resetScore (c : CusumNP K) : Follows c.resetScore [] := LastValues.Holds.nil Vector.length_toList

/-- The index of the next value, in the window. -/
theorem toNat_nextIndex (c : CusumNP K) : c.nextIndex.toNat = (c.lastValueIndex.toNat + 1) % c.meanWindow.toNat := by
  have hlt := UInt32.lt_iff_toNat_lt.mp c.lastValueIndex_lt
  have hwindow := c.meanWindow.toNat_lt
  rw [nextIndex, UInt32.toNat_mod, UInt32.toNat_add, UInt32.toNat_one, Nat.mod_eq_of_lt (show c.lastValueIndex.toNat + 1 < 2 ^ 32 by omega)]

variable [ExactDouble K]

/-- A value is the last one that the score has seen. -/
theorem Follows.computeScore (h : Follows c values) (value : K) : Follows (c.computeScore value).2 (values ++ [value]) := by
  have hlt := UInt32.lt_iff_toNat_lt.mp c.lastValueIndex_lt
  have hwrite := LastValues.Holds.write h (by omega) value
  rw [← toNat_nextIndex, ← toNat_nextCount] at hwrite
  rw [Follows, CusumNP.computeScore]
  rwa [Vector.toList_setIfInBounds]

/-- The mean is that of the values in the window. -/
theorem Follows.mean_eq (h : Follows c values) (value : K) : c.mean value = meanOf c.meanWindow.toNat values value := by
  have hlt := UInt32.lt_iff_toNat_lt.mp c.lastValueIndex_lt
  have hcount := h.count_eq
  have hlen := LastValues.length_rtake (n := c.meanWindow.toNat) values
  rw [mean, meanOf]
  by_cases hnil : values = []
  · have hzero : ¬c.lastValuesCount > 0 := by
      intro hpos
      have hpos' := UInt32.lt_iff_toNat_lt.mp hpos
      rw [hcount, hnil, List.length_nil, Nat.zero_min] at hpos'
      exact Nat.lt_irrefl _ hpos'
    rw [if_pos hnil, if_neg hzero]
  · have hpos : c.lastValuesCount > 0 := by
      have hlen' := List.length_pos_iff.mpr hnil
      have hzero : (0 : UInt32).toNat = 0 := rfl
      refine UInt32.lt_iff_toNat_lt.mpr ?_
      rw [hcount, hzero]
      omega
    rw [if_neg hnil, if_pos hpos, hlen, ← hcount, ← List.sum_eq_foldl, h.perm.sum_eq]

/-- The score is that of the value after those before it. -/
theorem Follows.score_eq (h : Follows c values) (value : K) :
    (c.computeScore value).1 = scoreOf c.meanWindow.toNat c.offset values value := by
  rw [CusumNP.computeScore, scoreOf, h.mean_eq]

end Buffer

end CusumNP

namespace Cusum

variable {K : Type} [ExactDouble K] [LinearOrder K] {c : Cusum K (CusumNP K)} {threshold : K} {window : UInt32} {offset : K}
  {values : List K} {memory : Nat → Nat → K}

/-- The state after these values since the last reset. -/
structure Tracks (threshold : K) (window : UInt32) (offset : K) (values : List K) (c : Cusum K (CusumNP K)) : Prop where
  threshold_eq : c.threshold = threshold
  window_eq : c.score.meanWindow = window
  offset_eq : c.score.offset = offset
  follows : c.score.Follows values
  greatest : IsGreatest (SuffixSum.sums (scoresOf window.toNat offset values)) c.currentSum

/-- The score that a detector computes next. -/
theorem Tracks.score_eq (h : Tracks threshold window offset values c) (value : K) :
    (c.score.computeScore value).1 = scoreOf window.toNat offset values value := by
  rw [h.follows.score_eq, h.window_eq, h.offset_eq]

/-- After a reset the detector has checked no value. -/
theorem tracks_reset (h : Tracks threshold window offset values c) : Tracks threshold window offset [] (c.reset (CusumNP.score memory)) where
  threshold_eq := h.threshold_eq
  window_eq := h.window_eq
  offset_eq := h.offset_eq
  follows := c.score.follows_resetScore
  greatest := SuffixSum.isGreatest_nil

variable [IsStrictOrderedRing K]

/-- After a check the value is the last one. -/
theorem tracks_check (h : Tracks threshold window offset values c) (value : K) :
    Tracks threshold window offset (values ++ [value]) (c.check (CusumNP.score memory) value).2 where
  threshold_eq := h.threshold_eq
  window_eq := h.window_eq
  offset_eq := h.offset_eq
  follows := h.follows.computeScore value
  greatest := by
    have hnext := SuffixSum.isGreatest_next h.greatest (scoreOf window.toNat offset values value)
    rw [← scoresOf_snoc, ← h.score_eq] at hnext
    exact hnext

/-- A call keeps the detector with its values. -/
theorem tracks_call (h : Tracks threshold window offset values c) (call : CusumCall K) :
    Tracks threshold window offset (sinceReset values call) (c.call (CusumNP.score memory) call) := by
  cases call with
  | check value => exact tracks_check h value
  | reset => exact tracks_reset h

/-- So do the calls. -/
theorem tracks_run (h : Tracks threshold window offset values c) (calls : List (CusumCall K)) :
    Tracks threshold window offset (calls.foldl sinceReset values) (c.run (CusumNP.score memory) calls) := by
  induction calls generalizing c values with
  | nil => exact h
  | cons call calls ih => exact ih (tracks_call h call)

/-- The alarm is what the sum after the value says. -/
theorem check_eq_true_iff (h : Tracks threshold window offset values c) (value : K) :
    (c.check (CusumNP.score memory) value).1 = true ↔
      ∃ sum, IsGreatest (SuffixSum.sums (scoresOf window.toNat offset (values ++ [value]))) sum ∧ threshold ≤ sum := by
  have hafter : Tracks threshold window offset (values ++ [value]) (c.check (CusumNP.score memory) value).2 := tracks_check h value
  have hcheck : (c.check (CusumNP.score memory) value).1 = true ↔ threshold ≤ (c.check (CusumNP.score memory) value).2.currentSum := by
    rw [← h.threshold_eq]
    exact decide_eq_true_iff
  rw [hcheck]
  refine ⟨fun hle => ⟨_, hafter.greatest, hle⟩, ?_⟩
  rintro ⟨sum, hsum, hle⟩
  rwa [hafter.greatest.unique hsum]

end Cusum

open Cusum

/-- After any calls the sum is the greatest of the sums of the last scores since the reset, and a check alarms when the greatest one reaches the
threshold. -/
theorem cusum_suffix_sum {K : Type} [ExactDouble K] [LinearOrder K] [IsStrictOrderedRing K] (memory : Nat → K) (memories : Nat → Nat → K)
    {window : UInt32} (hwindow : 0 < window) (offset threshold : K) (calls : List (CusumCall K)) :
    let c := (new threshold (CusumNP.new memory window offset hwindow)).run (CusumNP.score memories) calls
    (∀ value, (c.score.computeScore value).1 = scoreOf window.toNat offset (checked calls) value) ∧
      IsGreatest (SuffixSum.sums (scoresOf window.toNat offset (checked calls))) c.currentSum ∧
      ∀ value, (c.check (CusumNP.score memories) value).1 = true ↔
        ∃ sum, IsGreatest (SuffixSum.sums (scoresOf window.toNat offset (checked calls ++ [value]))) sum ∧ threshold ≤ sum := by
  intro c
  have hnew : Tracks threshold window offset [] (new threshold (CusumNP.new memory window offset hwindow)) :=
    ⟨rfl, rfl, rfl, CusumNP.follows_new memory offset hwindow, SuffixSum.isGreatest_nil⟩
  have hc : Tracks threshold window offset (checked calls) c := tracks_run hnew calls
  exact ⟨hc.score_eq, hc.greatest, check_eq_true_iff hc⟩

/-- Two values, the second ten above the first. -/
theorem cusum_suffix_sum_two :
    let c := (new (5 : ℚ) (CusumNP.new (fun _ => 0) 3 1 (by decide))).run (CusumNP.score fun _ _ => 0) [.check 0, .check 10]
    (∀ value, (c.score.computeScore value).1 = scoreOf (3 : UInt32).toNat 1 (checked [.check 0, .check 10]) value) ∧
      IsGreatest (SuffixSum.sums (scoresOf (3 : UInt32).toNat 1 (checked [.check 0, .check 10]))) c.currentSum ∧
      ∀ value, (c.check (CusumNP.score fun _ _ => 0) value).1 = true ↔
        ∃ sum, IsGreatest (SuffixSum.sums (scoresOf (3 : UInt32).toNat 1 (checked [.check 0, .check 10] ++ [value]))) sum ∧ 5 ≤ sum :=
  cusum_suffix_sum _ _ (by decide) _ _ _

end Blockmon.Csm

/-!
## Components that miss a sample

A check ends at the first component that raises an alarm, and the components behind it do not see their samples. If that makes no difference to
them, each component is in the state of a change detection of its own, and a check returns the first component in alarm.
-/

namespace Blockmon.Csm

/-- The public members. -/
inductive MultiCall (K : Type) where
  | check (value : Nat → K)
  | reset

namespace MultiCall

variable {K : Type}

/-- What the call is for one of the components. -/
def entry (j : Nat) : MultiCall K → CusumCall K
  | check value => .check (value j)
  | reset => .reset

end MultiCall

namespace MultiCusum

variable {K σ : Type} [ExactDouble K] [LinearOrder K] (S : Score K σ)

/-- A call, without its answer. -/
def call (m : MultiCusum K σ) : MultiCall K → MultiCusum K σ
  | .check value => (m.check S value).2
  | .reset => m.reset S

/-- The calls in their order. -/
def run (m : MultiCusum K σ) (calls : List (MultiCall K)) : MultiCusum K σ := calls.foldl (call S) m

section Single

variable (c : Cusum K σ)

/-- A change detection of its own, fed with the entries `j`. -/
def single (j : Nat) (calls : List (MultiCall K)) : Cusum K σ := (c.clone S j).run S (calls.map (MultiCall.entry j))

/-- The alarm of the entry `j`. -/
def Alarms (calls : List (MultiCall K)) (value : Nat → K) (j : Nat) : Prop := ((single S c j calls).check S (value j)).1 = true

/-- The first component in alarm, or none. -/
def Verdict (count : Nat) (calls : List (MultiCall K)) (value : Nat → K) (r : Int) : Prop :=
  (∃ j < count, r = j ∧ Alarms S c calls value j ∧ ∀ i < j, ¬Alarms S c calls value i) ∨ (r = -1 ∧ ∀ j < count, ¬Alarms S c calls value j)

/-- At every point of the run, each component is in the state of its own change detection, and a check that follows returns the first one in
alarm. -/
def Independent (count : Nat) (calls : List (MultiCall K)) : Prop :=
  ∀ before, before <+: calls → (∀ j < count, ((new S c count).run S before).cusum[j]? = some (single S c j before)) ∧
    ∀ value, before ++ [.check value] <+: calls → Verdict S c count before value (((new S c count).run S before).check S value).1

/-- No component in alarm keeps from a later one a sample that would have changed its state. -/
def Harmless (count : Nat) (calls : List (MultiCall K)) : Prop :=
  ∀ before value, before ++ [.check value] <+: calls → ∀ i k, i < k → k < count → Alarms S c before value i →
    ((single S c k before).check S (value k)).2 = single S c k before

end Single

/-! ## A check -/

section Check

variable {S} {cs : List (Cusum K σ)} {c : Cusum K σ} {value : Nat → K} {i k : Nat}

variable (S value) in
/-- The component `k` raises an alarm, when the first component reads the entry `i`. -/
def AlarmAt (i : Nat) (cs : List (Cusum K σ)) (k : Nat) : Prop := ∃ c, cs[k]? = some c ∧ (Cusum.check S (value (i + k)) c).1 = true

/-- There is no alarm without detectors. -/
@[simp] theorem alarmAt_nil : ¬AlarmAt S value i [] k := by simp [AlarmAt]

/-- The first detector alarms at the first value. -/
@[simp] theorem alarmAt_zero : AlarmAt S value i (c :: cs) 0 ↔ (c.check S (value i)).1 = true := by simp [AlarmAt]

/-- The other detectors see the values from the second on. -/
@[simp] theorem alarmAt_succ : AlarmAt S value i (c :: cs) (k + 1) ↔ AlarmAt S value (i + 1) cs k := by
  simp [AlarmAt, Nat.add_assoc, Nat.add_comm 1 k]

variable (S value) in
/-- A component sees its sample if none before it raises an alarm. -/
theorem getElem?_checkFrom (i : Nat) {j : Nat} (hj : cs[j]? = some c) :
    ((∃ k < j, AlarmAt S value i cs k) → (checkFrom S value i cs).2[j]? = some c) ∧
      ((∀ k < j, ¬AlarmAt S value i cs k) → (checkFrom S value i cs).2[j]? = some (c.check S (value (i + j))).2) := by
  induction cs generalizing i j with
  | nil => simp at hj
  | cons c₀ cs ih =>
    rw [checkFrom]
    cases j with
    | zero =>
      cases hj
      refine ⟨fun ⟨k, hk, _⟩ => absurd hk (Nat.not_lt_zero k), fun _ => ?_⟩
      split <;> rfl
    | succ j =>
      rw [List.getElem?_cons_succ] at hj
      obtain ⟨hmisses, hsees⟩ := ih (i + 1) hj
      by_cases halarm : (c₀.check S (value i)).1 = true
      · rw [if_pos halarm]
        exact ⟨fun _ => hj, fun hnone => absurd (alarmAt_zero.mpr halarm) (hnone 0 (Nat.succ_pos j))⟩
      · rw [if_neg halarm, Nat.add_comm j 1, ← Nat.add_assoc, Nat.add_comm 1 j]
        constructor
        · rintro ⟨k, hk, hat⟩
          cases k with
          | zero => exact absurd (alarmAt_zero.mp hat) halarm
          | succ k => exact hmisses ⟨k, by omega, alarmAt_succ.mp hat⟩
        · intro hnone
          refine hsees fun k hk hat => ?_
          exact hnone (k + 1) (by omega) (alarmAt_succ.mpr hat)

/-- What is returned. -/
theorem checkFrom_result (S : Score K σ) (cs : List (Cusum K σ)) (value : Nat → K) (i : Nat) :
    (∃ j, (checkFrom S value i cs).1 = (i + j : Nat) ∧ AlarmAt S value i cs j ∧ ∀ k < j, ¬AlarmAt S value i cs k) ∨
      ((checkFrom S value i cs).1 = -1 ∧ ∀ k, ¬AlarmAt S value i cs k) := by
  induction cs generalizing i with
  | nil => exact Or.inr ⟨rfl, fun k => alarmAt_nil⟩
  | cons c₀ cs ih =>
    rw [checkFrom]
    by_cases halarm : (c₀.check S (value i)).1 = true
    · rw [if_pos halarm]
      exact Or.inl ⟨0, rfl, alarmAt_zero.mpr halarm, fun k hk => absurd hk (Nat.not_lt_zero k)⟩
    · have hfirst : ¬AlarmAt S value i (c₀ :: cs) 0 := mt alarmAt_zero.mp halarm
      rw [if_neg halarm]
      rcases ih (i + 1) with ⟨j, hresult, hat, hbefore⟩ | ⟨hresult, hnone⟩
      · refine Or.inl ⟨j + 1, ?_, alarmAt_succ.mpr hat, fun k hk => ?_⟩
        · rw [hresult, Nat.add_right_comm, Nat.add_assoc]
        · cases k with
          | zero => exact hfirst
          | succ k => exact mt alarmAt_succ.mp (hbefore k (by omega))
      · refine Or.inr ⟨hresult, fun k => ?_⟩
        cases k with
        | zero => exact hfirst
        | succ k => exact mt alarmAt_succ.mp (hnone k)

end Check

/-! ## Runs -/

section Runs

variable {S} {c : Cusum K σ} {count : Nat} {before : List (MultiCall K)} {m : MultiCusum K σ} {value : Nat → K}

/-- The last call is the last step. -/
theorem run_snoc (m : MultiCusum K σ) (before : List (MultiCall K)) (x : MultiCall K) : m.run S (before ++ [x]) = (m.run S before).call S x := by
  simp [run]

/-- The same for one detector alone. -/
theorem single_snoc (c : Cusum K σ) (j : Nat) (before : List (MultiCall K)) (x : MultiCall K) :
    single S c j (before ++ [x]) = (single S c j before).call S (x.entry j) := by
  simp [single, Cusum.run]

/-- Each component is in the state of its own change detection. -/
structure Agrees (S : Score K σ) (c : Cusum K σ) (count : Nat) (before : List (MultiCall K)) (m : MultiCusum K σ) : Prop where
  length_eq : m.cusum.length = count
  getElem?_eq : ∀ j < count, m.cusum[j]? = some (single S c j before)

/-- New detectors agree with detectors of their own. -/
theorem agrees_new : Agrees S c count [] (new S c count) where
  length_eq := by simp [new]
  getElem?_eq j hj := by simp [new, hj, single, Cusum.run]

/-- A reset keeps the agreement. -/
theorem Agrees.reset (h : Agrees S c count before m) : Agrees S c count (before ++ [.reset]) (m.reset S) where
  length_eq := by simp [MultiCusum.reset, h.length_eq]
  getElem?_eq j hj := by
    rw [MultiCusum.reset, List.getElem?_map, h.getElem?_eq j hj, single_snoc]
    rfl

/-- A check changes no number of detectors. -/
theorem length_checkFrom (S : Score K σ) (value : Nat → K) (i : Nat) (cs : List (Cusum K σ)) : (checkFrom S value i cs).2.length = cs.length := by
  induction cs generalizing i with
  | nil => rfl
  | cons c cs ih =>
    rw [checkFrom]
    split
    · rfl
    · simp [ih]

/-- A detector alarms just when the one of its own does. -/
theorem Agrees.alarmAt_iff (h : Agrees S c count before m) (value : Nat → K) (j : Nat) :
    AlarmAt S value 0 m.cusum j ↔ j < count ∧ Alarms S c before value j := by
  rw [AlarmAt, Nat.zero_add]
  constructor
  · rintro ⟨c', hc', halarm⟩
    have hj : j < count := by
      rw [← h.length_eq]
      exact (List.getElem?_eq_some_iff.mp hc').1
    rw [h.getElem?_eq j hj] at hc'
    cases hc'
    exact ⟨hj, halarm⟩
  · rintro ⟨hj, halarm⟩
    exact ⟨_, h.getElem?_eq j hj, halarm⟩

/-- What a check returns. -/
theorem Agrees.verdict (h : Agrees S c count before m) (value : Nat → K) : Verdict S c count before value (m.check S value).1 := by
  rcases checkFrom_result S m.cusum value 0 with ⟨j, hresult, hat, hbefore⟩ | ⟨hresult, hnone⟩
  · obtain ⟨hj, halarm⟩ := (h.alarmAt_iff value j).mp hat
    refine Or.inl ⟨j, hj, ?_, halarm, fun i hi halarm' => ?_⟩
    · rw [Nat.zero_add] at hresult
      exact hresult
    · exact hbefore i hi ((h.alarmAt_iff value i).mpr ⟨by omega, halarm'⟩)
  · refine Or.inr ⟨hresult, fun j hj halarm => ?_⟩
    exact hnone j ((h.alarmAt_iff value j).mpr ⟨hj, halarm⟩)

/-- After a check the components agree if those that have missed their samples would be as they are. -/
theorem Agrees.check_iff (h : Agrees S c count before m) (value : Nat → K) :
    Agrees S c count (before ++ [.check value]) (m.check S value).2 ↔
      ∀ i k, i < k → k < count → Alarms S c before value i → ((single S c k before).check S (value k)).2 = single S c k before := by
  have hafter : ∀ k, single S c k (before ++ [.check value]) = ((single S c k before).check S (value k)).2 := fun k => single_snoc c k before _
  constructor
  · intro hagrees i k hik hk halarm
    have hmisses := (getElem?_checkFrom S value 0 (h.getElem?_eq k hk)).1 ⟨i, hik, (h.alarmAt_iff value i).mpr ⟨by omega, halarm⟩⟩
    have hsame := hagrees.getElem?_eq k hk
    rw [hafter] at hsame
    exact (Option.some.inj (hmisses.symm.trans hsame)).symm
  · intro hharmless
    refine ⟨(length_checkFrom S value 0 m.cusum).trans h.length_eq, fun k hk => ?_⟩
    obtain ⟨hmisses, hsees⟩ := getElem?_checkFrom S value 0 (h.getElem?_eq k hk)
    rw [hafter]
    by_cases halarm : ∃ i < k, AlarmAt S value 0 m.cusum i
    · obtain ⟨i, hik, hat⟩ := halarm
      rw [hharmless i k hik hk ((h.alarmAt_iff value i).mp hat).2]
      exact hmisses ⟨i, hik, hat⟩
    · rw [Nat.zero_add] at hsees
      exact hsees fun i hik hat => halarm ⟨i, hik, hat⟩

/-- Harmless calls keep the agreement throughout. -/
theorem Harmless.agrees {calls : List (MultiCall K)} (h : Harmless S c count calls) :
    ∀ before, before <+: calls → Agrees S c count before ((new S c count).run S before) := by
  intro before
  induction before using List.reverseRecOn with
  | nil => exact fun _ => agrees_new
  | append_singleton before x ih =>
    intro hprefix
    have hbefore := ih ((List.prefix_append _ _).trans hprefix)
    rw [run_snoc]
    cases x with
    | reset => exact hbefore.reset
    | check value => exact (hbefore.check_iff value).mpr (h before value hprefix)

end Runs

/-- The number of detectors stays. -/
theorem length_run (S : Score K σ) (m : MultiCusum K σ) (calls : List (MultiCall K)) : (m.run S calls).cusum.length = m.cusum.length := by
  induction calls using List.reverseRecOn with
  | nil => rfl
  | append_singleton before x ih =>
    rw [run_snoc, ← ih]
    cases x with
    | reset => simp [call, reset]
    | check value => exact length_checkFrom S value 0 _

end MultiCusum

open MultiCusum

/-- The detectors are independent just when no alarm keeps a later one from a value that would change it. -/
theorem multiCusum_independent_iff {K σ : Type} [ExactDouble K] [LinearOrder K] (S : Score K σ) (c : Cusum K σ) (count : Nat)
    (calls : List (MultiCall K)) : Independent S c count calls ↔ Harmless S c count calls := by
  constructor
  · intro h before value hprefix
    have hagrees : ∀ before, before <+: calls → Agrees S c count before ((new S c count).run S before) := by
      intro before hbefore
      refine ⟨?_, (h before hbefore).1⟩
      rw [length_run]
      exact agrees_new.length_eq
    have hafter := hagrees _ hprefix
    rw [run_snoc] at hafter
    exact ((hagrees before ((List.prefix_append _ _).trans hprefix)).check_iff value).mp hafter
  · intro h before hprefix
    have hagrees := h.agrees before hprefix
    exact ⟨hagrees.getElem?_eq, fun value _ => hagrees.verdict value⟩

/-- The second component misses the sample that raises an alarm in the first, and its sum stays at zero. -/
theorem multiCusum_misses :
    ¬Independent (CusumNP.score fun _ _ => 0) (Cusum.new (1 : ℚ) (CusumNP.new (fun _ => 0) 2 0 (by decide))) 2
      [.check fun _ => 0, .check fun _ => 5] := by
  intro h
  have hsecond := (h _ (List.prefix_refl _)).1 1 (by decide)
  have hsum := congrArg (Option.map Cusum.currentSum) hsecond
  revert hsum
  decide +kernel

end Blockmon.Csm
