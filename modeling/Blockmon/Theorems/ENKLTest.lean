import Blockmon.Lemmas.ENKLTest
import Blockmon.Theorems.RSIA
import Mathlib.Algebra.Order.Ring.Rat
import Mathlib.Algebra.Field.Rat
import Mathlib.Algebra.Ring.Parity
import Mathlib.Data.Nat.Prime.Basic

/-!
# The acceptance region

The bounds of the region are two percentiles of the divergences in the reference set. The interpolation looks one element further than the last rank
that is not above `p`; for 1 and 99 that would be behind the vector only for a vector of fifty elements, and no number of pairs is fifty.
-/

namespace Blockmon.StatAD

namespace ADTest

open Faults Interpolation

/-! ## The number of the pairs -/

section Pairs

variable {n m : Nat} (hm : 2 * m = n * (n - 1))

include hm

/-- There are never just fifty pairs. -/
theorem pairs_ne_fifty : m ≠ 50 := by
  intro hfifty
  rcases Nat.lt_or_ge n 11 with hless | hmore
  · have hle : n * (n - 1) ≤ 10 * 9 := Nat.mul_le_mul (by omega) (by omega)
    omega
  · have hle : 11 * 10 ≤ n * (n - 1) := Nat.mul_le_mul hmore (by omega)
    omega

/-- One of two neighbours is odd, and the other one too small. -/
theorem pairs_mod_pos (hn : 2 ≤ n) (hlt : n < 2 ^ 32) : 0 < m % 2 ^ 32 := by
  by_contra hzero
  have hdvd : 2 ^ 33 ∣ n * (n - 1) := by
    obtain ⟨q, hq⟩ := Nat.dvd_of_mod_eq_zero (Nat.eq_zero_of_not_pos hzero)
    exact ⟨q, by omega⟩
  rcases Nat.even_or_odd n with heven | hodd
  · have hodd : Odd (n - 1) := Nat.Even.sub_odd (by omega) heven odd_one
    have hcoprime : Nat.Coprime (2 ^ 33) (n - 1) := Nat.Coprime.pow_left 33 (Nat.coprime_two_left.mpr hodd)
    have hle := Nat.le_of_dvd (by omega) (hcoprime.dvd_of_dvd_mul_right hdvd)
    omega
  · have hcoprime : Nat.Coprime (2 ^ 33) n := Nat.Coprime.pow_left 33 (Nat.coprime_two_left.mpr hodd)
    have hle := Nat.le_of_dvd (by omega) (hcoprime.dvd_of_dvd_mul_left hdvd)
    omega

end Pairs

/-! ## The bounds -/

section Bounds

variable {K : Type} [ExactDouble K] [LinearOrder K] [IsStrictOrderedRing K]

/-- A higher percentile has no lower place. -/
theorem place_mono {N p q : UInt32} (h : p.toNat ≤ q.toNat) : (place N p : K) ≤ place N q := by
  have hcast : (p.toNat : K) ≤ q.toNat := Nat.cast_le.mpr h
  have hscale : 0 ≤ (N.toNat : K) / (100 : Nat) := div_nonneg (Nat.cast_nonneg _) (by norm_num)
  rw [place, place]
  exact sub_le_sub_right (mul_le_mul_of_nonneg_left hcast hscale) _

/-- Which vectors have a `p`-th percentile: those that are not empty, but for the one size for which `p` is the last rank, if the size is not cut. -/
theorem percentileOfArray_ok_iff {vec : List K} {p : UInt32} (hp : p.toNat ≤ 100) :
    (∃ y, percentileOfArray vec p = .ok y) ↔
      0 < (size vec).toNat ∧ ((size vec).toNat * (100 - p.toNat) = 50 → (size vec).toNat < vec.length) := by
  constructor
  · rintro ⟨y, hy⟩
    have hN : 0 < (size vec).toNat := by
      by_contra hzero
      rw [percentileOfArray_of_empty (Nat.eq_zero_of_not_pos hzero)] at hy
      cases hy
    refine ⟨hN, fun hfifty => ?_⟩
    by_contra hlong
    rw [percentileOfArray_fault hN ((place_eq_last_iff hN hp).mpr hfifty) (Nat.not_lt.mp hlong)] at hy
    cases hy
  · rintro ⟨hN, hnext⟩
    obtain ⟨y, hy, -⟩ := percentileOfArray_value hN fun hplace => hnext ((place_eq_last_iff hN hp).mp hplace)
    exact ⟨y, hy⟩

/-- The vector is longer than its size if that is cut. -/
theorem percentile_reads {vec : List K} {p : UInt32} {n : Nat} (hm : 2 * vec.length = n * (n - 1)) (hN : 0 < (size vec).toNat) (hp : p = 1 ∨ p = 99)
    (hplace : (place (size vec) p : K) = (((size vec).toNat - 1 : Nat) : K)) : (size vec).toNat < vec.length := by
  have hle := size_le vec
  have hfifty := pairs_ne_fifty hm
  rcases hp with rfl | rfl
  · have h := (place_eq_last_iff hN (by decide)).mp hplace
    change _ * 99 = 50 at h
    omega
  · have h := (place_eq_last_iff hN (by decide)).mp hplace
    change _ * 1 = 50 at h
    omega

/-- The percentiles of the divergences of the pairs. -/
theorem percentiles_of_pairs {vec : List K} {n : Nat} (hm : 2 * vec.length = n * (n - 1)) (hn : 2 ≤ n) (hlt : n < 2 ^ 32) :
    ∃ l u least greatest, percentileOfArray vec 1 = .ok l ∧ percentileOfArray vec 99 = .ok u ∧
      IsLeast { d | d ∈ vec } least ∧ IsGreatest { d | d ∈ vec } greatest ∧ least ≤ l ∧ l ≤ u ∧ u ≤ greatest := by
  have hN : 0 < (size vec).toNat := by
    rw [size, UInt32.toNat_ofNat']
    exact pairs_mod_pos hm hn hlt
  have hle := size_le vec
  have hne : vec ≠ [] := List.length_pos_iff.mp (by omega)
  have hmono := sorted_mono vec
  obtain ⟨l, hl, hlvalue⟩ := percentileOfArray_value (p := 1) hN (percentile_reads hm hN (Or.inl rfl))
  obtain ⟨u, hu, huvalue⟩ := percentileOfArray_value (p := 99) hN (percentile_reads hm hN (Or.inr rfl))
  refine ⟨l, u, _, _, hl, hu, isLeast_sorted hne, isGreatest_sorted hne, hlvalue.first_le hmono, ?_, ?_⟩
  · exact hlvalue.mono hmono huvalue (place_mono (by decide))
  · exact (huvalue.le_last hmono).trans (hmono (by omega))

end Bounds

/-! ## The test -/

section Test

variable {K : Type} [ExactDouble K] [LinearOrder K] (closestDistance : Nat → Nat → K) (distVec : List K) {refSetIIISize : UInt32}
  {keepIndex : List Nat}

/-- What the test leaves for these bounds. -/
def testResult (keepIndex : List Nat) (l u : K) : TestResult K where
  lENKLDBase := l
  uENKLDBase := u
  meanENKLDBase := (pairs closestDistance keepIndex).sum / ((pairs closestDistance keepIndex).length : K)
  currentENKLD := (keepIndex.map fun k => distVec.getD k 0).sum / (keepIndex.length : K)
  anomalyCode := if (keepIndex.map fun k => distVec.getD k 0).sum / (keepIndex.length : K) < u then NOT_ANOMALOUS else ANOMALOUS

variable {closestDistance distVec}

/-- The loop of `vector_mean` does not get through more divergences than an index can count. -/
theorem enklTest_eq {l u : K} (hkeep : keepIndex.length = refSetIIISize.toNat) (hdist : ∀ k ∈ keepIndex, k < distVec.length)
    (hl : percentileOfArray (pairs closestDistance keepIndex) 1 = .ok l) (hu : percentileOfArray (pairs closestDistance keepIndex) 99 = .ok u) :
    enklTest refSetIIISize closestDistance distVec keepIndex =
      if (pairs closestDistance keepIndex).length < 2 ^ 32 then .ok (testResult closestDistance distVec keepIndex l u) else .error .noEnd := by
  have hfits : keepIndex.length < 2 ^ 32 := hkeep ▸ refSetIIISize.toNat_lt
  have hfits' : (keepIndex.map fun k => distVec.getD k 0).length < 2 ^ 32 := by rwa [List.length_map]
  have hlower : (100 - 99 : UInt32) = 1 := by decide
  rw [enklTest, closestRows_eq closestDistance hkeep, ok_bind]
  simp only [closestDistVec_matrix, vectorMean]
  split_ifs with hlong
  · simp only [overVector_of_fits hlong, ok_bind, hlower, hl, hu, overVector_of_fits hfits, mapM_element 0 hdist, overVector_of_fits hfits',
      List.length_map, testResult]
  · rw [overVector_of_long hlong, error_bind]

variable [IsStrictOrderedRing K] (closestDistance distVec)

/-- Both percentiles of the divergences in a reference set of two elements at least are found, are in their order, and are between the least
divergence and the greatest one. The test leaves them behind its pointers unless it does not end. -/
theorem enklTest_bounds (hsize : 2 ≤ refSetIIISize) (hkeep : keepIndex.length = refSetIIISize.toNat) :
    ∃ closestDist vec l u least greatest,
      closestRows refSetIIISize closestDistance keepIndex = .ok closestDist ∧ closestDistVec 0 closestDist = vec ∧
      2 * vec.length = keepIndex.length * (keepIndex.length - 1) ∧
      percentileOfArray vec 1 = .ok l ∧ percentileOfArray vec 99 = .ok u ∧
      IsLeast { d | d ∈ vec } least ∧ IsGreatest { d | d ∈ vec } greatest ∧ least ≤ l ∧ l ≤ u ∧ u ≤ greatest ∧
      ((∀ k ∈ keepIndex, k < distVec.length) → enklTest refSetIIISize closestDistance distVec keepIndex =
        if vec.length < 2 ^ 32 then .ok (testResult closestDistance distVec keepIndex l u) else .error .noEnd) := by
  have hn : 2 ≤ keepIndex.length := hkeep ▸ UInt32.le_iff_toNat_le.mp hsize
  have hlt : keepIndex.length < 2 ^ 32 := hkeep ▸ refSetIIISize.toNat_lt
  have hm := two_mul_length_pairs closestDistance keepIndex
  obtain ⟨l, u, least, greatest, hl, hu, hleast, hgreatest, hmin, hlu, hmax⟩ := percentiles_of_pairs hm hn hlt
  exact ⟨_, _, l, u, least, greatest, closestRows_eq closestDistance hkeep, closestDistVec_matrix closestDistance keepIndex, hm, hl, hu,
    hleast, hgreatest, hmin, hlu, hmax, fun hdist => enklTest_eq hkeep hdist hl hu⟩

end Test

/-- Three elements in the reference set, and two others. -/
theorem enklTest_bounds_threeElements : ∃ vec : List Rat, ∃ l u least greatest,
    percentileOfArray vec 1 = .ok l ∧ percentileOfArray vec 99 = .ok u ∧
    IsLeast { d | d ∈ vec } least ∧ IsGreatest { d | d ∈ vec } greatest ∧ least ≤ l ∧ l ≤ u ∧ u ≤ greatest ∧
    enklTest 3 (closestDist distance threeElements) [0, 1, 3] [0, 1, 2] =
      if vec.length < 2 ^ 32 then .ok (testResult (closestDist distance threeElements) [0, 1, 3] [0, 1, 2] l u) else .error .noEnd := by
  obtain ⟨-, vec, l, u, least, greatest, -, -, -, hl, hu, hleast, hgreatest, hmin, hlu, hmax, htest⟩ :=
    enklTest_bounds (closestDist distance threeElements) [0, 1, 3] (show 2 ≤ (3 : UInt32) by decide)
      (show [0, 1, 2].length = (3 : UInt32).toNat from rfl)
  exact ⟨vec, l, u, least, greatest, hl, hu, hleast, hgreatest, hmin, hlu, hmax, htest (by decide)⟩

/-! ## Behind the third step -/

section StepIII

variable {α K : Type} [ExactDouble K] [LinearOrder K] [IsStrictOrderedRing K] {N : Nat} {M : Nat → Nat → K}

/-- What is kept at the end of the loop. -/
theorem Inv.kept {s : Pruning K} {keep : List Nat} (hinv : Pruning.Inv N M s) (hends : ¬s.Goes N) (htwo : 2 ≤ N)
    (hkeep : keep = keepIndex K N (StableSort.sortBy id s.a) (StableSort.sortBy id s.b)) :
    keep.Pairwise (· < ·) ∧ (∀ k ∈ keep, k < N) ∧ 2 ≤ keep.length := by
  obtain ⟨ha, hb, -⟩ := List.nodup_append.mp hinv.nodup
  obtain ⟨hsorted, hmembers⟩ := keepIndex_sorted ha hb hkeep
  have hcases := keepIndex_cases (K := K) (N := N) (a := StableSort.sortBy id s.a) (b := StableSort.sortBy id s.b)
  rw [← hkeep, StableSort.length_sortBy, StableSort.length_sortBy] at hcases
  have hall : N ≤ s.a.length + s.b.length := Nat.not_lt.mp hends
  refine ⟨hsorted, fun k hk => ?_, ?_⟩
  · rcases hmembers with hrange | ⟨-, hright⟩ | ⟨-, hleft⟩
    · rw [hrange] at hk
      exact List.mem_range.mp hk
    · exact hinv.lt k (Or.inr ((hright k).mp hk))
    · exact hinv.lt k (Or.inl ((hleft k).mp hk))
  · rcases hcases with hrange | ⟨hless, hright⟩ | ⟨hless, hleft⟩
    · rw [hrange, List.length_range]
      exact htwo
    · rw [hright, StableSort.length_sortBy]
      omega
    · rw [hleft, StableSort.length_sortBy]
      omega

variable (mean : List (List K) → K) (divergence : List α → List α → K) (currPDF : List α) (uninitialised : Nat × Nat)
  (refSetII : List (WindowElement α))

/-- What the second step leaves has fifty elements at most. If each of them has a positive divergence to another one, the third step ends, and the
test of what it keeps does too; the bounds are between the least and the greatest of the divergences of the elements that are kept. -/
theorem enklTest_of_rsiaStepIII (hpartner : ∀ k < refSetII.length, ∃ l < refSetII.length, 0 < simmD divergence refSetII k l)
    (htwo : 2 ≤ refSetII.length) (hfifty : refSetII.length ≤ 50) :
    ∃ r l u least greatest, rsiaStepIII mean divergence (refSetII.length * (refSetII.length - 1) / 2) currPDF uninitialised refSetII = some r ∧
      enklTest (UInt32.ofNat r.refSetFinal.length) r.closestDist r.distVec r.keepIndex = .ok (testResult r.closestDist r.distVec r.keepIndex l u) ∧
      IsLeast { d | d ∈ pairs (simmD divergence refSetII) r.keepIndex } least ∧
      IsGreatest { d | d ∈ pairs (simmD divergence refSetII) r.keepIndex } greatest ∧ least ≤ l ∧ l ≤ u ∧ u ≤ greatest := by
  obtain ⟨s, hloop, hinv, hends⟩ := (inv_start divergence refSetII refSetII.length uninitialised).loop_ends mean
    (simmD_symm divergence refSetII) (simmD_self divergence refSetII) hpartner _ (Pruning.card_positives_le refSetII.length _)
  obtain ⟨keep, hkeep⟩ : ∃ keep, keepIndex K refSetII.length (StableSort.sortBy id s.a) (StableSort.sortBy id s.b) = keep := ⟨_, rfl⟩
  obtain ⟨hsorted, hlt, hlength⟩ := Inv.kept hinv hends htwo hkeep.symm
  have hr : rsiaStepIII mean divergence (refSetII.length * (refSetII.length - 1) / 2) currPDF uninitialised refSetII =
      some {
        refSetFinal := keep.filterMap fun i => refSetII[i]?
        keepIndex := keep
        closestDist := closestDist divergence refSetII
        distVec := refSetII.map fun wEl => divergence wEl.pdf currPDF } := by
    rw [rsiaStepIII, hloop, ← hkeep]
    rfl
  -- the matrix has the divergences above its diagonal, and the indexes are in their order
  have hpairs : pairs (closestDist divergence refSetII) keep = pairs (simmD divergence refSetII) keep :=
    pairs_congr (hsorted.imp fun hij => if_pos hij)
  have hfinal : (keep.filterMap fun i => refSetII[i]?).length = keep.length := by
    rw [filterMap_getElem? refSetII (fun i => i) keep hlt, List.length_map, List.length_pmap]
  have hmany : keep.length ≤ 50 := by
    have hsub := List.subperm_of_subset (hsorted.imp fun hij => hij.ne) fun k hk => List.mem_range.mpr (hlt k hk)
    have := hsub.length_le
    rw [List.length_range] at this
    omega
  have hsize : keep.length = (UInt32.ofNat (keep.filterMap fun i => refSetII[i]?).length).toNat := by
    rw [hfinal, UInt32.toNat_ofNat', Nat.mod_eq_of_lt (by omega)]
  have hdist : ∀ k ∈ keep, k < (refSetII.map fun wEl => divergence wEl.pdf currPDF).length := by
    intro k hk
    rw [List.length_map]
    exact hlt k hk
  have hm := two_mul_length_pairs (closestDist divergence refSetII) keep
  have hfew : (pairs (closestDist divergence refSetII) keep).length < 2 ^ 32 := by
    have hle : keep.length * (keep.length - 1) ≤ 50 * 50 := Nat.mul_le_mul hmany (by omega)
    omega
  obtain ⟨l, u, least, greatest, hl, hu, hleast, hgreatest, hbounds⟩ := percentiles_of_pairs hm hlength (by omega)
  rw [hpairs] at hleast hgreatest
  refine ⟨_, l, u, least, greatest, hr, (enklTest_eq hsize hdist hl hu).trans (if_pos hfew), hleast, hgreatest, hbounds⟩

end StepIII

end ADTest

end Blockmon.StatAD
