import Blockmon.ENKLTest
import Blockmon.Lib.Faults
import Blockmon.Lib.Interpolation
import Mathlib.Tactic.FieldSimp
import Mathlib.Tactic.Ring

/-!
# Percentiles and the divergences in a reference set

The percentile is the value of the sorted vector at a place that increases with `p` (`percentileOfArray_value`). The matrix of `ENKL_test` has, above
its diagonal, the divergences of the pairs of the reference set (`closestRows_eq`, `closestDistVec_eq`).
-/

namespace Blockmon.StatAD

namespace ADTest

open Faults Interpolation

/-! ## Vectors -/

section Vectors

variable {α β : Type}

/-- An element that is there is read. -/
theorem element_of_getElem? {vec : List α} {i : Nat} {a : α} (h : vec[i]? = some a) : element vec i = .ok a := by
  rw [element, h]

/-- A loop that looks at the elements of a vector one after the other. -/
theorem mapM_range {vec : List α} {f : Nat → Except Fault β} (g : Nat → α → β) (h : ∀ i a, vec[i]? = some a → f i = .ok (g i a)) :
    (List.range vec.length).mapM f = .ok (vec.mapIdx g) := by
  induction vec generalizing f g with
  | nil => rfl
  | cons a vec ih =>
    have htail : (List.range vec.length).mapM (f ∘ Nat.succ) = .ok (vec.mapIdx fun i => g (i + 1)) :=
      ih _ fun i b hb => h (i + 1) b hb
    rw [List.length_cons, List.range_succ_eq_map, List.mapM_cons, List.mapM_map, h 0 a rfl, ok_bind, htail, ok_bind, List.mapIdx_cons]
    rfl

/-- Elements that are there are read. -/
theorem mapM_element {vec : List α} {indexes : List Nat} (d : α) (h : ∀ k ∈ indexes, k < vec.length) :
    indexes.mapM (element vec) = .ok (indexes.map fun k => vec.getD k d) := by
  induction indexes with
  | nil => rfl
  | cons k indexes ih =>
    obtain ⟨hk, hindexes⟩ := List.forall_mem_cons.mp h
    have hget := List.getElem?_eq_getElem hk
    rw [List.mapM_cons, element_of_getElem? hget, ok_bind, ih hindexes, ok_bind, List.map_cons, List.getD_eq_getElem?_getD, hget, Option.getD_some]
    rfl

/-- A vector that fits is gone through. -/
theorem overVector_of_fits {vec : List α} (h : vec.length < 2 ^ 32) (loop : Except Fault β) : overVector vec loop = loop := by
  rw [overVector, if_pos h]

/-- The loop over a longer vector does not end. -/
theorem overVector_of_long {vec : List α} (h : ¬vec.length < 2 ^ 32) (loop : Except Fault β) : overVector vec loop = .error .noEnd := by
  rw [overVector, if_neg h]

end Vectors

/-! ## The divergences -/

section Divergences

variable {ι K : Type}

/-- The divergences of the pairs of a list, each element before the later ones. -/
def pairs (dist : ι → ι → K) : List ι → List K
  | [] => []
  | a :: l => l.map (dist a) ++ pairs dist l

/-- The number of the pairs of a list. -/
theorem two_mul_length_pairs (dist : ι → ι → K) (l : List ι) : 2 * (pairs dist l).length = l.length * (l.length - 1) := by
  induction l with
  | nil => rfl
  | cons a l ih =>
    rw [pairs, List.length_append, List.length_map, Nat.mul_add, ih, List.length_cons, Nat.add_sub_cancel]
    cases l.length with
    | zero => rfl
    | succ n =>
      rw [Nat.add_sub_cancel]
      ring

/-- Equal distances have equal pairs. -/
theorem pairs_congr {dist dist' : ι → ι → K} {l : List ι} (h : l.Pairwise fun a b => dist a b = dist' a b) : pairs dist l = pairs dist' l := by
  induction l with
  | nil => rfl
  | cons a l ih =>
    obtain ⟨ha, hl⟩ := List.pairwise_cons.mp h
    rw [pairs, pairs, ih hl, List.map_congr_left ha]

variable [ExactDouble K]

/-- A row of the matrix behind its diagonal. -/
theorem drop_row (dist : ι → ι → K) (pre : List ι) (a : ι) (l : List ι) :
    ((pre ++ a :: l).mapIdx fun j b => if j < pre.length + 1 then 0 else dist a b).drop (pre.length + 1) = l.map (dist a) := by
  refine List.ext_getElem? fun j => ?_
  have hbehind : (pre ++ a :: l)[pre.length + 1 + j]? = l[j]? := by
    rw [List.getElem?_append_right (by omega), show pre.length + 1 + j - pre.length = j + 1 by omega, List.getElem?_cons_succ]
  rw [List.getElem?_drop, List.getElem?_mapIdx, hbehind, List.getElem?_map]
  simp only [show ¬pre.length + 1 + j < pre.length + 1 by omega, if_false]

/-- The rows that are left are those of the elements behind the first ones. -/
theorem closestDistVec_rows (dist : ι → ι → K) (pre l : List ι) :
    closestDistVec pre.length (l.mapIdx fun i a => (pre ++ l).mapIdx fun j b => if j < pre.length + i + 1 then 0 else dist a b) = pairs dist l := by
  induction l generalizing pre with
  | nil => rfl
  | cons a l ih =>
    have hrest := ih (pre ++ [a])
    rw [List.length_append, List.length_singleton] at hrest
    simp only [List.append_assoc, List.singleton_append] at hrest
    rw [List.mapIdx_cons, closestDistVec, pairs, Nat.add_zero, drop_row]
    simp only [Nat.add_right_comm pre.length _ 1, ← Nat.add_assoc, hrest]

variable (closestDistance : Nat → Nat → K) {refSetIIISize : UInt32} {keepIndex : List Nat}

/-- The matrix of the test. -/
def matrix (keepIndex : List Nat) : List (List K) :=
  keepIndex.mapIdx fun i indexI => keepIndex.mapIdx fun j indexJ => if j < i + 1 then 0 else closestDistance indexI indexJ

/-- The rows of the elements that are kept. -/
theorem closestRows_eq (hkeep : keepIndex.length = refSetIIISize.toNat) :
    closestRows refSetIIISize closestDistance keepIndex = .ok (matrix closestDistance keepIndex) := by
  rw [closestRows, ← hkeep]
  refine mapM_range _ fun i indexI hi => ?_
  rw [element_of_getElem? hi, ok_bind, closestRow, ← hkeep]
  refine mapM_range _ fun j indexJ hj => ?_
  split_ifs with hij
  · rfl
  · rw [element_of_getElem? hj, ok_bind]

/-- The vector of a matrix has its pairs. -/
theorem closestDistVec_matrix (keepIndex : List Nat) : closestDistVec 0 (matrix closestDistance keepIndex) = pairs closestDistance keepIndex := by
  have h := closestDistVec_rows closestDistance [] keepIndex
  simp only [List.length_nil, List.nil_append, Nat.zero_add] at h
  exact h

end Divergences

/-! ## The sorted vector -/

section Sorted

variable {K : Type}

/-- `N` for this vector. -/
def size (vec : List K) : UInt32 := UInt32.ofNat vec.length

/-- The size is not more than the length. -/
theorem size_le (vec : List K) : (size vec).toNat ≤ vec.length := by
  rw [size, UInt32.toNat_ofNat']
  exact Nat.mod_le _ _

/-- The size less one does not wrap. -/
theorem toNat_sub_one {N : UInt32} (hN : 0 < N.toNat) : (N - 1).toNat = N.toNat - 1 :=
  UInt32.toNat_sub_of_le N 1 (UInt32.le_iff_toNat_le.mpr hN)

variable [ExactDouble K] [LinearOrder K] (vec : List K)

omit [ExactDouble K] in
/-- Sorting keeps the size. -/
theorem size_sortBy : UInt32.ofNat (StableSort.sortBy id vec).length = size vec := by rw [StableSort.length_sortBy, size]

/-- The sorted vector, as a sequence. -/
def sorted : Nat → K := stretch 0 (StableSort.sortBy id vec)

/-- The values of the sorted vector grow. -/
theorem sorted_mono : Monotone (sorted vec) := stretch_mono 0 (StableSort.pairwise_sortBy id vec)

variable {vec}

/-- An element of the sorted vector. -/
theorem element_sorted {i : Nat} (hi : i < vec.length) : element (StableSort.sortBy id vec) i = .ok (sorted vec i) := by
  rw [← StableSort.length_sortBy id vec] at hi
  have hget := List.getElem?_eq_getElem hi
  rw [sorted, stretch_of_getElem? 0 hget]
  exact element_of_getElem? hget

/-- The first of the sorted vector is the least. -/
theorem isLeast_sorted (hvec : vec ≠ []) : IsLeast { d | d ∈ vec } (sorted vec 0) := by
  have hleast := isLeast_stretch 0 (StableSort.pairwise_sortBy id vec) (StableSort.sortBy_ne_nil hvec)
  simp only [StableSort.mem_sortBy] at hleast
  exact hleast

/-- The last of the sorted vector is the greatest. -/
theorem isGreatest_sorted (hvec : vec ≠ []) : IsGreatest { d | d ∈ vec } (sorted vec (vec.length - 1)) := by
  have hgreatest := isGreatest_stretch 0 (StableSort.pairwise_sortBy id vec) (StableSort.sortBy_ne_nil hvec)
  simp only [StableSort.mem_sortBy, StableSort.length_sortBy] at hgreatest
  exact hgreatest

end Sorted

/-! ## Percentiles -/

section LastRank

variable {K : Type} [LinearOrder K]

/-- The loop ends with the index of the last rank that is not above `p`, if there is one. -/
theorem lastRank_cases (p : K) (i k : Nat) (l : List K) :
    (lastRank p i k l = k ∧ ∀ x ∈ l, p < x) ∨
      ∃ j x, lastRank p i k l = i + j ∧ l[j]? = some x ∧ x ≤ p ∧ ∀ m y, j < m → l[m]? = some y → p < y := by
  induction l generalizing i k with
  | nil => exact Or.inl ⟨rfl, by simp⟩
  | cons x l ih =>
    rw [lastRank]
    rcases ih (i + 1) (if p ≥ x then i else k) with ⟨hk, habove⟩ | ⟨j, y, hk, hj, hy, habove⟩
    · by_cases hx : x ≤ p
      · refine Or.inr ⟨0, x, ?_, rfl, hx, ?_⟩
        · rw [hk, if_pos hx, Nat.add_zero]
        · rintro (_ | m) y hm hy
          · omega
          · exact habove y (List.mem_of_getElem? hy)
      · refine Or.inl ⟨?_, ?_⟩
        · rw [hk, if_neg hx]
        · exact List.forall_mem_cons.mpr ⟨not_le.mp hx, habove⟩
    · refine Or.inr ⟨j + 1, y, ?_, hj, hy, ?_⟩
      · rw [hk, Nat.add_assoc, Nat.add_comm 1 j]
      · rintro (_ | m) z hm hz
        · omega
        · exact habove m z (by omega) hz

end LastRank

section Percentiles

variable {K : Type} [ExactDouble K] {N p : UInt32} {i : Nat}

/-- An element of `p_vector`. -/
def rank (N : UInt32) (i : Nat) : K := (100 : Nat) / (N.toNat : K) * (((i + 1 : Nat) : K) - 0.5)

/-- Where the `p`-th percentile of `N` values is, in numbers of values behind the first one. -/
def place (N p : UInt32) : K := N.toNat / (100 : Nat) * p.toNat - 0.5

/-- The rank of a place. -/
theorem getElem?_pVector (hi : i < N.toNat) : (pVector N : List K)[i]? = some (rank N i) := by
  rw [pVector, List.getElem?_map, List.getElem?_range hi]
  rfl

/-- There are as many ranks as places. -/
theorem length_pVector (N : UInt32) : (pVector N : List K).length = N.toNat := by rw [pVector, List.length_map, List.length_range]

variable [LinearOrder K] [IsStrictOrderedRing K]

/-- The factor of the interpolation. -/
theorem mul_sub_rank (hN : 0 < N.toNat) (p : UInt32) (i : Nat) : (N.toNat : K) / (100 : Nat) * (p.toNat - rank N i) = place N p - i := by
  have hne : (N.toNat : K) ≠ 0 := Nat.cast_ne_zero.mpr hN.ne'
  rw [rank, place, Nat.cast_add, Nat.cast_one]
  field_simp
  ring

/-- The scale of the percentiles is positive. -/
theorem scale_pos (hN : 0 < N.toNat) : 0 < (N.toNat : K) / (100 : Nat) := div_pos (Nat.cast_pos.mpr hN) (by norm_num)

/-- A rank is to `p` as its index is to the place. -/
theorem rank_le_iff (hN : 0 < N.toNat) : rank N i ≤ (p.toNat : K) ↔ (i : K) ≤ place N p := by
  rw [← sub_nonneg, ← sub_nonneg (a := place N p), ← mul_sub_rank hN]
  exact (mul_nonneg_iff_of_pos_left (scale_pos hN)).symm

/-- A rank is below a percentile just when its place is. -/
theorem rank_lt_iff (hN : 0 < N.toNat) : rank N i < (p.toNat : K) ↔ (i : K) < place N p := by
  rw [← sub_pos, ← sub_pos (a := place N p), ← mul_sub_rank hN]
  exact (mul_pos_iff_of_pos_left (scale_pos hN)).symm

/-- A rank is above a percentile just when its place is. -/
theorem lt_rank_iff (hN : 0 < N.toNat) : (p.toNat : K) < rank N i ↔ place N p < (i : K) := by
  rw [← not_le, rank_le_iff hN, not_le]

/-- If the first rank is not above `p`, the place is not before the index that is found, and before the next one if there is one. -/
theorem lastRank_pVector (hN : 0 < N.toNat) (hfirst : 0 ≤ (place N p : K)) :
    ∃ k < N.toNat, lastRank (p.toNat : K) 0 0 (pVector N) = k ∧ (k : K) ≤ place N p ∧ (k + 1 < N.toNat → place N p < (k : K) + 1) := by
  rcases lastRank_cases (p.toNat : K) 0 0 (pVector N) with ⟨-, habove⟩ | ⟨k, x, hk, hx, hle, habove⟩
  · have hlt := habove (rank N 0) (List.mem_of_getElem? (getElem?_pVector hN))
    rw [lt_rank_iff hN, Nat.cast_zero] at hlt
    exact absurd hfirst (not_le.mpr hlt)
  · have hkN : k < N.toNat := by
      rw [← length_pVector (K := K) N]
      exact (List.getElem?_eq_some_iff.mp hx).1
    rw [getElem?_pVector hkN] at hx
    cases hx
    refine ⟨k, hkN, hk.trans (Nat.zero_add k), (rank_le_iff hN).mp hle, fun hnext => ?_⟩
    have hlt := (lt_rank_iff hN).mp (habove (k + 1) _ (Nat.lt_succ_self k) (getElem?_pVector hnext))
    rwa [Nat.cast_add, Nat.cast_one] at hlt

/-- Only for this size can `p` be the last rank. -/
theorem place_eq_last_iff (hN : 0 < N.toNat) (hp : p.toNat ≤ 100) :
    (place N p : K) = ((N.toNat - 1 : Nat) : K) ↔ N.toNat * (100 - p.toNat) = 50 := by
  have hcast : ((N.toNat * (100 - p.toNat) : Nat) : K) = ((50 : Nat) : K) ↔ N.toNat * (100 - p.toNat) = 50 := Nat.cast_inj
  rw [← hcast, place, Nat.cast_sub hN, Nat.cast_mul, Nat.cast_sub hp]
  push_cast
  constructor
  · intro h
    linarith
  · intro h
    linarith

variable {vec : List K}

/-- The three ways through the function. -/
theorem percentileOfArray_cases (hN : 0 < (size vec).toNat) (p : UInt32) :
    ((place (size vec) p : K) < 0 ∧ percentileOfArray vec p = .ok (sorted vec 0)) ∨
    ((((size vec).toNat - 1 : Nat) : K) < place (size vec) p ∧ percentileOfArray vec p = .ok (sorted vec ((size vec).toNat - 1))) ∨
    ∃ k < (size vec).toNat, (k : K) ≤ place (size vec) p ∧ (k + 1 < (size vec).toNat → place (size vec) p < (k : K) + 1) ∧
      (place (size vec) p : K) ≤ ((size vec).toNat - 1 : Nat) ∧
      percentileOfArray vec p = (element (StableSort.sortBy id vec) (k + 1) >>= fun vNext =>
        .ok (sorted vec k + (place (size vec) p - k) * (vNext - sorted vec k))) := by
  have hle := size_le vec
  have hlastN : (size vec).toNat - 1 < (size vec).toNat := by omega
  have hrank : ∀ i < (size vec).toNat, element (pVector (size vec) : List K) i = .ok (rank (size vec) i) :=
    fun i hi => element_of_getElem? (getElem?_pVector hi)
  rw [percentileOfArray]
  simp only [size_sortBy, toNat_sub_one hN, hrank 0 hN, hrank _ hlastN, ok_bind, gt_iff_lt, lt_rank_iff hN, rank_lt_iff hN, Nat.cast_zero]
  split_ifs with hfirst hlast
  · exact Or.inl ⟨hfirst, element_sorted (by omega)⟩
  · exact Or.inr (Or.inl ⟨hlast, element_sorted (by omega)⟩)
  · obtain ⟨k, hkN, hk, hkle, hklt⟩ := lastRank_pVector hN (not_lt.mp hfirst)
    refine Or.inr (Or.inr ⟨k, hkN, hkle, hklt, not_lt.mp hlast, ?_⟩)
    rw [hk, hrank k hkN, ok_bind, element_sorted (show k < vec.length by omega), ok_bind, mul_sub_rank hN]

/-- The percentile is the value of the sorted vector at its place. The vector has to have an element behind the last rank only if `p` is that rank. -/
theorem percentileOfArray_value (hN : 0 < (size vec).toNat)
    (hnext : (place (size vec) p : K) = (((size vec).toNat - 1 : Nat) : K) → (size vec).toNat < vec.length) :
    ∃ y, percentileOfArray vec p = .ok y ∧ ValueAt (sorted vec) ((size vec).toNat - 1) (place (size vec) p) y := by
  have hle := size_le vec
  rcases percentileOfArray_cases hN p with ⟨hfirst, hresult⟩ | ⟨hlast, hresult⟩ | ⟨k, hkN, hkle, hklt, hxlast, hresult⟩
  · exact ⟨_, hresult, valueAt_first _ _ hfirst.le⟩
  · exact ⟨_, hresult, valueAt_last _ hlast.le⟩
  · by_cases hkn : k + 1 < (size vec).toNat
    · rw [element_sorted (show k + 1 < vec.length by omega), ok_bind] at hresult
      exact ⟨_, hresult, OnSegment.valueAt _ ⟨hkle, (hklt hkn).le⟩ hxlast⟩
    · -- the last rank is found, and it is `p`
      have hkl : (size vec).toNat - 1 = k := by omega
      have hxk : (place (size vec) p : K) ≤ k := hkl ▸ hxlast
      have hlong := hnext (hkl ▸ le_antisymm hxk hkle)
      rw [element_sorted (show k + 1 < vec.length by omega), ok_bind] at hresult
      exact ⟨_, hresult, OnSegment.valueAt _ ⟨hkle, hxk.trans (le_add_of_nonneg_right zero_le_one)⟩ hxlast⟩

/-- If `p` is the last rank of a vector of just that size, the function looks behind the vector. -/
theorem percentileOfArray_fault (hN : 0 < (size vec).toNat) (hplace : (place (size vec) p : K) = (((size vec).toNat - 1 : Nat) : K))
    (hlong : vec.length ≤ (size vec).toNat) : percentileOfArray vec p = .error .outOfBounds := by
  rcases percentileOfArray_cases hN p with ⟨hfirst, -⟩ | ⟨hlast, -⟩ | ⟨k, hkN, hkle, hklt, -, hresult⟩
  · rw [hplace] at hfirst
    exact absurd hfirst (not_lt.mpr (Nat.cast_nonneg _))
  · exact absurd hplace hlast.ne'
  · by_cases hkn : k + 1 < (size vec).toNat
    · have hlt := hklt hkn
      have hcast : ((k + 1 : Nat) : K) ≤ ((size vec).toNat - 1 : Nat) := Nat.cast_le.mpr (by omega)
      rw [Nat.cast_add, Nat.cast_one] at hcast
      rw [hplace] at hlt
      exact absurd hcast (not_le.mpr hlt)
    · have hbehind : (StableSort.sortBy id vec)[k + 1]? = none := by
        rw [List.getElem?_eq_none_iff, StableSort.length_sortBy]
        omega
      rw [hresult, element, hbehind]
      rfl

omit [IsStrictOrderedRing K] in
/-- An empty vector has no percentiles. -/
theorem percentileOfArray_of_empty (hN : (size vec).toNat = 0) (p : UInt32) : percentileOfArray vec p = .error .outOfBounds := by
  have hempty : (pVector (size vec) : List K) = [] := by rw [← List.length_eq_zero_iff, length_pVector, hN]
  rw [percentileOfArray]
  simp only [size_sortBy, hempty]
  rfl

end Percentiles

end ADTest

end Blockmon.StatAD
