import Mathlib.Algebra.Order.Ring.Rat
import Mathlib.Algebra.Field.Rat
import Blockmon.Lemmas.RSIALoop
import Blockmon.RSIA

/-!
# The division of the reference set

The loop of the third step takes one pair after the other. If every element has a positive divergence to another one, the positive divergences
last until all elements are divided. If one has none, the loop comes to the diagonal of the matrix, and from there either goes on for ever or puts
the first element into both subsets.
-/

namespace Blockmon.StatAD

namespace ADTest

open Pruning

section StepIII

variable {α K : Type} [ExactDouble K] [LinearOrder K] [IsStrictOrderedRing K] (mean : List (List K) → K) (divergence : List α → List α → K)
  (currPDF : List α) (uninitialised : Nat × Nat) (refSetII : List (WindowElement α))

variable {divergence refSetII uninitialised} in
omit [IsStrictOrderedRing K] in
/-- What the third step returns when its loop ends. -/
theorem rsiaStepIII_of_loop {passes : Nat} {s : Pruning K}
    (hloop : loop mean refSetII.length (simmD divergence refSetII) passes (start divergence refSetII uninitialised) = some s) :
    ∃ r, rsiaStepIII mean divergence passes currPDF uninitialised refSetII = some r ∧
      r.keepIndex = keepIndex K refSetII.length (StableSort.sortBy id s.a) (StableSort.sortBy id s.b) := by
  rw [rsiaStepIII, hloop]
  exact ⟨_, rfl, rfl⟩

/-- Every element has a positive divergence to another one. Then, whatever the costs of the branches, the loop ends within as many passes as there
are pairs. The subsets have no element twice or in common and are all elements together, and what is kept is, in order, all of them or the larger
subset. -/
theorem rsiaStepIII_partition (hpartner : ∀ k < refSetII.length, ∃ l < refSetII.length, 0 < simmD divergence refSetII k l) :
    ∃ s r, loop mean refSetII.length (simmD divergence refSetII) (refSetII.length * (refSetII.length - 1) / 2)
        (start divergence refSetII uninitialised) = some s ∧
      rsiaStepIII mean divergence (refSetII.length * (refSetII.length - 1) / 2) currPDF uninitialised refSetII = some r ∧
      s.a.Nodup ∧ s.b.Nodup ∧ s.a.Disjoint s.b ∧ (∀ k, k ∈ s.a ∨ k ∈ s.b ↔ k < refSetII.length) ∧
      r.keepIndex.Pairwise (· < ·) ∧
      (r.keepIndex = List.range refSetII.length ∨ s.a.length < s.b.length ∧ (∀ k, k ∈ r.keepIndex ↔ k ∈ s.b) ∨
        s.b.length < s.a.length ∧ ∀ k, k ∈ r.keepIndex ↔ k ∈ s.a) := by
  obtain ⟨s, hloop, hinv, hends⟩ := (inv_start divergence refSetII refSetII.length uninitialised).loop_ends mean
    (simmD_symm divergence refSetII) (simmD_self divergence refSetII) hpartner _ (card_positives_le refSetII.length _)
  obtain ⟨ha, hb, hdisjoint⟩ := List.nodup_append.mp hinv.nodup
  obtain ⟨r, hr, hkeep⟩ := rsiaStepIII_of_loop mean currPDF hloop
  refine ⟨s, r, hloop, hr, ha, hb, List.disjoint_of_nodup_append hinv.nodup, fun k => ⟨hinv.lt k, fun hk => ?_⟩, keepIndex_sorted ha hb hkeep⟩
  by_contra hnew
  exact hends (hinv.goes_iff.mpr ⟨k, hk, hnew⟩)

end StepIII

/-- Three distributions, and how far they are from each other. -/
def threeElements : List (WindowElement Rat) :=
  [[0], [1], [3]].map fun pdf => { timestamp := 0, nrUniqueUsers := 100, pdfSize := 1, pdf := pdf, lPhase := true }

/-- The distance of the sums, as a divergence. -/
def distance (p q : List Rat) : Rat := |p.sum - q.sum|

/-- Each of the three elements is away from another. -/
theorem distance_pos : ∀ k < threeElements.length, ∃ l < threeElements.length, 0 < simmD distance threeElements k l := by decide +kernel

/-- Three elements end in two disjoint parts. -/
theorem rsiaStepIII_partition_threeElements : ∃ s r,
    loop doubleMatrixMean threeElements.length (simmD distance threeElements) 3 (start distance threeElements (0, 0)) = some s ∧
      rsiaStepIII doubleMatrixMean distance 3 [] (0, 0) threeElements = some r ∧ s.a.Disjoint s.b ∧ r.keepIndex.Pairwise (· < ·) := by
  obtain ⟨s, r, hloop, hr, -, -, hdisjoint, -, hkeep, -⟩ := rsiaStepIII_partition doubleMatrixMean distance [] (0, 0) threeElements distance_pos
  exact ⟨s, r, hloop, hr, hdisjoint, hkeep⟩

section StepIII

variable {α K : Type} [ExactDouble K] [LinearOrder K] [IsStrictOrderedRing K] (mean : List (List K) → K) (divergence : List α → List α → K)
  (currPDF : List α) (uninitialised : Nat × Nat) (refSetII : List (WindowElement α))

/-- The loop ends, and at no time is an element in both subsets, if and only if every element of the reference set has a positive divergence to
another one. -/
theorem rsiaStepIII_finishes_iff :
    ((∃ passes r, rsiaStepIII mean divergence passes currPDF uninitialised refSetII = some r) ∧
      ∀ s, Reached mean refSetII.length (simmD divergence refSetII) (start divergence refSetII uninitialised) s → s.a.Disjoint s.b) ↔
      ∀ k < refSetII.length, ∃ l < refSetII.length, 0 < simmD divergence refSetII k l := by
  rw [← (inv_start divergence refSetII refSetII.length uninitialised).ends_iff mean (simmD_symm divergence refSetII)
    (simmD_self divergence refSetII)]
  refine and_congr_left fun _ => ⟨?_, ?_⟩
  · rintro ⟨passes, r, hr⟩
    cases hloop : loop mean refSetII.length (simmD divergence refSetII) passes (start divergence refSetII uninitialised) with
    | none =>
      rw [rsiaStepIII, hloop] at hr
      cases hr
    | some s => exact ⟨passes, s, hloop⟩
  · rintro ⟨passes, s, hloop⟩
    obtain ⟨r, hr, -⟩ := rsiaStepIII_of_loop mean currPDF hloop
    exact ⟨passes, r, hr⟩

end StepIII

/-- Three elements need a bounded number of passes. -/
theorem rsiaStepIII_finishes_threeElements :
    (∃ passes r, rsiaStepIII doubleMatrixMean distance passes [] (0, 0) threeElements = some r) ∧
      ∀ s, Reached doubleMatrixMean threeElements.length (simmD distance threeElements) (start distance threeElements (0, 0)) s →
        s.a.Disjoint s.b :=
  (rsiaStepIII_finishes_iff doubleMatrixMean distance [] (0, 0) threeElements).mpr distance_pos

/-! ## Elements of one distribution -/

section Same

variable {α K : Type} [ExactDouble K] (divergence : List α → List α → K) {refSet : List (WindowElement α)} {p : List α}

/-- Equal elements have no distance. -/
theorem simmD_same (hsame : ∀ wEl ∈ refSet, wEl.pdf = p) (hp : divergence p p = 0) (i j : Nat) : simmD divergence refSet i j = 0 := by
  rw [simmD]
  cases hi : refSet[i]? with
  | none => rfl
  | some lElI =>
    cases hj : refSet[j]? with
    | none => rfl
    | some lElJ =>
      dsimp only
      rw [hsame lElI (List.mem_of_getElem? hi), hsame lElJ (List.mem_of_getElem? hj), hp]
      simp

/-- The slack factor after some passes. -/
def slackFactor : Nat → ℚ
  | 0 => 0
  | n + 1 => nextSlackFactor (slackFactor n)

/-- Twenty-five times the `double` 0.02 is more than a half when it is summed up. -/
theorem half_lt_slackFactor : 1 / 2 < slackFactor 25 := by decide +kernel

/-- The loop over the slack factor ends by its own condition within 25 passes, whatever the window. -/
theorem slackLoop_passes {α : Type} (low users : UInt64) (window : List (WindowElement α)) (more : Nat) :
    slackLoop low users window (25 + more) 0 [] = slackLoop low users window 25 0 [] := by
  -- the passes that are left when the factor has its value after the others
  have hrest : ∀ n m indexes, n + m = 25 →
      slackLoop low users window (n + more) (slackFactor m) indexes = slackLoop low users window n (slackFactor m) indexes := by
    intro n
    induction n with
    | zero =>
      intro m indexes hm
      obtain rfl : m = 25 := by omega
      cases more with
      | zero => rfl
      | succ more =>
        rw [Nat.zero_add]
        exact if_neg fun h => absurd h.1 (not_le.mpr half_lt_slackFactor)
    | succ n ih =>
      intro m indexes hm
      rw [show n + 1 + more = n + more + 1 by omega, slackLoop, slackLoop]
      split
      · exact ih (m + 1) _ (by omega)
      · rfl
  exact hrest 25 0 [] rfl

/-- The first step only selects. -/
theorem mem_of_mem_rsiaStepI {α : Type} {low users : UInt64} {window : List (WindowElement α)} {wEl : WindowElement α}
    (h : wEl ∈ rsiaStepI low users window) : wEl ∈ window := by
  obtain ⟨i, -, hi⟩ := List.mem_filterMap.mp h
  exact List.mem_of_getElem? hi

/-- The second step only selects. -/
theorem mem_of_mem_rsiaStepII {α κ : Type} [LinearOrder κ] {byDiv : Sorting (Divergence κ) κ Divergence.lDiv}
    {byIndex : Sorting (Divergence κ) Nat Divergence.index} {divergence : List α → List α → κ} {currPDF : List α} {refSet : List (WindowElement α)}
    {wEl : WindowElement α} (h : wEl ∈ rsiaStepII byDiv byIndex divergence currPDF refSet) : wEl ∈ refSet := by
  obtain ⟨d, -, hd⟩ := List.mem_filterMap.mp h
  exact List.mem_of_getElem? hd

/-- Six bins of the same share. -/
def uniform : List Rat := List.replicate 6 (1 / 6)

/-- A window of five histograms of this distribution. -/
def sameWindow : List (WindowElement Rat) :=
  List.replicate 5 { timestamp := 0, nrUniqueUsers := 100, pdfSize := 6, pdf := uniform, lPhase := true }

/-- A logarithm in so far as that of one is zero. -/
def log2Rat (x : Rat) : Rat := x - 1

/-- What the first two steps make of the window, for a message of as many users. -/
def sameRefSet : List (WindowElement Rat) :=
  rsiaStepII (Sorting.stable Divergence.lDiv) (Sorting.stable Divergence.index) (lDivergence log2Rat) uniform (rsiaStepI 10 100 sameWindow)

/-- All five histograms are in the reference set, the third step does not end, and after its first pass the first of them is in both subsets. -/
theorem rsiaStepIII_sameWindow : sameRefSet.length = 5 ∧
    (∀ passes, rsiaStepIII doubleMatrixMean (lDivergence log2Rat) passes uniform (0, 0) sameRefSet = none) ∧
    ∃ s, Reached doubleMatrixMean sameRefSet.length (simmD (lDivergence log2Rat) sameRefSet)
      (start (lDivergence log2Rat) sameRefSet (0, 0)) s ∧ 0 ∈ s.a ∧ 0 ∈ s.b := by
  have hlength : sameRefSet.length = 5 := by decide +kernel
  have hsame : ∀ wEl ∈ sameRefSet, wEl.pdf = uniform := by
    intro wEl hwEl
    have hmem : wEl ∈ sameWindow := mem_of_mem_rsiaStepI (mem_of_mem_rsiaStepII hwEl)
    rw [List.eq_of_mem_replicate hmem]
  have hzero := simmD_same (lDivergence log2Rat) hsame (by decide +kernel)
  have hinv := inv_start (lDivergence log2Rat) sameRefSet sameRefSet.length (0, 0)
  have hnone : positives sameRefSet.length (start (lDivergence log2Rat) sameRefSet (0, 0)) = ∅ := by
    refine Finset.eq_empty_of_forall_notMem fun ⟨j, i⟩ hmem => ?_
    obtain ⟨-, hij, hpos⟩ := mem_positives.mp hmem
    change 0 < closestDist (lDivergence log2Rat) sameRefSet i j at hpos
    rw [closestDist, if_pos hij, hzero] at hpos
    exact lt_irrefl 0 hpos
  obtain ⟨ha, hb, hstuck⟩ := hinv.pass_both doubleMatrixMean hnone rfl rfl (by rw [hlength]; decide)
  have hgoes : (start (lDivergence log2Rat) sameRefSet (0, 0)).Goes sameRefSet.length := by
    rw [hlength]
    decide
  refine ⟨hlength, fun passes => ?_, _, Reached.pass Reached.start hgoes, by rw [ha]; decide, by rw [hb]; decide⟩
  have hloop : loop doubleMatrixMean sameRefSet.length (simmD (lDivergence log2Rat) sameRefSet) passes
      (start (lDivergence log2Rat) sameRefSet (0, 0)) = none := by
    cases passes with
    | zero => rw [loop, if_pos hgoes]
    | succ passes => rw [loop, if_pos hgoes, hstuck.loop_none]
  rw [rsiaStepIII, hloop]
  rfl

end Same

end ADTest

end Blockmon.StatAD

/-!
## The selection of the second step

The divergences are sorted with their indexes, cut, and sorted back by index. What is left is a part of the list in its own order, with the
smallest divergences, in whatever order equal ones came.
-/

namespace Blockmon.StatAD

namespace ADTest

/-- To look up indexes that are all in range. -/
theorem filterMap_getElem? {α β : Type} (l : List α) (index : β → Nat) (ds : List β) (h : ∀ d ∈ ds, index d < l.length) :
    ds.filterMap (fun d => l[index d]?) = (ds.pmap (fun d hd => (⟨index d, hd⟩ : Fin l.length)) h).map l.get := by
  induction ds with
  | nil => rfl
  | cons d ds ih =>
    have hlt := h d List.mem_cons_self
    have hd : l[index d]? = some l[index d] := List.getElem?_eq_getElem hlt
    rw [List.filterMap_cons, hd]
    simp only [List.pmap_cons, List.map_cons, ih fun e he => h e (List.mem_cons_of_mem _ he)]
    rfl

section Divergences

variable {α κ : Type} (divergence : List α → List α → κ) (currPDF : List α) (refSetIstep : List (WindowElement α))

/-- `L_pq` before it is sorted. -/
def divergences : List (Divergence κ) := refSetIstep.mapIdx fun i wEl => { lDiv := divergence currPDF wEl.pdf, index := i }

variable {divergence currPDF refSetIstep} in
/-- The divergences are those of the elements. -/
theorem mem_divergences {d : Divergence κ} : d ∈ divergences divergence currPDF refSetIstep ↔
    ∃ h : d.index < refSetIstep.length, d.lDiv = divergence currPDF refSetIstep[d.index].pdf := by
  rw [divergences, List.mem_mapIdx]
  constructor
  · rintro ⟨i, hi, rfl⟩
    exact ⟨hi, rfl⟩
  · rintro ⟨hi, hd⟩
    exact ⟨d.index, hi, by rw [← hd]⟩

/-- No index comes twice. -/
theorem pairwise_divergences : (divergences divergence currPDF refSetIstep).Pairwise fun d e => d.index ≠ e.index := by
  refine List.pairwise_iff_getElem.mpr fun i j hi hj hij => ?_
  simp only [divergences, List.getElem_mapIdx]
  exact hij.ne

end Divergences

section StepII

variable {α κ : Type} [LinearOrder κ] (byDiv : Sorting (Divergence κ) κ Divergence.lDiv) (byIndex : Sorting (Divergence κ) Nat Divergence.index)
  (divergence : List α → List α → κ) (currPDF : List α) (refSetIstep : List (WindowElement α))

/-- The second step keeps elements in their order, fifty of them or all if there are fewer, and of those the divergence from the current distribution
is at most that of an element that is dropped. -/
theorem rsiaStepII_selection :
    (rsiaStepII byDiv byIndex divergence currPDF refSetIstep).Sublist refSetIstep ∧
    ∃ kept : List (Fin refSetIstep.length), kept.Pairwise (· < ·) ∧ kept.length = min 50 refSetIstep.length ∧
      rsiaStepII byDiv byIndex divergence currPDF refSetIstep = kept.map refSetIstep.get ∧
      ∀ i ∈ kept, ∀ j, j ∉ kept →
        divergence currPDF (refSetIstep.get i).pdf ≤ divergence currPDF (refSetIstep.get j).pdf := by
  obtain ⟨lPq, hlPq⟩ : ∃ lPq, divergences divergence currPDF refSetIstep = lPq := ⟨_, rfl⟩
  obtain ⟨top, htop⟩ : ∃ top, (byDiv.sort lPq).take (min refSetIstep.length 50) = top := ⟨_, rfl⟩
  have hstep : rsiaStepII byDiv byIndex divergence currPDF refSetIstep =
      (byIndex.sort top).filterMap fun d => refSetIstep[d.index]? := by
    rw [← htop, ← hlPq]
    rfl
  have hindex : ∀ d ∈ lPq, ∃ h : d.index < refSetIstep.length, d.lDiv = divergence currPDF refSetIstep[d.index].pdf := by
    intro d hd
    rw [← hlPq] at hd
    exact mem_divergences.mp hd
  have hmem : ∀ d ∈ byIndex.sort top, d ∈ lPq := by
    intro d hd
    rw [byIndex.mem_sort, ← htop] at hd
    exact byDiv.mem_sort.mp (List.mem_of_mem_take hd)
  have hrange : ∀ d ∈ byIndex.sort top, d.index < refSetIstep.length := fun d hd => (hindex d (hmem d hd)).1
  -- the indexes of what is kept are all different, since those of the whole list are
  have hdistinct : top.Pairwise fun d e => d.index ≠ e.index := by
    have hall := pairwise_divergences divergence currPDF refSetIstep
    rw [hlPq, ← (byDiv.perm_sort lPq).pairwise_iff fun h => h.symm] at hall
    rw [← htop]
    exact hall.sublist (List.take_sublist _ _)
  obtain ⟨kept, hkept⟩ : ∃ kept, (byIndex.sort top).pmap (fun d hd => (⟨d.index, hd⟩ : Fin refSetIstep.length)) hrange = kept := ⟨_, rfl⟩
  have hmap : rsiaStepII byDiv byIndex divergence currPDF refSetIstep = kept.map refSetIstep.get := by
    rw [hstep, filterMap_getElem? refSetIstep Divergence.index _ hrange, hkept]
  have hincreasing : kept.Pairwise (· < ·) := by
    rw [← hkept]
    exact (byIndex.pairwise_lt_sort hdistinct).pmap _ fun _ _ _ _ h => h
  have hlength : kept.length = min 50 refSetIstep.length := by
    have hcount : (byDiv.sort lPq).length = refSetIstep.length := by
      rw [byDiv.length_sort, ← hlPq, divergences, List.length_mapIdx]
    rw [← hkept, List.length_pmap, byIndex.length_sort, ← htop, List.length_take, hcount]
    omega
  refine ⟨?_, kept, hincreasing, hlength, hmap, fun i hi j hj => ?_⟩
  · rw [hmap]
    exact List.map_getElem_sublist hincreasing
  · rw [← hkept, List.mem_pmap] at hi
    obtain ⟨d, hd, rfl⟩ := hi
    have htaken := hd
    rw [byIndex.mem_sort, ← htop] at htaken
    obtain ⟨e, he⟩ : ∃ e : Divergence κ, e = { lDiv := divergence currPDF (refSetIstep.get j).pdf, index := j } := ⟨_, rfl⟩
    have hesort : e ∈ byDiv.sort lPq := by
      rw [byDiv.mem_sort, ← hlPq, mem_divergences, he]
      exact ⟨j.isLt, rfl⟩
    rw [← List.take_append_drop (min refSetIstep.length 50) (byDiv.sort lPq), List.mem_append, htop] at hesort
    rcases hesort with hetop | hedrop
    · refine absurd ?_ hj
      rw [← hkept, List.mem_pmap]
      refine ⟨e, byIndex.mem_sort.mpr hetop, Fin.ext ?_⟩
      exact congrArg Divergence.index he
    · have hle := byDiv.take_le_drop lPq _ d htaken e hedrop
      obtain ⟨hd_lt, hd_div⟩ := hindex d (hmem d hd)
      rw [hd_div, he] at hle
      exact hle

end StepII

end ADTest

end Blockmon.StatAD
