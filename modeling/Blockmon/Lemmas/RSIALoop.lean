import Blockmon.Lemmas.RSIA

/-!
# Runs of the loop that divides the reference set

From every state with the invariant the loop takes no more passes than positive divergences are left (`Inv.loop_ends`). It ends without an element
in both subsets exactly if every element has a positive divergence (`Inv.ends_iff`); once only the diagonal is left it does not end any more
(`Stuck.loop_none`).
-/

namespace Blockmon.StatAD

namespace ADTest

open Pruning

section SimmD

variable {α K : Type} [ExactDouble K] (divergence : List α → List α → K) (refSet : List (WindowElement α))

/-- The dissimilarity is symmetric. -/
theorem simmD_symm (i j : Nat) : simmD divergence refSet i j = simmD divergence refSet j i := by
  rw [simmD, simmD]
  cases refSet[i]? with
  | none => cases refSet[j]? <;> rfl
  | some lElI =>
    cases refSet[j]? with
    | none => rfl
    | some lElJ =>
      rcases Nat.lt_trichotomy i j with hij | rfl | hij
      · simp [hij, hij.not_gt]
      · simp
      · simp [hij, hij.not_gt]

/-- An element is not dissimilar to itself. -/
theorem simmD_self (i : Nat) : simmD divergence refSet i i = 0 := by
  rw [simmD]
  cases refSet[i]? <;> simp

/-- The invariant holds at the start. -/
theorem inv_start [LinearOrder K] (N : Nat) (uninitialised : Nat × Nat) :
    Inv N (simmD divergence refSet) (start divergence refSet uninitialised) where
  short := ⟨Nat.le_refl 0, Nat.le_refl 0, Nat.le_refl 0, Nat.le_refl 0⟩
  nodup := List.nodup_nil
  lt := by simp [start]
  partner := by simp [start]
  above i j hij _ := Or.inl (if_pos hij)
  below i j hij := if_neg (Nat.not_lt.mpr hij)

end SimmD

namespace Pruning

/-! ## Runs of the loop -/

section Runs

variable {K : Type} [ExactDouble K] [LinearOrder K] (mean : List (List K) → K) (N : Nat) (M : Nat → Nat → K)

/-- The states in which the condition of the loop is tested. -/
inductive Reached (s : Pruning K) : Pruning K → Prop where
  | start : Reached s s
  | pass {t : Pruning K} (ht : Reached s t) (hgoes : t.Goes N) : Reached s (t.pass mean N M)

variable {N M}

/-- What is reached after a pass is reached. -/
theorem Reached.head {mean : List (List K) → K} {s t : Pruning K} (hgoes : s.Goes N) (ht : Reached mean N M (s.pass mean N M) t) : Reached mean N M s t := by
  induction ht with
  | start => exact Reached.pass Reached.start hgoes
  | pass _ hgoes' ih => exact Reached.pass ih hgoes'

/-- The loop ends in a state that it has reached. -/
theorem reached_of_loop {mean : List (List K) → K} {passes : Nat} {s t : Pruning K} (h : loop mean N M passes s = some t) : Reached mean N M s t ∧ ¬t.Goes N := by
  induction passes generalizing s with
  | zero =>
    rw [loop] at h
    split at h
    · cases h
    · rename_i hends
      cases h
      exact ⟨Reached.start, hends⟩
  | succ passes ih =>
    rw [loop] at h
    split at h
    · rename_i hgoes
      obtain ⟨hreached, hends⟩ := ih h
      exact ⟨hreached.head hgoes, hends⟩
    · rename_i hends
      cases h
      exact ⟨Reached.start, hends⟩

variable [IsStrictOrderedRing K] {s : Pruning K}

section Partners

variable (hsymm : ∀ i j, M i j = M j i) (hdiag : ∀ i, M i i = 0) (hpartner : ∀ k < N, ∃ l < N, 0 < M k l)

include hsymm hdiag hpartner

/-- A pass keeps the invariant, and takes a positive entry away. -/
theorem Inv.pass_of_goes (hinv : Inv N M s) (hgoes : s.Goes N) :
    Inv N M (s.pass mean N M) ∧ (positives N (s.pass mean N M)).card < (positives N s).card := by
  obtain ⟨k, hk, hnew⟩ := hinv.goes_iff.mp hgoes
  obtain ⟨l, hl, hkl⟩ := hpartner k hk
  exact hinv.pass mean hsymm (hinv.exists_pos hsymm hk hl hkl (hdiag k) hnew)

/-- The loop needs no more passes than positive divergences are left. -/
theorem Inv.loop_ends (passes : Nat) (hinv : Inv N M s) (hpasses : (positives N s).card ≤ passes) :
    ∃ t, loop mean N M passes s = some t ∧ Inv N M t ∧ ¬t.Goes N := by
  induction passes generalizing s with
  | zero =>
    by_cases hgoes : s.Goes N
    · obtain ⟨-, hless⟩ := hinv.pass_of_goes mean hsymm hdiag hpartner hgoes
      omega
    · exact ⟨s, by rw [loop, if_neg hgoes], hinv, hgoes⟩
  | succ passes ih =>
    by_cases hgoes : s.Goes N
    · obtain ⟨hinv', hless⟩ := hinv.pass_of_goes mean hsymm hdiag hpartner hgoes
      obtain ⟨t, hloop, ht⟩ := ih hinv' (by omega)
      exact ⟨t, by rw [loop, if_pos hgoes, hloop], ht⟩
    · exact ⟨s, by rw [loop, if_neg hgoes], hinv, hgoes⟩

variable {mean} in
/-- The invariant holds of what is reached. -/
theorem Inv.reached (hinv : Inv N M s) {t : Pruning K} (ht : Reached mean N M s t) : Inv N M t := by
  induction ht with
  | start => exact hinv
  | pass _ hgoes ih => exact (ih.pass_of_goes mean hsymm hdiag hpartner hgoes).1

end Partners

/-! ## No positive divergence left -/

omit [IsStrictOrderedRing K] in
/-- Without positive entries the matrix has none above zero. -/
theorem Inv.nonpos (hinv : Inv N M s) (hnone : positives N s = ∅) : ∀ i < N, ∀ j < N, s.dReg i j ≤ 0 := by
  intro i hi j hj
  rcases Nat.lt_or_ge i j with hij | hij
  · by_contra hpos
    have hmem := mem_positives.mpr ⟨hj, hij, not_le.mp hpos⟩
    rw [hnone] at hmem
    simp at hmem
  · rw [hinv.below i j hij]

/-- The pass takes the first element with itself. -/
theorem Inv.pass_none (hinv : Inv N M s) (hnone : positives N s = ∅) (hN : 0 < N) :
    Grows 0 0 s.a s.b (s.pass mean N M).a (s.pass mean N M).b ∧ Short (s.pass mean N M) ∧ (s.pass mean N M).dReg = s.dReg := by
  obtain ⟨hgrows, hshort, hdReg⟩ := pass_cases mean N M hinv.short
    (doubleMatrixMax_first s.dReg s.index hN (hinv.below 0 0 (Nat.le_refl 0)) (hinv.nonpos hnone))
  refine ⟨hgrows, hshort, hdReg.trans ?_⟩
  funext i j
  split_ifs with hfirst
  · obtain ⟨rfl, rfl⟩ := hfirst
    exact (hinv.below 0 0 (Nat.le_refl 0)).symm
  · rfl

variable {mean}

/-- If no element gets into both subsets, those without a positive divergence get into neither. -/
theorem Inv.reached_of_disjoint (hsymm : ∀ i j, M i j = M j i) (hinv : Inv N M s) (hdisjoint : ∀ t, Reached mean N M s t → t.a.Disjoint t.b)
    {t : Pruning K} (ht : Reached mean N M s t) : Inv N M t := by
  induction ht with
  | start => exact hinv
  | @pass t ht hgoes ih =>
    rcases (positives N t).eq_empty_or_nonempty with hnone | hleft
    · obtain ⟨hgrows, hshort, hdReg⟩ := ih.pass_none mean hnone (Nat.zero_lt_of_lt hgoes)
      have hdisjoint' := hdisjoint _ (Reached.pass ht hgoes)
      rcases hgrows.self with ⟨ha, hb⟩ | ⟨-, -, ha, hb⟩
      · obtain ⟨-, hnodup, hlt, hpartner, habove, hbelow⟩ := ih
        refine ⟨hshort, ?_, ?_, ?_, ?_, ?_⟩
        · rwa [ha, hb]
        · rwa [ha, hb]
        · rwa [ha, hb]
        · rwa [ha, hb, hdReg]
        · rwa [hdReg]
      · rw [ha, hb] at hdisjoint'
        exact absurd hdisjoint' (by simp)
    · exact (ih.pass mean hsymm hleft).1

variable (mean) in
/-- The loop ends without an element in both subsets if and only if every element has a positive divergence to another one. -/
theorem Inv.ends_iff (hsymm : ∀ i j, M i j = M j i) (hdiag : ∀ i, M i i = 0) (hinv : Inv N M s) :
    ((∃ passes t, loop mean N M passes s = some t) ∧ ∀ t, Reached mean N M s t → t.a.Disjoint t.b) ↔ ∀ k < N, ∃ l < N, 0 < M k l := by
  constructor
  · rintro ⟨⟨passes, t, hloop⟩, hdisjoint⟩ k hk
    obtain ⟨hreached, hends⟩ := reached_of_loop hloop
    have hinv' := hinv.reached_of_disjoint hsymm hdisjoint hreached
    refine hinv'.partner k ?_
    by_contra hnew
    exact hends (hinv'.goes_iff.mpr ⟨k, hk, hnew⟩)
  · intro hpartner
    obtain ⟨t, hloop, -⟩ := hinv.loop_ends mean hsymm hdiag hpartner _ le_rfl
    refine ⟨⟨_, t, hloop⟩, fun t ht => ?_⟩
    exact List.disjoint_of_nodup_append (hinv.reached hsymm hdiag hpartner ht).nodup

/-! ## The loop that does not end -/

/-- The first element is in a subset, and no positive divergence is left. -/
structure Stuck (N : Nat) (s : Pruning K) : Prop where
  short : Short s
  nonpos : ∀ i < N, ∀ j < N, s.dReg i j ≤ 0
  first : s.dReg 0 0 = 0
  mem : 0 ∈ s.a ∨ 0 ∈ s.b
  goes : s.Goes N

/-- A pass from a state that is stuck leads to one. -/
theorem Stuck.pass (hstuck : Stuck N s) : Stuck N (s.pass mean N M) := by
  obtain ⟨hshort, hnone, hfirst, hmem, hgoes⟩ := hstuck
  obtain ⟨hgrows, hshort', hdReg⟩ := pass_cases mean N M hshort
    (doubleMatrixMax_first s.dReg s.index (Nat.zero_lt_of_lt hgoes) hfirst hnone)
  rcases hgrows.self with ⟨ha, hb⟩ | ⟨hna, hnb, -⟩
  · refine ⟨hshort', fun i hi j hj => ?_, ?_, by rwa [ha, hb], by rwa [Goes, ha, hb]⟩
    · rw [hdReg]
      dsimp only
      split_ifs
      · exact le_refl 0
      · exact hnone i hi j hj
    · rw [hdReg]
      exact if_pos ⟨rfl, rfl⟩
  · exact absurd hmem (by simp [hna, hnb])

/-- A loop that is stuck does not end. -/
theorem Stuck.loop_none (hstuck : Stuck N s) (passes : Nat) : loop mean N M passes s = none := by
  induction passes generalizing s with
  | zero => rw [loop, if_pos hstuck.goes]
  | succ passes ih => rw [loop, if_pos hstuck.goes, ih hstuck.pass]

variable (mean) in
/-- From the start on, with no positive divergence at all, the first pass puts the first element into both subsets. -/
theorem Inv.pass_both (hinv : Inv N M s) (hnone : positives N s = ∅) (ha : s.a = []) (hb : s.b = []) (hN : 2 < N) :
    (s.pass mean N M).a = [0] ∧ (s.pass mean N M).b = [0] ∧ Stuck N (s.pass mean N M) := by
  obtain ⟨hgrows, hshort, hdReg⟩ := hinv.pass_none mean hnone (Nat.zero_lt_of_lt hN)
  have hboth : (s.pass mean N M).a = [0] ∧ (s.pass mean N M).b = [0] := by
    rcases hgrows.self with ⟨ha', hb'⟩ | ⟨-, -, ha', hb'⟩
    · have hmem := hgrows.pair_mem.1
      rw [ha', hb', ha, hb] at hmem
      simp at hmem
    · exact ⟨by rw [ha', ha]; rfl, by rw [hb', hb]; rfl⟩
  refine ⟨hboth.1, hboth.2, hshort, fun i hi j hj => ?_, ?_, ?_, ?_⟩
  · rw [hdReg]
    exact hinv.nonpos hnone i hi j hj
  · rw [hdReg]
    exact hinv.below 0 0 (Nat.le_refl 0)
  · rw [hboth.1]
    exact Or.inl List.mem_cons_self
  · rw [Goes, hboth.1, hboth.2]
    exact hN

end Runs

end Pruning

/-! ## The subset that is kept -/

section Keep

variable {K : Type} [ExactDouble K] [LinearOrder K] [IsStrictOrderedRing K] {N : Nat} {a b : List Nat}

/-- Subsets of one size are close enough. -/
theorem keepIndex_cases : keepIndex K N a b = List.range N ∨ a.length < b.length ∧ keepIndex K N a b = b ∨
    b.length < a.length ∧ keepIndex K N a b = a := by
  rw [keepIndex]
  split_ifs with hgap hless
  · exact Or.inr (Or.inl ⟨hless, rfl⟩)
  · refine Or.inr (Or.inr ⟨lt_of_le_of_ne (not_lt.mp hless) fun heq => ?_, rfl⟩)
    rw [heq, sub_self, zero_div, abs_zero] at hgap
    exact absurd hgap (not_lt.mpr (by norm_num))
  · exact Or.inl rfl

/-- The subsets are sorted before one is kept. -/
theorem keepIndex_sorted (ha : a.Nodup) (hb : b.Nodup) {keep : List Nat}
    (hkeep : keep = keepIndex K N (StableSort.sortBy id a) (StableSort.sortBy id b)) : keep.Pairwise (· < ·) ∧
      (keep = List.range N ∨ a.length < b.length ∧ (∀ k, k ∈ keep ↔ k ∈ b) ∨ b.length < a.length ∧ ∀ k, k ∈ keep ↔ k ∈ a) := by
  have hcases := keepIndex_cases (K := K) (N := N) (a := StableSort.sortBy id a) (b := StableSort.sortBy id b)
  rw [← hkeep, StableSort.length_sortBy, StableSort.length_sortBy] at hcases
  rcases hcases with hall | ⟨hless, hright⟩ | ⟨hless, hleft⟩
  · rw [hall]
    exact ⟨List.pairwise_lt_range, Or.inl rfl⟩
  · rw [hright]
    exact ⟨(Sorting.stable id).pairwise_lt_sort hb, Or.inr (Or.inl ⟨hless, fun k => StableSort.mem_sortBy⟩)⟩
  · rw [hleft]
    exact ⟨(Sorting.stable id).pairwise_lt_sort ha, Or.inr (Or.inr ⟨hless, fun k => StableSort.mem_sortBy⟩)⟩

end Keep

end ADTest

end Blockmon.StatAD
