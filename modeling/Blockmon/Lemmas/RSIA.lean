import Blockmon.RSIA
import Mathlib.Algebra.BigOperators.Intervals

/-!
# The loop that divides the reference set

A pass takes the pair with the largest divergence that is left, and puts those of the pair that are in neither subset into the two (`Grows`).
While a positive divergence is left the invariant stays and one positive divergence less is left (`Inv.pass`); an element that has a positive
divergence to another one is in a subset before none is left (`Inv.exists_pos`).
-/

namespace Blockmon.StatAD

namespace ADTest

/-! ## The largest entry -/

section Max

variable {K : Type} [LinearOrder K]

/-- A search for the largest value, which keeps the first of several. -/
theorem foldl_max {β : Type} (f : β → K) (l : List β) (m : K) (x : β) :
    (∀ p ∈ l, f p ≤ m) ∧ l.foldl (fun s p => if s.1 < f p then (f p, p) else s) (m, x) = (m, x) ∨
      ∃ q ∈ l, m < f q ∧ (∀ p ∈ l, f p ≤ f q) ∧ l.foldl (fun s p => if s.1 < f p then (f p, p) else s) (m, x) = (f q, q) := by
  induction l generalizing m x with
  | nil => simp
  | cons p l ih =>
    rw [List.foldl_cons]
    by_cases hp : m < f p
    · rw [if_pos hp]
      rcases ih (f p) p with ⟨hall, hfold⟩ | ⟨q, hq, hlt, hall, hfold⟩
      · exact Or.inr ⟨p, List.mem_cons_self, hp, by simpa using hall, hfold⟩
      · exact Or.inr ⟨q, List.mem_cons_of_mem _ hq, hp.trans hlt, by simpa [hlt.le] using hall, hfold⟩
    · rw [if_neg hp]
      rcases ih m x with ⟨hall, hfold⟩ | ⟨q, hq, hlt, hall, hfold⟩
      · exact Or.inl ⟨by simpa [not_lt.mp hp] using hall, hfold⟩
      · exact Or.inr ⟨q, List.mem_cons_of_mem _ hq, hlt, by simpa [((not_lt.mp hp).trans_lt hlt).le] using hall, hfold⟩

end Max

section StepIII

variable {K : Type} [ExactDouble K] [LinearOrder K] [IsStrictOrderedRing K] {N : Nat}

variable (matrix : Nat → Nat → K) (index : Nat × Nat) (hN : 0 < N) (hfirst : matrix 0 0 = 0)

include hN hfirst

/-- The indexes are those of a greatest entry. -/
theorem doubleMatrixMax_spec : (doubleMatrixMax N matrix index).1 < N ∧ (doubleMatrixMax N matrix index).2 < N ∧
    ∀ i < N, ∀ j < N, matrix i j ≤ matrix (doubleMatrixMax N matrix index).1 (doubleMatrixMax N matrix index).2 := by
  have hstart : (-99999999 : K) < 0 := by norm_num
  rw [doubleMatrixMax]
  rcases foldl_max (fun p : Nat × Nat => matrix p.1 p.2) ((List.range N).product (List.range N)) (-99999999) index with
    ⟨hall, -⟩ | ⟨q, hq, -, hall, hfold⟩
  · have hle := hall (0, 0) (List.pair_mem_product.mpr ⟨List.mem_range.mpr hN, List.mem_range.mpr hN⟩)
    rw [← hfirst] at hstart
    exact absurd hstart (not_lt.mpr hle)
  · rw [hfold]
    obtain ⟨hrow, hcol⟩ := List.pair_mem_product.mp hq
    exact ⟨List.mem_range.mp hrow, List.mem_range.mp hcol,
      fun i hi j hj => hall (i, j) (List.pair_mem_product.mpr ⟨List.mem_range.mpr hi, List.mem_range.mpr hj⟩)⟩

/-- Where no entry is positive the first one is found. -/
theorem doubleMatrixMax_first (hnone : ∀ i < N, ∀ j < N, matrix i j ≤ 0) : doubleMatrixMax N matrix index = (0, 0) := by
  have hstart : (-99999999 : K) < 0 := by norm_num
  obtain ⟨N', rfl⟩ := Nat.exists_eq_succ_of_ne_zero hN.ne'
  obtain ⟨rest, hrest⟩ : ∃ rest, (List.range (N' + 1)).product (List.range (N' + 1)) = (0, 0) :: rest := by
    rw [List.range_succ_eq_map]
    exact ⟨_, rfl⟩
  have hin : ∀ p ∈ rest, p.1 < N' + 1 ∧ p.2 < N' + 1 := by
    intro p hp
    have hmem : p ∈ (List.range (N' + 1)).product (List.range (N' + 1)) := by
      rw [hrest]
      exact List.mem_cons_of_mem _ hp
    obtain ⟨hrow, hcol⟩ := List.pair_mem_product.mp hmem
    exact ⟨List.mem_range.mp hrow, List.mem_range.mp hcol⟩
  rw [doubleMatrixMax, hrest, List.foldl_cons, if_pos (by rw [hfirst]; exact hstart)]
  rcases foldl_max (fun p : Nat × Nat => matrix p.1 p.2) rest (matrix 0 0) (0, 0) with ⟨-, hfold⟩ | ⟨q, hq, hlt, -, -⟩
  · rw [hfold]
  · obtain ⟨hrow, hcol⟩ := hin q hq
    rw [hfirst] at hlt
    exact absurd hlt (not_lt.mpr (hnone q.1 hrow q.2 hcol))

end StepIII

/-! ## What a pass does to the subsets -/

/-- A longer list overwrites a shorter one. -/
theorem overwrite_of_length_le {src dest : List Nat} (h : dest.length ≤ src.length) : overwrite src dest = src := by
  induction src generalizing dest with
  | nil =>
    rw [List.length_eq_zero_iff.mp (Nat.le_zero.mp h)]
    rfl
  | cons x src ih =>
    cases dest with
    | nil => rw [overwrite, ih (Nat.zero_le _)]
    | cons y dest => rw [overwrite, ih (Nat.le_of_succ_le_succ h)]

/-- What a pass with the pair `i`, `j` makes of the subsets `a`, `b`. -/
inductive Grows (i j : Nat) (a b : List Nat) : List Nat → List Nat → Prop where
  | none (hi : i ∈ a ∨ i ∈ b) (hj : j ∈ a ∨ j ∈ b) : Grows i j a b a b
  | left (k l : Nat) (hkl : k = i ∧ l = j ∨ k = j ∧ l = i) (hka : k ∉ a) (hkb : k ∉ b) (hl : l ∈ a ∨ l ∈ b) : Grows i j a b (a ++ [k]) b
  | right (k l : Nat) (hkl : k = i ∧ l = j ∨ k = j ∧ l = i) (hka : k ∉ a) (hkb : k ∉ b) (hl : l ∈ a ∨ l ∈ b) : Grows i j a b a (b ++ [k])
  | both (hia : i ∉ a) (hib : i ∉ b) (hja : j ∉ a) (hjb : j ∉ b) : Grows i j a b (a ++ [i]) (b ++ [j])
  | swapped (hia : i ∉ a) (hib : i ∉ b) (hja : j ∉ a) (hjb : j ∉ b) : Grows i j a b (a ++ [j]) (b ++ [i])

namespace Grows

variable {i j : Nat} {a b a' b' : List Nat}

/-- What was in a branch stays in one. -/
theorem mem_of_mem (h : Grows i j a b a' b') {k : Nat} (hk : k ∈ a ∨ k ∈ b) : k ∈ a' ∨ k ∈ b' := by
  cases h with
  | none => exact hk
  | _ =>
    simp only [List.mem_append]
    tauto

/-- What is in a branch was there or is one of the two. -/
theorem mem_or_eq (h : Grows i j a b a' b') {k : Nat} (hk : k ∈ a' ∨ k ∈ b') : (k ∈ a ∨ k ∈ b) ∨ k = i ∨ k = j := by
  cases h with
  | none => exact Or.inl hk
  | left _ _ hkl =>
    simp only [List.mem_append, List.mem_singleton] at hk
    rcases hkl with ⟨rfl, rfl⟩ | ⟨rfl, rfl⟩ <;> tauto
  | right _ _ hkl =>
    simp only [List.mem_append, List.mem_singleton] at hk
    rcases hkl with ⟨rfl, rfl⟩ | ⟨rfl, rfl⟩ <;> tauto
  | both =>
    simp only [List.mem_append, List.mem_singleton] at hk
    tauto
  | swapped =>
    simp only [List.mem_append, List.mem_singleton] at hk
    tauto

/-- The pair is in the subsets then. -/
theorem pair_mem (h : Grows i j a b a' b') : (i ∈ a' ∨ i ∈ b') ∧ (j ∈ a' ∨ j ∈ b') := by
  cases h with
  | none hi hj => exact ⟨hi, hj⟩
  | left _ _ hkl =>
    simp only [List.mem_append, List.mem_singleton]
    rcases hkl with ⟨rfl, rfl⟩ | ⟨rfl, rfl⟩ <;> tauto
  | right _ _ hkl =>
    simp only [List.mem_append, List.mem_singleton]
    rcases hkl with ⟨rfl, rfl⟩ | ⟨rfl, rfl⟩ <;> tauto
  | both => simp
  | swapped => simp

/-- An element with itself. -/
theorem self (h : Grows i i a b a' b') : a' = a ∧ b' = b ∨ i ∉ a ∧ i ∉ b ∧ a' = a ++ [i] ∧ b' = b ++ [i] := by
  cases h with
  | none => exact Or.inl ⟨rfl, rfl⟩
  | left _ _ hkl hka hkb hl =>
    rcases hkl with ⟨rfl, rfl⟩ | ⟨rfl, rfl⟩ <;> exact absurd hl (by simp [hka, hkb])
  | right _ _ hkl hka hkb hl =>
    rcases hkl with ⟨rfl, rfl⟩ | ⟨rfl, rfl⟩ <;> exact absurd hl (by simp [hka, hkb])
  | both hia hib => exact Or.inr ⟨hia, hib, rfl, rfl⟩
  | swapped hia hib => exact Or.inr ⟨hia, hib, rfl, rfl⟩

/-- Nothing comes twice into the branches. -/
theorem nodup (h : Grows i j a b a' b') (hnodup : (a ++ b).Nodup) (hij : i ≠ j) : (a' ++ b').Nodup := by
  have hperm : ∀ {x : Nat}, (a ++ [x] ++ b).Perm (x :: (a ++ b)) := by
    intro x
    rw [List.append_assoc]
    exact List.perm_middle
  cases h with
  | none => exact hnodup
  | left k l hkl hka hkb =>
    refine hperm.nodup_iff.mpr (List.nodup_cons.mpr ⟨?_, hnodup⟩)
    simp [hka, hkb]
  | right k l hkl hka hkb =>
    rw [← List.append_assoc]
    refine (List.perm_append_singleton k (a ++ b)).nodup_iff.mpr (List.nodup_cons.mpr ⟨?_, hnodup⟩)
    simp [hka, hkb]
  | both hia hib hja hjb =>
    rw [← List.append_assoc]
    refine (List.perm_append_singleton j _).nodup_iff.mpr (List.nodup_cons.mpr ⟨?_, hperm.nodup_iff.mpr (List.nodup_cons.mpr ⟨?_, hnodup⟩)⟩)
    · simp [hja, hjb, hij.symm]
    · simp [hia, hib]
  | swapped hia hib hja hjb =>
    rw [← List.append_assoc]
    refine (List.perm_append_singleton i _).nodup_iff.mpr (List.nodup_cons.mpr ⟨?_, hperm.nodup_iff.mpr (List.nodup_cons.mpr ⟨?_, hnodup⟩)⟩)
    · simp [hia, hib, hij]
    · simp [hja, hjb]

end Grows

namespace Pruning

section Short

variable {K : Type} {s : Pruning K}

/-- The vectors of the branches do not outgrow the subsets. -/
structure Short (s : Pruning K) : Prop where
  aBranch1 : s.aBranch1.length ≤ s.a.length
  aBranch2 : s.aBranch2.length ≤ s.a.length
  bBranch1 : s.bBranch1.length ≤ s.b.length
  bBranch2 : s.bBranch2.length ≤ s.b.length

/-- One more in the first branch, in the room that there is. -/
theorem Short.left (hshort : Short s) (k : Nat) : Short { s with a := s.a ++ [k] } := by
  obtain ⟨ha1, ha2, hb1, hb2⟩ := hshort
  exact ⟨by simp; omega, by simp; omega, hb1, hb2⟩

/-- One more in the second branch, in the room that there is. -/
theorem Short.right (hshort : Short s) (k : Nat) : Short { s with b := s.b ++ [k] } := by
  obtain ⟨ha1, ha2, hb1, hb2⟩ := hshort
  exact ⟨ha1, ha2, by simp; omega, by simp; omega⟩

end Short

section Pass

variable {K : Type} [LinearOrder K] (mean : List (List K) → K) (N : Nat) (M : Nat → Nat → K) {s : Pruning K} {i j : Nat}

/-- In the last case both branches begin with the subsets, so that one index is added to each of these. -/
theorem branch_cases (hshort : Short s) :
    ((s.branch mean M i j).a = s.a ++ [i] ∧ (s.branch mean M i j).b = s.b ++ [j] ∨ (s.branch mean M i j).a = s.a ++ [j] ∧ (s.branch mean M i j).b = s.b ++ [i]) ∧
      Short (s.branch mean M i j) ∧ (s.branch mean M i j).dReg = s.dReg := by
  obtain ⟨ha1, ha2, hb1, hb2⟩ := hshort
  have hover : ∀ (l : List Nat) (x : Nat), overwrite (l ++ [x]) l = l ++ [x] := by
    intro l x
    exact overwrite_of_length_le (by simp)
  simp only [branch, overwrite_of_length_le ha1, overwrite_of_length_le ha2, overwrite_of_length_le hb1, overwrite_of_length_le hb2, hover]
  split
  · exact ⟨Or.inl ⟨rfl, rfl⟩, ⟨by simp, by simp, by simp, by simp⟩, rfl⟩
  · exact ⟨Or.inr ⟨rfl, rfl⟩, ⟨by simp, by simp, by simp, by simp⟩, rfl⟩

/-- An assignment adds the two indexes at most. -/
theorem assign_cases (hshort : Short s) :
    Grows i j s.a s.b (s.assign mean M i j).a (s.assign mean M i j).b ∧ Short (s.assign mean M i j) ∧ (s.assign mean M i j).dReg = s.dReg := by
  have hfind : ∀ {l : List Nat} {k : Nat}, findInUintVector l k > 0 ↔ k ∈ l := List.count_pos_iff
  have hnone : ∀ {l : List Nat} {k : Nat}, findInUintVector l k = 0 ↔ k ∉ l := List.count_eq_zero
  simp only [assign, hfind, hnone]
  split_ifs with hia hj hja hi hib hj hjb hi
  · exact ⟨Grows.right j i (Or.inr ⟨rfl, rfl⟩) hj.2 hj.1 (Or.inl hia), hshort.right j, rfl⟩
  · exact ⟨Grows.none (Or.inl hia) (by tauto), hshort, rfl⟩
  · exact ⟨Grows.right i j (Or.inl ⟨rfl, rfl⟩) hi.2 hi.1 (Or.inl hja), hshort.right i, rfl⟩
  · exact ⟨Grows.none (by tauto) (Or.inl hja), hshort, rfl⟩
  · exact ⟨Grows.left j i (Or.inr ⟨rfl, rfl⟩) hj.1 hj.2 (Or.inr hib), hshort.left j, rfl⟩
  · exact ⟨Grows.none (Or.inr hib) (by tauto), hshort, rfl⟩
  · exact ⟨Grows.left i j (Or.inl ⟨rfl, rfl⟩) hi.1 hi.2 (Or.inr hjb), hshort.left i, rfl⟩
  · exact ⟨Grows.none (by tauto) (Or.inr hjb), hshort, rfl⟩
  · obtain ⟨hsets, hshort', hdReg⟩ := branch_cases mean M (i := i) (j := j) hshort
    refine ⟨?_, hshort', hdReg⟩
    rcases hsets with ⟨ha, hb⟩ | ⟨ha, hb⟩
    · rw [ha, hb]
      exact Grows.both hia hib hja hjb
    · rw [ha, hb]
      exact Grows.swapped hia hib hja hjb

/-- What a pass does, for the pair that it takes. -/
theorem pass_cases [ExactDouble K] (hshort : Short s) {p : Nat × Nat} (hp : doubleMatrixMax N s.dReg s.index = p) :
    Grows p.1 p.2 s.a s.b (s.pass mean N M).a (s.pass mean N M).b ∧ Short (s.pass mean N M) ∧
      (s.pass mean N M).dReg = fun i j => if i = p.1 ∧ j = p.2 then 0 else s.dReg i j := by
  subst hp
  exact assign_cases mean M (s := { s with
    dReg := fun i j => if i = (doubleMatrixMax N s.dReg s.index).1 ∧ j = (doubleMatrixMax N s.dReg s.index).2 then 0 else s.dReg i j
    index := doubleMatrixMax N s.dReg s.index }) ⟨hshort.aBranch1, hshort.aBranch2, hshort.bBranch1, hshort.bBranch2⟩

end Pass

/-! ## The invariant -/

section Inv

variable {K : Type} [ExactDouble K] [LinearOrder K]

/-- What is left of a divergence is the divergence, or nothing if its pair is in the subsets; an element of a subset has a positive divergence to
another element. -/
structure Inv (N : Nat) (M : Nat → Nat → K) (s : Pruning K) : Prop where
  short : Short s
  nodup : (s.a ++ s.b).Nodup
  lt : ∀ k, k ∈ s.a ∨ k ∈ s.b → k < N
  partner : ∀ k, k ∈ s.a ∨ k ∈ s.b → ∃ l < N, 0 < M k l
  above : ∀ i j, i < j → j < N → s.dReg i j = M i j ∨ s.dReg i j = 0 ∧ (i ∈ s.a ∨ i ∈ s.b) ∧ (j ∈ s.a ∨ j ∈ s.b)
  below : ∀ i j, j ≤ i → s.dReg i j = 0

/-- The pairs whose divergence is left. -/
def positives (N : Nat) (s : Pruning K) : Finset (Σ _ : Nat, Nat) :=
  ((Finset.range N).sigma fun j => Finset.range j).filter fun p => 0 < s.dReg p.2 p.1

/-- There are as many positive entries as pairs at most. -/
theorem card_positives_le (N : Nat) (s : Pruning K) : (positives N s).card ≤ N * (N - 1) / 2 := by
  refine (Finset.card_filter_le _ _).trans ?_
  rw [Finset.card_sigma]
  simp only [Finset.card_range]
  exact (Finset.sum_range_id N).le

/-- The positive entries. -/
theorem mem_positives {N : Nat} {s : Pruning K} {i j : Nat} : ⟨j, i⟩ ∈ positives N s ↔ j < N ∧ i < j ∧ 0 < s.dReg i j := by
  simp [positives, and_assoc]

variable {N : Nat} {M : Nat → Nat → K} {s : Pruning K}

/-- While an element is in neither subset, its divergences are left. -/
theorem Inv.exists_pos (hinv : Inv N M s) (hsymm : ∀ i j, M i j = M j i) {k l : Nat} (hk : k < N) (hl : l < N) (hkl : 0 < M k l) (hdiag : M k k = 0)
    (hnew : ¬(k ∈ s.a ∨ k ∈ s.b)) : (positives N s).Nonempty := by
  rcases Nat.lt_trichotomy k l with hlt | rfl | hlt
  · refine ⟨⟨l, k⟩, mem_positives.mpr ⟨hl, hlt, ?_⟩⟩
    rcases hinv.above k l hlt hl with heq | ⟨-, hold, -⟩
    · rwa [heq]
    · exact absurd hold hnew
  · rw [hdiag] at hkl
    exact absurd hkl (lt_irrefl 0)
  · refine ⟨⟨k, l⟩, mem_positives.mpr ⟨hk, hlt, ?_⟩⟩
    rcases hinv.above l k hlt hk with heq | ⟨-, -, hold⟩
    · rwa [heq, hsymm]
    · exact absurd hold hnew

/-- The subsets hold all the elements exactly if they hold so many. -/
theorem Inv.goes_iff (hinv : Inv N M s) : s.Goes N ↔ ∃ k < N, ¬(k ∈ s.a ∨ k ∈ s.b) := by
  have hsub : (s.a ++ s.b).toFinset ⊆ Finset.range N := by
    intro k hk
    exact Finset.mem_range.mpr (hinv.lt k (List.mem_append.mp (List.mem_toFinset.mp hk)))
  have hcard : (s.a ++ s.b).toFinset.card = s.a.length + s.b.length := by
    rw [List.toFinset_card_of_nodup hinv.nodup, List.length_append]
  constructor
  · intro hgoes
    by_contra hall
    simp only [not_exists, not_and, not_not] at hall
    have hle : (Finset.range N).card ≤ (s.a ++ s.b).toFinset.card := by
      refine Finset.card_le_card fun k hk => ?_
      exact List.mem_toFinset.mpr (List.mem_append.mpr (hall k (Finset.mem_range.mp hk)))
    rw [Finset.card_range, hcard] at hle
    exact absurd hgoes (Nat.not_lt.mpr hle)
  · rintro ⟨k, hk, hnew⟩
    have hlt : (s.a ++ s.b).toFinset.card < (Finset.range N).card := by
      refine Finset.card_lt_card ⟨hsub, fun hsup => hnew ?_⟩
      exact List.mem_append.mp (List.mem_toFinset.mp (hsup (Finset.mem_range.mpr hk)))
    rwa [Finset.card_range, hcard] at hlt

variable [IsStrictOrderedRing K] (mean : List (List K) → K)

/-- A pass with a positive divergence left. -/
theorem Inv.pass (hinv : Inv N M s) (hsymm : ∀ i j, M i j = M j i) (hleft : (positives N s).Nonempty) :
    Inv N M (s.pass mean N M) ∧ (positives N (s.pass mean N M)).card < (positives N s).card := by
  obtain ⟨⟨l, k⟩, hkl⟩ := hleft
  obtain ⟨hl, hkl, hpos⟩ := mem_positives.mp hkl
  obtain ⟨⟨i, j⟩, hp⟩ : ∃ p, doubleMatrixMax N s.dReg s.index = p := ⟨_, rfl⟩
  obtain ⟨hi, hj, hmax⟩ := doubleMatrixMax_spec s.dReg s.index (show 0 < N by omega) (hinv.below 0 0 (Nat.le_refl 0))
  rw [hp] at hi hj hmax
  have hpair : 0 < s.dReg i j := hpos.trans_le (hmax k (hkl.trans hl) l hl)
  have hij : i < j := by
    by_contra hge
    rw [hinv.below i j (by omega)] at hpair
    exact lt_irrefl 0 hpair
  have hMij : 0 < M i j := by
    rcases hinv.above i j hij hj with heq | ⟨heq, -⟩
    · rwa [← heq]
    · rw [heq] at hpair
      exact absurd hpair (lt_irrefl 0)
  obtain ⟨hgrows, hshort, hdReg⟩ := pass_cases mean N M hinv.short hp
  refine ⟨⟨hshort, hgrows.nodup hinv.nodup hij.ne, fun x hx => ?_, fun x hx => ?_, fun x y hxy hy => ?_, fun x y hxy => ?_⟩, ?_⟩
  · rcases hgrows.mem_or_eq hx with hold | rfl | rfl
    · exact hinv.lt x hold
    · exact hi
    · exact hj
  · rcases hgrows.mem_or_eq hx with hold | rfl | rfl
    · exact hinv.partner x hold
    · exact ⟨j, hj, hMij⟩
    · exact ⟨i, hi, by rwa [hsymm]⟩
  · rw [hdReg]
    dsimp only
    split_ifs with htaken
    · obtain ⟨rfl, rfl⟩ := htaken
      exact Or.inr ⟨rfl, hgrows.pair_mem⟩
    · exact (hinv.above x y hxy hy).imp_right fun h => ⟨h.1, hgrows.mem_of_mem h.2.1, hgrows.mem_of_mem h.2.2⟩
  · rw [hdReg]
    dsimp only
    split_ifs
    · rfl
    · exact hinv.below x y hxy
  · refine Finset.card_lt_card ⟨?_, fun hsub => ?_⟩
    · rintro ⟨y, x⟩ hx
      obtain ⟨hy, hxy, hpos'⟩ := mem_positives.mp hx
      rw [hdReg] at hpos'
      dsimp only at hpos'
      split_ifs at hpos' with htaken
      · exact absurd hpos' (lt_irrefl 0)
      · exact mem_positives.mpr ⟨hy, hxy, hpos'⟩
    · obtain ⟨-, -, hpos'⟩ := mem_positives.mp (hsub (mem_positives.mpr ⟨hj, hij, hpair⟩))
      rw [hdReg] at hpos'
      simp at hpos'

end Inv

end Pruning

end ADTest

end Blockmon.StatAD
