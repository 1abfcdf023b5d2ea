import Mathlib.Data.List.Sort
import Mathlib.Order.Defs.LinearOrder
import Mathlib.Algebra.Order.Ring.Int

/-!
# Sorting a list by a key

`sortBy` keeps the order of elements of the same key, so that it commutes with taking out the elements with a property. A sorted list
is its elements below a key and then the others; turning a sorted list at a key is therefore sorting by another key, one that counts from
there. Sorting lists of distinct keys gives one list whatever order the elements came in.

A `Sorting` only puts the elements in the order of a key. The first elements of a sorted list are the smallest ones, whatever the ties
(`Sorting.take_le_drop`). `Sorting.stable` is an instance that computes.
-/

namespace StableSort

variable {α β κ : Type} [LinearOrder κ]

/-- The elements by their keys, equal ones in their order. -/
def sortBy (key : α → κ) (l : List α) : List α := l.insertionSort fun a b => key a ≤ key b

@[simp] theorem sortBy_nil (key : α → κ) : sortBy key [] = [] := rfl

/-- Sorting permutes. -/
theorem perm_sortBy (key : α → κ) (l : List α) : (sortBy key l).Perm l := List.perm_insertionSort _ l

@[simp] theorem length_sortBy (key : α → κ) (l : List α) : (sortBy key l).length = l.length := (perm_sortBy key l).length_eq

/-- Sorting makes no list empty. -/
theorem sortBy_ne_nil {key : α → κ} {l : List α} (h : l ≠ []) : sortBy key l ≠ [] := by
  rw [← List.length_pos_iff, length_sortBy]
  exact List.length_pos_iff.mpr h

@[simp] theorem mem_sortBy {key : α → κ} {l : List α} {a : α} : a ∈ sortBy key l ↔ a ∈ l := (perm_sortBy key l).mem_iff

instance total_key (key : α → κ) : Std.Total fun a b => key a ≤ key b := ⟨fun a b => le_total (key a) (key b)⟩

instance isTrans_key (key : α → κ) : IsTrans α fun a b => key a ≤ key b := ⟨fun _ _ _ => le_trans⟩

/-- The keys are in order. -/
theorem pairwise_sortBy (key : α → κ) (l : List α) : (sortBy key l).Pairwise fun a b => key a ≤ key b :=
  List.pairwise_insertionSort _ l

/-- A list in order stays. -/
theorem sortBy_eq_self {key : α → κ} {l : List α} (h : l.Pairwise fun a b => key a ≤ key b) : sortBy key l = l :=
  List.Pairwise.insertionSort_eq h

/-- Only the order of the keys counts. -/
theorem sortBy_congr {κ' : Type} [LinearOrder κ'] {key : α → κ} {key' : α → κ'} {l : List α}
    (h : ∀ a ∈ l, ∀ b ∈ l, key a ≤ key b ↔ key' a ≤ key' b) : sortBy key l = sortBy key' l := by
  have := List.map_insertionSort (fun a b => key a ≤ key b) (fun a b => key' a ≤ key' b) id l h
  rwa [List.map_id, List.map_id] at this

/-- A function that keeps the keys commutes with sorting. -/
theorem map_sortBy (f : α → β) {key : α → κ} (key' : β → κ) (l : List α) (h : ∀ a, key' (f a) = key a) :
    (sortBy key l).map f = sortBy key' (l.map f) := by
  refine List.map_insertionSort _ _ f l fun a _ b _ => ?_
  rw [h, h]

/-! ## Elements with a property -/

/-- A filter of an insertion. -/
theorem filter_orderedInsert (key : α → κ) (p : α → Bool) (a : α) {l : List α} (hl : l.Pairwise fun a b => key a ≤ key b) :
    (l.orderedInsert (fun a b => key a ≤ key b) a).filter p =
      if p a then (l.filter p).orderedInsert (fun a b => key a ≤ key b) a else l.filter p := by
  induction l with
  | nil => simp [List.filter_cons]
  | cons b l ih =>
    obtain ⟨hb, hl⟩ := List.pairwise_cons.mp hl
    rw [List.orderedInsert_cons]
    split
    · next hab =>
      rw [List.filter_cons]
      split
      · -- the element comes before everything that is kept
        cases hkept : (b :: l).filter p with
        | nil => rfl
        | cons c k =>
          have hc : c ∈ b :: l := List.mem_of_mem_filter (hkept ▸ List.mem_cons_self)
          have hbc : key b ≤ key c := by
            rcases List.mem_cons.mp hc with rfl | hc
            · exact le_refl _
            · exact hb c hc
          rw [List.orderedInsert_cons, if_pos (le_trans hab hbc)]
      · rfl
    · next hab =>
      rw [List.filter_cons, ih hl, List.filter_cons]
      by_cases hpb : p b = true
      · rw [if_pos hpb, if_pos hpb]
        split
        · rw [List.orderedInsert_cons, if_neg hab]
        · rfl
      · rw [if_neg hpb, if_neg hpb]

/-- Sorting is stable. -/
theorem filter_sortBy (key : α → κ) (p : α → Bool) (l : List α) : (sortBy key l).filter p = sortBy key (l.filter p) := by
  induction l with
  | nil => rfl
  | cons a l ih =>
    have hcons : sortBy key (a :: l) = (sortBy key l).orderedInsert (fun a b => key a ≤ key b) a := rfl
    rw [hcons, filter_orderedInsert key p a (pairwise_sortBy key l), ih, List.filter_cons]
    split <;> rfl

/-! ## Turning a sorted list -/

/-- A list in which nothing without the property comes before something with it. -/
theorem eq_filter_append {p : α → Bool} {l : List α} (h : l.Pairwise fun a b => p b = true → p a = true) :
    l = l.filter p ++ l.filter fun a => !p a := by
  induction l with
  | nil => rfl
  | cons a l ih =>
    obtain ⟨ha, hl⟩ := List.pairwise_cons.mp h
    by_cases hpa : p a = true
    · simp only [List.filter_cons, hpa, if_true, Bool.not_true, Bool.false_eq_true, if_false, List.cons_append]
      rw [← ih hl]
    · have hnone : ∀ b ∈ l, ¬p b = true := fun b hb hpb => hpa (ha b hb hpb)
      have hempty : l.filter p = [] := List.filter_eq_nil_iff.mpr hnone
      have hall : (l.filter fun a => !p a) = l := List.filter_eq_self.mpr fun b hb => by simpa using hnone b hb
      simp [hpa, hempty, hall]

/-- Predicates that agree on a list take the same part of it. -/
theorem takeWhile_congr {p q : α → Bool} {l : List α} (h : ∀ a ∈ l, p a = q a) : l.takeWhile p = l.takeWhile q := by
  induction l with
  | nil => rfl
  | cons a l ih =>
    rw [List.takeWhile_cons, List.takeWhile_cons, h a List.mem_cons_self, ih fun b hb => h b (List.mem_cons_of_mem _ hb)]

/-- Predicates that agree on a list leave the same part of it. -/
theorem dropWhile_congr {p q : α → Bool} {l : List α} (h : ∀ a ∈ l, p a = q a) : l.dropWhile p = l.dropWhile q := by
  induction l with
  | nil => rfl
  | cons a l ih =>
    rw [List.dropWhile_cons, List.dropWhile_cons, h a List.mem_cons_self, ih fun b hb => h b (List.mem_cons_of_mem _ hb)]

/-- The part of a sorted list before a key that is in it. -/
theorem takeWhile_ne {key : α → κ} {k : κ} {l : List α} (hl : l.Pairwise fun a b => key a ≤ key b) (hk : ∃ a ∈ l, key a = k) :
    (l.takeWhile fun a => key a ≠ k) = l.filter fun a => key a < k := by
  induction l with
  | nil => rfl
  | cons a l ih =>
    obtain ⟨ha, hl⟩ := List.pairwise_cons.mp hl
    by_cases hak : key a = k
    · have hnone : ∀ b ∈ a :: l, ¬key b < k := by
        intro b hb
        rcases List.mem_cons.mp hb with rfl | hb
        · exact not_lt.mpr (le_of_eq hak.symm)
        · exact not_lt.mpr (hak ▸ ha b hb)
      rw [List.takeWhile_cons, if_neg (by simpa using hak)]
      exact (List.filter_eq_nil_iff.mpr fun b hb => by simpa using hnone b hb).symm
    · obtain ⟨b, hb, hbk⟩ := hk
      have hbl : b ∈ l := (List.mem_cons.mp hb).resolve_left fun h => hak (h ▸ hbk)
      have hlt : key a < k := lt_of_le_of_ne (hbk ▸ ha b hbl) hak
      rw [List.takeWhile_cons, if_pos (by simpa using hak), List.filter_cons, if_pos (by simpa using hlt), ih hl ⟨b, hbl, hbk⟩]

/-- To turn a sorted list at a key is to sort by a key that puts what is below it behind the rest and keeps the order in both. -/
theorem turn_sortBy {κ' : Type} [LinearOrder κ'] {key : α → κ} (rank : α → κ') {k : κ} {l : List α} (hk : ∃ a ∈ l, key a = k)
    (hlow : ∀ a ∈ l, ∀ b ∈ l, key a < k → k ≤ key b → rank b < rank a)
    (hsame : ∀ a ∈ l, ∀ b ∈ l, (key a < k ↔ key b < k) → (key a ≤ key b ↔ rank a ≤ rank b)) :
    ((sortBy key l).dropWhile fun a => key a ≠ k) ++ ((sortBy key l).takeWhile fun a => key a ≠ k) = sortBy rank l := by
  have hk' : ∃ a ∈ sortBy key l, key a = k := by
    obtain ⟨a, ha, hak⟩ := hk
    exact ⟨a, mem_sortBy.mpr ha, hak⟩
  have hfront := takeWhile_ne (pairwise_sortBy key l) hk'
  have hsplit : sortBy key l = ((sortBy key l).filter fun a => key a < k) ++ (sortBy key l).filter fun a => !decide (key a < k) := by
    refine eq_filter_append ((pairwise_sortBy key l).imp ?_)
    intro a b hab hb
    simp only [decide_eq_true_eq] at hb ⊢
    exact lt_of_le_of_lt hab hb
  have hback : ((sortBy key l).dropWhile fun a => key a ≠ k) = (sortBy key l).filter fun a => !decide (key a < k) := by
    have hwhole := List.takeWhile_append_dropWhile (p := fun a => decide (key a ≠ k)) (l := sortBy key l)
    rw [hfront] at hwhole
    exact List.append_cancel_left (hwhole.trans hsplit)
  have hranked : sortBy rank l = ((sortBy rank l).filter fun a => !decide (key a < k)) ++ (sortBy rank l).filter fun a => key a < k := by
    have := eq_filter_append (l := sortBy rank l) (p := fun a => !decide (key a < k)) (by
      refine (pairwise_sortBy rank l).imp_of_mem ?_
      intro a b ha hb hab hkb
      simp only [Bool.not_eq_true', decide_eq_false_iff_not] at hkb ⊢
      intro hka
      exact absurd (hlow a (mem_sortBy.mp ha) b (mem_sortBy.mp hb) hka (not_lt.mp hkb)) (not_lt.mpr hab))
    simpa using this
  rw [hback, hfront, hranked, filter_sortBy, filter_sortBy, filter_sortBy, filter_sortBy]
  congr 1
  · refine sortBy_congr fun a ha b hb => hsame a (List.mem_of_mem_filter ha) b (List.mem_of_mem_filter hb) ?_
    have hna := (List.mem_filter.mp ha).2
    have hnb := (List.mem_filter.mp hb).2
    simp only [Bool.not_eq_true', decide_eq_false_iff_not] at hna hnb
    exact iff_of_false hna hnb
  · refine sortBy_congr fun a ha b hb => hsame a (List.mem_of_mem_filter ha) b (List.mem_of_mem_filter hb) ?_
    have hla := (List.mem_filter.mp ha).2
    have hlb := (List.mem_filter.mp hb).2
    simp only [decide_eq_true_eq] at hla hlb
    exact iff_of_true hla hlb

/-! ## Distinct keys -/

/-- With different keys the order of the list does not matter. -/
theorem sortBy_perm {key : α → κ} {l l' : List α} (hperm : l.Perm l') (hinj : ∀ a ∈ l, ∀ b ∈ l, key a = key b → a = b) :
    sortBy key l = sortBy key l' := by
  refine List.Perm.eq_of_pairwise ?_ (pairwise_sortBy key l) (pairwise_sortBy key l')
    ((perm_sortBy key l).trans (hperm.trans (perm_sortBy key l').symm))
  intro a b ha hb hab hba
  exact hinj a (mem_sortBy.mp ha) b (hperm.mem_iff.mpr (mem_sortBy.mp hb)) (le_antisymm hab hba)

/-- What comes behind everything else stays where it is. -/
theorem sortBy_append_of_le {key : α → κ} {l : List α} {a : α} (h : ∀ b ∈ l, key b ≤ key a) :
    sortBy key (sortBy key l ++ [a]) = sortBy key l ++ [a] := by
  refine sortBy_eq_self (List.pairwise_append.mpr ⟨pairwise_sortBy key l, List.pairwise_singleton _ _, ?_⟩)
  intro b hb c hc
  rw [List.mem_singleton.mp hc]
  exact h b (mem_sortBy.mp hb)

end StableSort

/-! ## Where equal keys may come in any order -/

/-- It is not determined which of several elements with the same key comes first. -/
structure Sorting (α κ : Type) [LinearOrder κ] (key : α → κ) where
  sort : List α → List α
  perm_sort : ∀ l, (sort l).Perm l
  pairwise_sort : ∀ l, (sort l).Pairwise fun a b => key a ≤ key b

namespace Sorting

variable {α κ : Type} [LinearOrder κ] {key : α → κ} (S : Sorting α κ key)

/-- Sorting keeps the elements. -/
theorem mem_sort {l : List α} {a : α} : a ∈ S.sort l ↔ a ∈ l := (S.perm_sort l).mem_iff

/-- Sorting keeps the length. -/
theorem length_sort (l : List α) : (S.sort l).length = l.length := (S.perm_sort l).length_eq

/-- What is taken is at most what is left. -/
theorem take_le_drop (l : List α) (n : Nat) : ∀ a ∈ (S.sort l).take n, ∀ b ∈ (S.sort l).drop n, key a ≤ key b := by
  have hsorted := S.pairwise_sort l
  rw [← List.take_append_drop n (S.sort l)] at hsorted
  exact (List.pairwise_append.mp hsorted).2.2

/-- Different keys make a strict order. -/
theorem pairwise_lt_sort {l : List α} (h : l.Pairwise fun a b => key a ≠ key b) : (S.sort l).Pairwise fun a b => key a < key b := by
  have hne : (S.sort l).Pairwise fun a b => key a ≠ key b := (S.perm_sort l).pairwise_iff (fun hab => hab.symm) |>.mpr h
  refine ((S.pairwise_sort l).and hne).imp ?_
  rintro a b ⟨hle, hne⟩
  exact lt_of_le_of_ne hle hne

/-- The stable sorting is one. -/
def stable (key : α → κ) : Sorting α κ key where
  sort := StableSort.sortBy key
  perm_sort := StableSort.perm_sortBy key
  pairwise_sort := StableSort.pairwise_sortBy key

end Sorting
