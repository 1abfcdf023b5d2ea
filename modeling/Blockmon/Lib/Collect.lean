import Mathlib.Data.List.Range
import Mathlib.Data.List.Perm.Basic
import Mathlib.Algebra.Order.Ring.Int

/-!
# Collecting the values of a partial function over an interval

`collect f lo hi` lists the values of `f` at the places `lo ≤ i < hi` where it is defined, in order. The lemmas say how the list
changes when the interval moves by one place or the function changes at one place. `firsts w n` lists the different values of `w`
below `n` in the order in which they come first.
-/

namespace Collect

variable {α : Type*} {f g : Nat → Option α} {lo hi : Nat}

/-- The values of a function between two numbers. -/
def collect (f : Nat → Option α) (lo hi : Nat) : List α := (List.range' lo (hi - lo)).filterMap f

/-- Only the places inside the interval matter. -/
theorem collect_congr (h : ∀ i, lo ≤ i → i < hi → f i = g i) : collect f lo hi = collect g lo hi := by
  apply List.filterMap_congr
  intro i hi'
  rw [List.mem_range'_1] at hi'
  exact h i hi'.1 (by omega)

/-- Between no numbers there are none. -/
theorem collect_of_le (h : hi ≤ lo) : collect f lo hi = [] := by
  simp [collect, Nat.sub_eq_zero_of_le h]

/-- The first place taken out of the interval. -/
theorem collect_cons {a : α} (h : lo < hi) (hf : f lo = some a) : collect f lo hi = a :: collect f (lo + 1) hi := by
  obtain ⟨n, hn⟩ : ∃ n, hi - lo = n + 1 := ⟨hi - lo - 1, by omega⟩
  have hn' : hi - (lo + 1) = n := by omega
  simp only [collect, hn, hn', List.range'_succ, List.filterMap_cons, hf]

/-- An undefined place added at the end. -/
theorem collect_succ_none (hf : f hi = none) : collect f lo (hi + 1) = collect f lo hi := by
  by_cases h : lo ≤ hi
  · have hn : hi + 1 - lo = (hi - lo) + 1 := by omega
    have hlast : lo + 1 * (hi - lo) = hi := by omega
    simp only [collect, hn, List.range'_concat, List.filterMap_append, hlast, List.filterMap_cons, hf, List.filterMap_nil,
      List.append_nil]
  · rw [collect_of_le (by omega), collect_of_le (by omega)]

/-- The interval cut at a place inside it. -/
theorem collect_split (i : Nat) (h1 : lo ≤ i) (h2 : i ≤ hi) : collect f lo hi = collect f lo i ++ collect f i hi := by
  have hlen : hi - lo = (i - lo) + (hi - i) := by omega
  have hi' : lo + 1 * (i - lo) = i := by omega
  simp only [collect, hlen, ← List.range'_append, List.filterMap_append, hi']

/-- A place inside the interval at which the function becomes defined adds one value. -/
theorem collect_define_perm {a : α} {i : Nat} (h1 : lo ≤ i) (h2 : i < hi) (hf : f i = none) (hg : g i = some a)
    (hfg : ∀ j, j ≠ i → g j = f j) : (collect g lo hi).Perm (a :: collect f lo hi) := by
  have hl : collect g lo i = collect f lo i := collect_congr fun j _ hj => hfg j (by omega)
  have hr : collect g (i + 1) hi = collect f (i + 1) hi := collect_congr fun j hj _ => hfg j (by omega)
  have hmid : collect f i hi = collect f (i + 1) hi := by
    rw [collect_split (i + 1) (Nat.le_succ i) h2, collect_succ_none hf, collect_of_le (Nat.le_refl i), List.nil_append]
  rw [collect_split (f := g) i h1 (by omega), collect_split (f := f) i h1 (by omega), collect_cons h2 hg, hl, hr, hmid]
  exact List.perm_middle

/-- The values are among those of a list that lists the function on the interval. -/
theorem collect_sublist {vs : List α} (h : ∀ i a, lo ≤ i → i < hi → f i = some a → vs[i - lo]? = some a)
    (hlen : vs.length = hi - lo) : (collect f lo hi).Sublist vs := by
  induction vs generalizing lo with
  | nil =>
    have hle : hi ≤ lo := by simp at hlen; omega
    rw [collect_of_le hle]
  | cons v vs ih =>
    have hlt : lo < hi := by simp at hlen; omega
    have htail : (collect f (lo + 1) hi).Sublist vs := by
      apply ih
      · intro i a h1 h2 ha
        have := h i a (by omega) h2 ha
        have hsub : i - lo = (i - (lo + 1)) + 1 := by omega
        rwa [hsub, List.getElem?_cons_succ] at this
      · simp at hlen; omega
    cases hv : f lo with
    | none =>
      have : collect f lo hi = collect f (lo + 1) hi := by
        rw [collect_split (lo + 1) (Nat.le_succ lo) hlt, collect_succ_none hv, collect_of_le (Nat.le_refl lo), List.nil_append]
      rw [this]
      exact htail.cons v
    | some a =>
      have ha := h lo a (Nat.le_refl lo) hlt hv
      rw [Nat.sub_self, List.getElem?_cons_zero] at ha
      rw [collect_cons hlt hv, Option.some.inj ha]
      exact htail.cons_cons a

/-! ## Without repetitions -/

section Firsts

variable {β : Type*} [DecidableEq β] (w : Nat → β)

/-- The different values among the first `n`, in the order in which they come first. -/
def firsts : Nat → List β
  | 0 => []
  | n + 1 => if w n ∈ firsts n then firsts n else firsts n ++ [w n]

/-- The first values are those of the function. -/
theorem mem_firsts_iff {n : Nat} {x : β} : x ∈ firsts w n ↔ ∃ i < n, w i = x := by
  induction n with
  | zero => simp [firsts]
  | succ n ih =>
    have hlast : (∃ i < n + 1, w i = x) ↔ (∃ i < n, w i = x) ∨ w n = x := by
      constructor
      · rintro ⟨i, hi, hx⟩
        rcases Nat.lt_succ_iff_lt_or_eq.mp hi with hi | rfl
        · exact Or.inl ⟨i, hi, hx⟩
        · exact Or.inr hx
      · rintro (⟨i, hi, hx⟩ | hx)
        · exact ⟨i, Nat.lt_succ_of_lt hi, hx⟩
        · exact ⟨n, Nat.lt_succ_self n, hx⟩
    rw [hlast, ← ih, firsts]
    split
    · rename_i hmem
      exact ⟨Or.inl, fun h => h.elim id fun hx => hx ▸ hmem⟩
    · simp [eq_comm]

/-- The first values are different. -/
theorem nodup_firsts (n : Nat) : (firsts w n).Nodup := by
  induction n with
  | zero => exact List.nodup_nil
  | succ n ih =>
    rw [firsts]
    split
    · exact ih
    · rename_i hnew
      exact List.nodup_append.mpr ⟨ih, List.pairwise_singleton _ _, fun x hx y hy hxy => hnew (List.mem_singleton.mp hy ▸ hxy ▸ hx)⟩

end Firsts

end Collect
