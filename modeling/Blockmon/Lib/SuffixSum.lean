import Mathlib.Algebra.Order.Group.Defs
import Mathlib.Algebra.BigOperators.Group.List.Basic
import Mathlib.Order.Bounds.Basic
import Mathlib.Algebra.Order.Ring.Int

/-!
# The greatest sum of a suffix

A sum that starts again at zero whenever it would not be positive is the greatest of the sums of the suffixes of what was added.
-/

namespace SuffixSum

variable {K : Type*} [AddCommGroup K] [LinearOrder K]

/-- The sums of the suffixes, the empty one included. -/
def sums (scores : List K) : Set K := { x | ∃ suffix, suffix <:+ scores ∧ suffix.sum = x }

/-- The next sum. -/
def next (sum score : K) : K := if 0 < sum + score then sum + score else 0

theorem isGreatest_nil : IsGreatest (sums ([] : List K)) 0 := by
  refine ⟨⟨[], List.suffix_refl _, List.sum_nil⟩, ?_⟩
  rintro x ⟨suffix, hsuffix, rfl⟩
  rw [List.suffix_nil.mp hsuffix, List.sum_nil]

variable [IsOrderedAddMonoid K]

theorem isGreatest_next {scores : List K} {sum : K} (h : IsGreatest (sums scores) sum) (score : K) :
    IsGreatest (sums (scores ++ [score])) (next sum score) := by
  obtain ⟨⟨best, hbest, rfl⟩, hle⟩ := h
  -- a suffix is empty or ends in the score
  have hbound : ∀ suffix, suffix <:+ scores ++ [score] → suffix.sum ≤ best.sum + score ∨ suffix = [] := by
    intro suffix hsuffix
    rcases List.eq_nil_or_concat suffix with hnil | ⟨front, last, rfl⟩
    · exact Or.inr hnil
    · obtain ⟨before, hbefore⟩ := hsuffix
      rw [List.concat_eq_append, ← List.append_assoc] at hbefore
      obtain ⟨hfront, hlast⟩ := List.append_inj' hbefore rfl
      have hscore : last = score := List.singleton_inj.mp hlast
      refine Or.inl ?_
      rw [List.concat_eq_append, List.sum_append, List.sum_singleton, hscore]
      exact add_le_add_left (hle ⟨front, ⟨before, hfront⟩, rfl⟩) score
  rw [next]
  split
  · rename_i hpos
    refine ⟨⟨best ++ [score], ?_, by simp⟩, ?_⟩
    · obtain ⟨before, hbefore⟩ := hbest
      exact ⟨before, by rw [← hbefore, List.append_assoc]⟩
    · rintro x ⟨suffix, hsuffix, rfl⟩
      rcases hbound suffix hsuffix with hless | rfl
      · exact hless
      · rw [List.sum_nil]
        exact le_of_lt hpos
  · rename_i hneg
    refine ⟨⟨[], List.nil_suffix, List.sum_nil⟩, ?_⟩
    rintro x ⟨suffix, hsuffix, rfl⟩
    rcases hbound suffix hsuffix with hless | rfl
    · exact hless.trans (not_lt.mp hneg)
    · rw [List.sum_nil]

end SuffixSum
