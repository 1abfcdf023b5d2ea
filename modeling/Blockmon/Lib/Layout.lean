import Mathlib.Data.List.Basic
import Mathlib.Data.List.Infix
import Mathlib.Algebra.BigOperators.Group.List.Basic
import Mathlib.Algebra.Order.Ring.Int

/-!
# Records in a list

A list stands in another one at a place, and records stand one behind the other, each where the one before it ends.
-/

namespace Layout

variable {α ρ : Type*}

/-- The list `bs` stands in `l` at `pos`. -/
def At (l : List α) (pos : Nat) (bs : List α) : Prop := bs <+: l.drop pos

instance [DecidableEq α] (l : List α) (pos : Nat) (bs : List α) : Decidable (At l pos bs) :=
  inferInstanceAs (Decidable (bs <+: l.drop pos))

section At

variable {l bs cs : List α} {pos : Nat}

/-- Two parts are written one behind the other. -/
theorem at_append_iff : At l pos (bs ++ cs) ↔ At l pos bs ∧ At l (pos + bs.length) cs := by
  unfold At
  constructor
  · rintro ⟨rest, h⟩
    refine ⟨⟨cs ++ rest, by rw [← List.append_assoc, h]⟩, rest, ?_⟩
    rw [← List.drop_drop, ← h, List.append_assoc, List.drop_left]
  · rintro ⟨⟨rest, h⟩, hcs⟩
    rw [← List.drop_drop, ← h, List.drop_left] at hcs
    rw [← h]
    exact (List.prefix_append_right_inj bs).mpr hcs

/-- What is written is there. -/
theorem At.getElem? (h : At l pos bs) {i : Nat} {b : α} (hb : bs[i]? = some b) : l[pos + i]? = some b := by
  obtain ⟨rest, h⟩ := h
  rw [← List.getElem?_drop, ← h, List.getElem?_append_left (List.getElem?_eq_some_iff.mp hb).1]
  exact hb

/-- What is written is the slice. -/
theorem At.take_drop (h : At l pos bs) : (l.drop pos).take bs.length = bs := by
  obtain ⟨rest, h⟩ := h
  rw [← h, List.take_left]

/-- What is written ends inside. -/
theorem At.le_length (h : At l pos bs) (hne : bs ≠ []) : pos + bs.length ≤ l.length := by
  have hlen := h.length_le
  have hpos := List.length_pos_iff.mpr hne
  rw [List.length_drop] at hlen
  omega

/-- An offset may be taken into the position. -/
theorem at_drop_iff {off : Nat} : At (l.drop off) pos bs ↔ At l (off + pos) bs := by
  unfold At
  rw [List.drop_drop]

end At

/-! ## Records one behind the other -/

section Laid

variable (P : ρ → Nat → Prop) (size : ρ → Nat)

/-- The records are at their places, one behind the other. -/
def Laid : List ρ → Nat → Prop
  | [], _ => True
  | r :: rs, pos => P r pos ∧ Laid rs (pos + size r)

/-- The records with their places. -/
def placed : List ρ → Nat → List (Nat × ρ)
  | [], _ => []
  | r :: rs, pos => (pos, r) :: placed rs (pos + size r)

/-- The sizes of the records together. -/
def total (rs : List ρ) : Nat := (rs.map size).sum

@[simp] theorem total_nil : total size [] = 0 := rfl

@[simp] theorem total_cons (r : ρ) (rs : List ρ) : total size (r :: rs) = size r + total size rs := List.sum_cons

/-- The records are placed in their order. -/
theorem map_snd_placed (rs : List ρ) (pos : Nat) : (placed size rs pos).map Prod.snd = rs := by
  induction rs generalizing pos with
  | nil => rfl
  | cons r rs ih => rw [placed, List.map_cons, ih]

end Laid

end Layout
