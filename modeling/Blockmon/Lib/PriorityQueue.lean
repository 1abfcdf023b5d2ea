import Mathlib.Data.List.Sort
import Mathlib.Data.Multiset.AddSub
import Mathlib.Algebra.Order.Ring.Int

/-!
# Priority queues

A priority queue is known by what it holds, a multiset: an element is added, and the removal gives one of the elements with the
smallest key. Which of several elements with the same key comes out first is not determined. `sortedList` is an instance that
computes.
-/

/-- A queue whose `pop` takes an element with the least key. -/
structure PriorityQueue (τ : Type) (key : τ → Nat) where
  Q : Type
  elems : Q → Multiset τ
  empty : Q
  push : τ → Q → Q
  pop : Q → Option (τ × Q)
  elems_empty : elems empty = 0
  elems_push : ∀ t q, elems (push t q) = t ::ₘ elems q
  pop_none : ∀ q, pop q = none → elems q = 0
  pop_some : ∀ q t q', pop q = some (t, q') → elems q = t ::ₘ elems q' ∧ ∀ u ∈ elems q', key t ≤ key u

namespace PriorityQueue

variable {τ : Type} {key : τ → Nat} {P : PriorityQueue τ key}

/-- If the first element is past a bound, so are all. -/
theorem lt_of_pop_lt {q q' : P.Q} {t : τ} (h : P.pop q = some (t, q')) {b : Nat} (hb : b < key t) : ∀ u ∈ P.elems q, b < key u := by
  obtain ⟨helems, hmin⟩ := P.pop_some q t q' h
  intro u hu
  rw [helems] at hu
  rcases Multiset.mem_cons.mp hu with rfl | hu
  · exact hb
  · exact lt_of_lt_of_le hb (hmin u hu)

/-- Removing an element makes the queue smaller. -/
theorem card_of_pop {q q' : P.Q} {t : τ} (h : P.pop q = some (t, q')) : (P.elems q).card = (P.elems q').card + 1 := by
  rw [(P.pop_some q t q' h).1, Multiset.card_cons]

/-- There is something to pop from a queue with elements. -/
theorem exists_pop {q : P.Q} (h : P.elems q ≠ 0) : ∃ t q', P.pop q = some (t, q') := by
  cases hpop : P.pop q with
  | none => exact absurd (P.pop_none q hpop) h
  | some r => exact ⟨r.1, r.2, rfl⟩

/-- Removes all elements, one after the other. -/
def drain (P : PriorityQueue τ key) (q : P.Q) : List τ × P.Q :=
  match _hpop : P.pop q with
  | none => ([], q)
  | some (t, q') => (t :: (drain P q').1, (drain P q').2)
termination_by (P.elems q).card
decreasing_by
  rw [card_of_pop _hpop]
  exact Nat.lt_succ_self _

/-- They come out sorted, all of them, and none is left. -/
theorem drain_spec (q : P.Q) :
    (P.drain q).1.Pairwise (fun a b => key a ≤ key b) ∧ ((P.drain q).1 : Multiset τ) = P.elems q ∧ P.elems (P.drain q).2 = 0 := by
  induction hn : (P.elems q).card generalizing q with
  | zero =>
    have hempty := Multiset.card_eq_zero.mp hn
    rw [drain]
    split
    next hpop => exact ⟨List.Pairwise.nil, hempty.symm, hempty⟩
    next t q' hpop =>
      have hcard := card_of_pop hpop
      omega
  | succ n ih =>
    rw [drain]
    split
    next hpop =>
      rw [P.pop_none q hpop] at hn
      simp at hn
    next t q' hpop =>
      have hcard := card_of_pop hpop
      obtain ⟨hsorted, hall, hempty⟩ := ih q' (by omega)
      obtain ⟨helems, hmin⟩ := P.pop_some q t q' hpop
      refine ⟨List.pairwise_cons.mpr ⟨fun u hu => ?_, hsorted⟩, ?_, hempty⟩
      · apply hmin
        rw [← hall]
        exact hu
      · rw [helems, ← hall, Multiset.cons_coe]

/-- Lists sorted by the key. -/
def sortedList (key : τ → Nat) : PriorityQueue τ key where
  Q := { l : List τ // l.Pairwise fun a b => key a ≤ key b }
  elems q := (q.1 : Multiset τ)
  empty := ⟨[], List.Pairwise.nil⟩
  push t q := ⟨q.1.orderedInsert (fun a b => key a ≤ key b) t,
    haveI : Std.Total fun a b => key a ≤ key b := ⟨fun a b => le_total (key a) (key b)⟩
    haveI : IsTrans τ fun a b => key a ≤ key b := ⟨fun _ _ _ h h' => le_trans h h'⟩
    List.Pairwise.orderedInsert t q.1 q.2⟩
  pop q :=
    match q with
    | ⟨[], _⟩ => none
    | ⟨t :: l, h⟩ => some (t, ⟨l, h.of_cons⟩)
  elems_empty := rfl
  elems_push t q := Multiset.coe_eq_coe.mpr (List.perm_orderedInsert _ t q.1)
  pop_none := by
    rintro ⟨_ | ⟨t, l⟩, hl⟩ h
    · rfl
    · cases h
  pop_some := by
    rintro ⟨_ | ⟨u, l⟩, hl⟩ t q' h
    · cases h
    · cases h
      exact ⟨rfl, fun v hv => List.rel_of_pairwise_cons hl hv⟩

end PriorityQueue

/-!
## The heaviest of what has come

Of what comes one after the other the `n` heaviest are kept: the first `n` come in, and from then on each that weighs more than a lightest
one takes its place.
-/

section Heaviest

variable {τ κ : Type} [LinearOrder κ] {key : τ → κ} {n : Nat} {s kept : Multiset τ}

/-- As many of `s` as there can be up to `n`, and nothing left out weighs more than what is kept. -/
def Heaviest (key : τ → κ) (n : Nat) (s kept : Multiset τ) : Prop :=
  ∃ left, s = kept + left ∧ kept.card = min n s.card ∧ ∀ a ∈ left, ∀ b ∈ kept, key a ≤ key b

namespace Heaviest

/-- Nothing is kept of nothing. -/
theorem zero (key : τ → κ) (n : Nat) : Heaviest key n 0 0 := by
  refine ⟨0, by simp, by simp, ?_⟩
  intro a ha
  exact absurd ha (Multiset.notMem_zero a)

/-- While there is room, everything is kept. -/
theorem eq_of_card_lt (h : Heaviest key n s kept) (hroom : kept.card < n) : kept = s := by
  obtain ⟨left, rfl, hcard, -⟩ := h
  rw [Multiset.card_add] at hcard
  have hleft : left.card = 0 := by omega
  rw [Multiset.card_eq_zero.mp hleft]
  exact (Multiset.add_zero kept).symm

/-- One more is kept where there is room. -/
theorem keep (h : Heaviest key n s kept) (hroom : kept.card < n) (t : τ) : Heaviest key n (t ::ₘ s) (t ::ₘ kept) := by
  have hall := h.eq_of_card_lt hroom
  subst hall
  refine ⟨0, by simp, ?_, ?_⟩
  · rw [Multiset.card_cons]
    omega
  · intro a ha
    exact absurd ha (Multiset.notMem_zero a)

section Full

variable {t u : τ} {rest : Multiset τ}

/-- With one more, as many are kept as there is room for. -/
theorem card_of_full (h : Heaviest key n s kept) (hfull : n ≤ kept.card) : kept.card = min n (t ::ₘ s).card := by
  obtain ⟨left, -, hcard, -⟩ := h
  rw [Multiset.card_cons]
  omega

/-- A heavier one takes the place of a lightest one. -/
theorem replace (h : Heaviest key n s (u ::ₘ rest)) (hfull : n ≤ (u ::ₘ rest).card) (hmin : ∀ v ∈ rest, key u ≤ key v)
    (hlt : key u < key t) : Heaviest key n (t ::ₘ s) (t ::ₘ rest) := by
  have hcard := h.card_of_full (t := t) hfull
  obtain ⟨left, rfl, -, hleft⟩ := h
  refine ⟨u ::ₘ left, ?_, ?_, ?_⟩
  · rw [Multiset.cons_add, Multiset.cons_add, Multiset.add_cons]
  · rw [← hcard, Multiset.card_cons, Multiset.card_cons]
  · have hlight : ∀ a ∈ u ::ₘ left, key a ≤ key u := by
      intro a ha
      rcases Multiset.mem_cons.mp ha with rfl | ha
      · exact le_refl _
      · exact hleft a ha u (Multiset.mem_cons_self u rest)
    intro a ha b hb
    rcases Multiset.mem_cons.mp hb with rfl | hb
    · exact le_of_lt (lt_of_le_of_lt (hlight a ha) hlt)
    · exact le_trans (hlight a ha) (hmin b hb)

/-- What is no heavier than a lightest one is left out. -/
theorem skip (h : Heaviest key n s (u ::ₘ rest)) (hfull : n ≤ (u ::ₘ rest).card) (hmin : ∀ v ∈ rest, key u ≤ key v)
    (hle : key t ≤ key u) : Heaviest key n (t ::ₘ s) (u ::ₘ rest) := by
  have hcard := h.card_of_full (t := t) hfull
  obtain ⟨left, rfl, -, hleft⟩ := h
  refine ⟨t ::ₘ left, (Multiset.add_cons t _ left).symm, hcard, ?_⟩
  intro a ha b hb
  rcases Multiset.mem_cons.mp ha with rfl | ha
  · rcases Multiset.mem_cons.mp hb with rfl | hb
    · exact hle
    · exact le_trans hle (hmin b hb)
  · exact hleft a ha b hb

end Full

end Heaviest

end Heaviest
