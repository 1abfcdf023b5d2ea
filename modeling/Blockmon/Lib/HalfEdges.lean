import Mathlib.Data.List.Count
import Mathlib.Tactic.Tauto
import Mathlib.Algebra.Order.Ring.Int

/-!
# Links stored as two half-edges

A link between a vertex of the left side and a vertex of the right side is stored twice: each end keeps a list of its peers on the
other side. Parallel links are repetitions in the lists. The two lists are written one after the other, so between the two writes
they differ; `Balanced` says that every pair of vertices is linked as often according to one end as according to the other.
-/

namespace HalfEdges

/-- The two ends of an edge. -/
inductive Side where
  | left
  | right
deriving DecidableEq

/-- The other end. -/
def Side.other : Side → Side
  | .left => .right
  | .right => .left

@[simp] theorem Side.other_other (s : Side) : s.other.other = s := by cases s <;> rfl

@[simp] theorem Side.other_ne (s : Side) : s.other ≠ s := by cases s <;> simp [Side.other]

@[simp] theorem Side.ne_other (s : Side) : s ≠ s.other := (Side.other_ne s).symm

/-- There are two sides only. -/
theorem Side.eq_or_eq_other (s t : Side) : t = s ∨ t = s.other := by cases s <;> cases t <;> simp [Side.other]

/-- The peers of every vertex of each side. -/
def Adj (V : Type*) := Side → V → List V

namespace Adj

variable {V : Type*} [DecidableEq V]

/-- No links. -/
def empty : Adj V := fun _ _ => []

/-- Overwrite the peers of one vertex. -/
def set (a : Adj V) (s : Side) (x : V) (l : List V) : Adj V := fun t y => if t = s ∧ y = x then l else a t y

@[simp] theorem set_self (a : Adj V) (s : Side) (x : V) (l : List V) : a.set s x l s x = l := by simp [set]

/-- The other lists are as they were. -/
theorem set_of_ne {a : Adj V} {s t : Side} {x y : V} {l : List V} (h : t ≠ s ∨ y ≠ x) : a.set s x l t y = a t y := by
  rw [set, if_neg (by tauto)]

/-- One half of a link from `x` to `y`. -/
def link (a : Adj V) (s : Side) (x y : V) : Adj V := a.set s x (a s x ++ [y])

/-- The halves of all the links from `x` to `y`. -/
def unlink (a : Adj V) (s : Side) (x y : V) : Adj V := a.set s x ((a s x).filter (· ≠ y))

/-- One more half edge. -/
theorem count_link (a : Adj V) (s t : Side) (x y u v : V) :
    (a.link s x y t u).count v = (a t u).count v + if t = s ∧ u = x ∧ v = y then 1 else 0 := by
  by_cases h : t = s ∧ u = x
  · obtain ⟨rfl, rfl⟩ := h
    by_cases hv : v = y
    · simp [link, hv]
    · simp [link, hv, Ne.symm hv]
  · rw [link, set_of_ne (by tauto), if_neg (by tauto), Nat.add_zero]

/-- The half edges to a vertex are taken away. -/
theorem count_unlink (a : Adj V) (s t : Side) (x y u v : V) :
    (a.unlink s x y t u).count v = if t = s ∧ u = x ∧ v = y then 0 else (a t u).count v := by
  by_cases h : t = s ∧ u = x
  · obtain ⟨rfl, rfl⟩ := h
    by_cases hv : v = y
    · subst hv
      simp [unlink, List.count_eq_zero]
    · simp [unlink, hv]
  · rw [unlink, set_of_ne (by tauto), if_neg (by tauto)]

/-- The halves of all the links from the vertices `xs` to `y`. -/
def unlinkFrom (a : Adj V) (s : Side) (xs : List V) (y : V) : Adj V :=
  fun t x => if t = s ∧ x ∈ xs then (a t x).filter (· ≠ y) else a t x

@[simp] theorem unlinkFrom_nil (a : Adj V) (s : Side) (y : V) : a.unlinkFrom s [] y = a := by
  funext t x
  simp [unlinkFrom]

/-- The first vertex is unlinked first. -/
theorem unlinkFrom_cons (a : Adj V) (s : Side) (x : V) (xs : List V) (y : V) :
    a.unlinkFrom s (x :: xs) y = (a.unlink s x y).unlinkFrom s xs y := by
  funext t u
  by_cases hu : t = s ∧ u = x
  · obtain ⟨rfl, rfl⟩ := hu
    by_cases hx : u ∈ xs <;> simp [unlinkFrom, unlink, hx]
  · have hset : a.unlink s x y t u = a t u := set_of_ne (by tauto)
    by_cases hs : t = s
    · have hne : u ≠ x := fun h => hu ⟨hs, h⟩
      simp [unlinkFrom, hset, hne]
    · simp [unlinkFrom, hset, hs]

end Adj

variable {V : Type*} [DecidableEq V]

/-- Both ends agree on how often they are linked. -/
def Balanced (a : Adj V) : Prop := ∀ s x y, (a s x).count y = (a s.other y).count x

/-- Without edges both sides agree. -/
theorem balanced_empty : Balanced (Adj.empty : Adj V) := fun _ _ _ => rfl

/-- In a balanced graph a vertex has its neighbours on both sides. -/
theorem Balanced.mem {a : Adj V} (h : Balanced a) {s : Side} {x y : V} : y ∈ a s x ↔ x ∈ a s.other y := by
  rw [← List.count_pos_iff, ← List.count_pos_iff, h s x y]

/-- Writing both halves of a link. -/
theorem Balanced.link {a : Adj V} (h : Balanced a) (s : Side) (x y : V) :
    Balanced ((a.link s x y).link s.other y x) := by
  intro t u v
  simp only [Adj.count_link, h t u v]
  rcases Side.eq_or_eq_other s t with rfl | rfl
  · by_cases hu : u = x <;> by_cases hv : v = y <;> simp [hu, hv]
  · by_cases hu : u = y <;> by_cases hv : v = x <;> simp [hu, hv]

/-- Removing both halves of the links between two vertices. -/
theorem Balanced.unlink {a : Adj V} (h : Balanced a) (s : Side) (x y : V) :
    Balanced ((a.unlink s x y).unlink s.other y x) := by
  intro t u v
  simp only [Adj.count_unlink, h t u v]
  rcases Side.eq_or_eq_other s t with rfl | rfl
  · by_cases hu : u = x <;> by_cases hv : v = y <;> simp [hu, hv]
  · by_cases hu : u = y <;> by_cases hv : v = x <;> simp [hu, hv]

/-- When the peers of a vertex have dropped it, nobody has it any more and the other links are as before. -/
theorem Balanced.unlinkFrom {a : Adj V} (h : Balanced a) (s : Side) (x : V) :
    (∀ y, a.unlinkFrom s.other (a s x) x s.other y = (a s.other y).filter (· ≠ x)) ∧
      ∀ z, a.unlinkFrom s.other (a s x) x s z = a s z := by
  constructor
  · intro y
    by_cases hy : y ∈ a s x
    · simp [Adj.unlinkFrom, hy]
    · have hx : x ∉ a s.other y := fun hx => hy (h.mem.mpr hx)
      have hl : (a s.other y).filter (· ≠ x) = a s.other y := by
        rw [List.filter_eq_self]
        intro z hz
        exact decide_eq_true fun he => hx (he ▸ hz)
      rw [hl]
      simp [Adj.unlinkFrom, hy]
  · intro z
    simp [Adj.unlinkFrom]

/-! ## Links with labels -/

/-- The right and the left end of a link from `x` on side `s` to `y`. -/
def Side.pair (s : Side) (x y : V) : V × V :=
  match s with
  | .right => (x, y)
  | .left => (y, x)

omit [DecidableEq V] in
/-- Two pairs are equal just when the ends are, on their sides. -/
theorem Side.pair_eq_pair {s t : Side} {x y u v : V} :
    s.pair x y = t.pair u v ↔ (t = s ∧ u = x ∧ v = y) ∨ (t = s.other ∧ u = y ∧ v = x) := by
  cases s <;> cases t <;> simp [Side.pair, Side.other, Prod.mk.injEq, eq_comm, and_comm]

/-- The links are those of the list `ls`, where `ends` gives the ends of a label: the lists hold every pair of vertices as often as
there are labels with these ends. -/
def Stores {L : Type*} (a : Adj V) (ends : L → Option (V × V)) (ls : List L) : Prop :=
  ∀ s x y, (a s x).count y = ls.countP fun l => decide (ends l = some (s.pair x y))

section Stores

variable {L : Type*} {a : Adj V} {ends : L → Option (V × V)} {ls : List L} {l : L} {s : Side} {x y : V}

/-- A neighbour is one of an edge. -/
theorem Stores.mem (h : Stores a ends ls) : y ∈ a s x ↔ ∃ l ∈ ls, ends l = some (s.pair x y) := by
  rw [← List.count_pos_iff, h s x y, List.countP_pos_iff]
  simp only [decide_eq_true_eq]

/-- The edges are stored by their ends. -/
theorem Stores.congr (h : Stores a ends ls) {ends' : L → Option (V × V)} (hends : ∀ l ∈ ls, ends' l = ends l) : Stores a ends' ls := by
  intro t u v
  rw [h t u v]
  exact List.countP_congr fun l hl => by rw [hends l hl]

/-- Writing both halves of a link. -/
theorem Stores.link (h : Stores a ends ls) (hl : ends l = some (s.pair x y)) :
    Stores ((a.link s x y).link s.other y x) ends (ls ++ [l]) := by
  intro t u v
  rw [Adj.count_link, Adj.count_link, h t u v, List.countP_append, List.countP_singleton, hl]
  simp only [Option.some.injEq, decide_eq_true_eq, Side.pair_eq_pair]
  by_cases h₁ : t = s ∧ u = x ∧ v = y
  · have h₂ : ¬(t = s.other ∧ u = y ∧ v = x) := fun h₂ => Side.ne_other s (h₁.1.symm.trans h₂.1)
    rw [if_pos h₁, if_neg h₂, if_pos (Or.inl h₁)]
  · by_cases h₂ : t = s.other ∧ u = y ∧ v = x
    · rw [if_neg h₁, if_pos h₂, if_pos (Or.inr h₂)]
    · rw [if_neg h₁, if_neg h₂, if_neg (not_or.mpr ⟨h₁, h₂⟩)]

/-- Removing both halves of the links between two vertices, when they have one label. -/
theorem Stores.unlink [DecidableEq L] (h : Stores a ends ls) (hl : ends l = some (s.pair x y))
    (hone : ∀ l' ∈ ls, ends l' = some (s.pair x y) → l' = l) :
    Stores ((a.unlink s x y).unlink s.other y x) ends (ls.filter fun l' => decide (l' ≠ l)) := by
  intro t u v
  rw [Adj.count_unlink, Adj.count_unlink, List.countP_filter]
  by_cases hpair : s.pair x y = t.pair u v
  · -- these are the ends of the label that is removed
    have hzero : (ls.countP fun l' => decide (ends l' = some (t.pair u v)) && decide (l' ≠ l)) = 0 := by
      rw [List.countP_eq_zero]
      intro l' hl' htrue
      rw [Bool.and_eq_true, decide_eq_true_eq, decide_eq_true_eq, ← hpair] at htrue
      exact htrue.2 (hone l' hl' htrue.1)
    rw [hzero]
    rcases Side.pair_eq_pair.mp hpair with h₁ | h₂
    · rw [if_pos h₁, ite_self]
    · rw [if_pos h₂]
  · have hsame : (ls.countP fun l' => decide (ends l' = some (t.pair u v)) && decide (l' ≠ l)) =
        ls.countP fun l' => decide (ends l' = some (t.pair u v)) := by
      refine List.countP_congr fun l' _ => ?_
      rw [Bool.and_eq_true, decide_eq_true_eq, decide_eq_true_eq]
      refine ⟨And.left, fun h' => ⟨h', fun he => hpair ?_⟩⟩
      rw [he, hl] at h'
      exact Option.some.inj h'
    obtain ⟨h₁, h₂⟩ := not_or.mp (fun hor => hpair (Side.pair_eq_pair.mpr hor))
    rw [hsame, if_neg h₁, if_neg h₂, h t u v]

end Stores

end HalfEdges
