import Mathlib.Data.List.Count
import Mathlib.Data.List.Perm.Basic
import Mathlib.Data.Option.Basic
import Mathlib.Logic.Function.Basic
import Mathlib.Algebra.BigOperators.Group.Finset.Basic
import Mathlib.Algebra.Order.Ring.Int
import Blockmon.Lib.Lts

/-!
# Shared ownership, and blocks of memory cut into places

`Owned` is a heap of objects that are kept alive by counted pointers: the last pointer to go destroys the object. `Counts` relates
the heap to the pointers in existence. An `Arena` says how places are cut off a block, one after the other, and what is read there.
A `Pool` is an allocator that cuts places off its current block, takes a new block when the current one is full, and hands out
pointers that own the block their place lies in. `Values` is what a pool is for: a store of values, where an allocation adds one and a
pointer is the number of one. `Arena.run_refines` says that every run of a pool is a run of the store.
-/

namespace Arenas

/-- A weaker relation between options. -/
theorem rel_imp {α β : Type*} {R S : α → β → Prop} (h : ∀ a b, R a b → S a b) {x : Option α} {y : Option β} (hxy : Option.Rel R x y) :
    Option.Rel S x y := by
  cases hxy with
  | some hab => exact .some (h _ _ hab)
  | none => exact .none

/-! ## Counted pointers -/

/-- Objects by number, how many pointers own each, and the objects that were destroyed, in the order of their destruction. -/
structure Owned (β : Type*) where
  object : Nat → Option β
  useCount : Nat → Nat
  next : Nat
  freed : List (Nat × β)

namespace Owned

variable {β : Type*}

/-- Nothing is owned. -/
def empty : Owned β := { object := fun _ => none, useCount := fun _ => 0, next := 0, freed := [] }

/-- A new object and the one pointer that owns it. -/
def make (H : Owned β) (b : β) : Nat × Owned β :=
  (H.next, { object := Function.update H.object H.next (some b), useCount := Function.update H.useCount H.next 1,
             next := H.next + 1, freed := H.freed })

/-- One more pointer owns object `i`. -/
def copy (H : Owned β) (i : Nat) : Option (Owned β) :=
  (H.object i).map fun _ => { H with useCount := Function.update H.useCount i (H.useCount i + 1) }

/-- One pointer less owns object `i`; the last one destroys it. -/
def reset (H : Owned β) (i : Nat) : Option (Owned β) :=
  (H.object i).map fun b =>
    if H.useCount i = 1 then
      { object := Function.update H.object i none, useCount := Function.update H.useCount i 0, next := H.next,
        freed := H.freed ++ [(i, b)] }
    else { H with useCount := Function.update H.useCount i (H.useCount i - 1) }

/-- Object `i` changes. -/
def set (H : Owned β) (i : Nat) (b : β) : Owned β := { H with object := Function.update H.object i (some b) }

section Objects

variable {H : Owned β} {i j : Nat} {b c : β}

/-- The objects after one was made. -/
theorem object_of_make (h : (H.make b).2.object j = some c) : H.object j = some c ∨ j = H.next ∧ c = b := by
  by_cases hj : j = H.next
  · subst hj
    simp only [make, Function.update_self, Option.some.injEq] at h
    exact Or.inr ⟨rfl, h.symm⟩
  · simp only [make, Function.update_of_ne hj] at h
    exact Or.inl h

/-- The objects after one was changed. -/
theorem object_of_set (h : (H.set i b).object j = some c) : H.object j = some c ∨ j = i ∧ c = b := by
  by_cases hj : j = i
  · subst hj
    simp only [set, Function.update_self, Option.some.injEq] at h
    exact Or.inr ⟨rfl, h.symm⟩
  · simp only [set, Function.update_of_ne hj] at h
    exact Or.inl h

/-- The object that was set. -/
theorem object_set_self : (H.set i b).object i = some b := Function.update_self ..

end Objects

/-- The pointers in existence are `owners`. -/
structure Counts (H : Owned β) (owners : List Nat) : Prop where
  count : ∀ i, H.useCount i = owners.count i
  alive : ∀ i, (H.object i).isSome ↔ i ∈ owners
  freed : ∀ i, i ∈ H.freed.map Prod.fst ↔ i < H.next ∧ i ∉ owners
  below : ∀ i ∈ owners, i < H.next
  once : (H.freed.map Prod.fst).Nodup

variable {H : Owned β} {owners owners' : List Nat} {i : Nat} {b : β}

/-- Nothing is counted. -/
theorem counts_empty : Counts (empty : Owned β) [] where
  count := by
    intro i
    rfl
  alive := by
    intro i
    simp [empty]
  freed := by
    intro i
    simp [empty]
  below := by
    intro i hi
    simp at hi
  once := by simp [empty]

/-- The order of the pointers does not matter. -/
theorem Counts.perm (h : H.Counts owners) (hp : owners.Perm owners') : H.Counts owners' where
  count := by
    intro i
    rw [h.count, hp.count_eq]
  alive := by
    intro i
    rw [h.alive, hp.mem_iff]
  freed := by
    intro i
    rw [h.freed, hp.mem_iff]
  below := by
    intro i hi
    exact h.below i (hp.mem_iff.mpr hi)
  once := h.once

/-- A pointer in existence points to an object that is alive. -/
theorem Counts.object (h : H.Counts owners) (hi : i ∈ owners) : ∃ b, H.object i = some b :=
  Option.isSome_iff_exists.mp ((h.alive i).mpr hi)

/-- The number of the next object is not in use. -/
theorem Counts.next_not_mem (h : H.Counts owners) : H.next ∉ owners := by
  intro hm
  exact absurd (h.below _ hm) (Nat.lt_irrefl _)

/-- A new object has one owner. -/
theorem Counts.make (h : H.Counts owners) (b : β) : (H.make b).2.Counts (H.next :: owners) where
  count := by
    intro i
    by_cases hi : i = H.next
    · subst hi
      simp [Owned.make, List.count_eq_zero.mpr h.next_not_mem]
    · simp [Owned.make, hi, h.count, Ne.symm hi]
  alive := by
    intro i
    by_cases hi : i = H.next
    · subst hi
      simp [Owned.make]
    · simp [Owned.make, hi, h.alive]
  freed := by
    intro i
    simp only [Owned.make, h.freed, List.mem_cons, not_or]
    constructor
    · rintro ⟨hlt, hn⟩
      exact ⟨by omega, by omega, hn⟩
    · rintro ⟨hlt, hne, hn⟩
      exact ⟨by omega, hn⟩
  below := by
    intro i hi
    simp only [Owned.make]
    rcases List.mem_cons.mp hi with rfl | hi
    · omega
    · have := h.below i hi
      omega
  once := h.once

/-- A pointer in existence can be copied. -/
theorem Counts.copy (h : H.Counts owners) (hi : i ∈ owners) :
    ∃ H', H.copy i = some H' ∧ H'.Counts (i :: owners) ∧ H'.object = H.object ∧ H'.next = H.next := by
  obtain ⟨b, hb⟩ := h.object hi
  refine ⟨{ H with useCount := Function.update H.useCount i (H.useCount i + 1) }, by simp only [Owned.copy, hb, Option.map_some],
    ⟨?_, ?_, ?_, ?_, h.once⟩, rfl, rfl⟩
  · intro j
    by_cases hj : j = i
    · subst hj
      simp [h.count]
    · simp [hj, h.count, Ne.symm hj]
  · intro j
    simp only [h.alive, List.mem_cons]
    constructor
    · exact Or.inr
    · rintro (rfl | hj)
      · exact hi
      · exact hj
  · intro j
    simp only [h.freed, List.mem_cons, not_or]
    constructor
    · rintro ⟨hlt, hn⟩
      refine ⟨hlt, ?_, hn⟩
      rintro rfl
      exact hn hi
    · rintro ⟨hlt, -, hn⟩
      exact ⟨hlt, hn⟩
  · intro j hj
    rcases List.mem_cons.mp hj with rfl | hj
    · exact h.below _ hi
    · exact h.below _ hj

/-- The last pointer goes, and the object with it. -/
theorem Counts.reset_last (h : H.Counts owners) (hi : i ∈ owners) (hb : H.object i = some b) (h1 : H.useCount i = 1) :
    Counts { object := Function.update H.object i none, useCount := Function.update H.useCount i 0, next := H.next,
             freed := H.freed ++ [(i, b)] } (owners.erase i) := by
  have hn : i ∉ owners.erase i := by
    rw [← List.count_eq_zero, List.count_erase_self, ← h.count, h1]
  have hmem : ∀ j, j ≠ i → (j ∈ owners.erase i ↔ j ∈ owners) := fun j hj => List.mem_erase_of_ne hj
  constructor
  case count =>
    intro j
    by_cases hj : j = i
    · subst hj
      simp [List.count_eq_zero.mpr hn]
    · simp [hj, h.count, List.count_erase_of_ne hj]
  case alive =>
    intro j
    by_cases hj : j = i
    · subst hj
      simp [hn]
    · simp [hj, h.alive, hmem j hj]
  case freed =>
    intro j
    simp only [List.map_append, List.map_cons, List.map_nil, List.mem_append, List.mem_singleton, h.freed]
    by_cases hj : j = i
    · subst hj
      simp [hn, h.below _ hi]
    · simp [hj, hmem j hj]
  case below =>
    intro j hj
    exact h.below j (List.mem_of_mem_erase hj)
  case once =>
    rw [List.map_append, List.map_cons, List.map_nil]
    refine List.nodup_append.mpr ⟨h.once, List.nodup_cons.mpr ⟨List.not_mem_nil, List.nodup_nil⟩, ?_⟩
    intro a ha c hc hac
    rw [List.mem_singleton] at hc
    subst hc
    subst hac
    exact ((h.freed _).mp ha).2 hi

/-- One of several pointers goes. -/
theorem Counts.reset_shared (h : H.Counts owners) (hi : i ∈ owners) (h1 : H.useCount i ≠ 1) :
    Counts { H with useCount := Function.update H.useCount i (H.useCount i - 1) } (owners.erase i) := by
  have hc : H.useCount i = owners.count i := h.count i
  have hpos : 0 < owners.count i := List.count_pos_iff.mpr hi
  have hin : i ∈ owners.erase i := by
    rw [← List.count_pos_iff, List.count_erase_self]
    omega
  have hmem : ∀ j, j ∈ owners.erase i ↔ j ∈ owners := by
    intro j
    by_cases hj : j = i
    · subst hj
      simp [hin, hi]
    · exact List.mem_erase_of_ne hj
  constructor
  case count =>
    intro j
    by_cases hj : j = i
    · subst hj
      simp [List.count_erase_self, h.count]
    · simp [hj, h.count, List.count_erase_of_ne hj]
  case alive =>
    intro j
    rw [hmem]
    exact h.alive j
  case freed =>
    intro j
    rw [hmem]
    exact h.freed j
  case below =>
    intro j hj
    exact h.below j (List.mem_of_mem_erase hj)
  case once => exact h.once

/-- A pointer in existence can go; what stays alive does not change. -/
theorem Counts.reset (h : H.Counts owners) (hi : i ∈ owners) :
    ∃ H', H.reset i = some H' ∧ H'.Counts (owners.erase i) ∧ H'.next = H.next ∧ ∀ j b, H'.object j = some b → H.object j = some b := by
  obtain ⟨b, hb⟩ := h.object hi
  by_cases h1 : H.useCount i = 1
  · refine ⟨_, by simp only [Owned.reset, hb, Option.map_some, if_pos h1], h.reset_last hi hb h1, rfl, ?_⟩
    intro j c hc
    by_cases hj : j = i
    · subst hj
      simp at hc
    · simpa [hj] using hc
  · exact ⟨_, by simp only [Owned.reset, hb, Option.map_some, if_neg h1], h.reset_shared hi h1, rfl, fun _ _ => id⟩

/-- An object that is alive can change. -/
theorem Counts.set (h : H.Counts owners) (hi : i ∈ owners) (b : β) : (H.set i b).Counts owners where
  count := h.count
  alive := by
    intro j
    by_cases hj : j = i
    · subst hj
      simp [Owned.set, hi]
    · simp [Owned.set, hj, h.alive]
  freed := h.freed
  below := h.below
  once := h.once

/-! ### Weights -/

/-- The weights of all the objects there were, alive and destroyed. -/
def weight (w : β → Nat) (H : Owned β) : Nat :=
  ∑ i ∈ Finset.range H.next, (H.object i).elim 0 w + (H.freed.map fun ib => w ib.2).sum

/-- An object of the sum is replaced. -/
theorem sum_update (w : β → Nat) {f : Nat → Option β} {n : Nat} (hi : i < n) (o : Option β) :
    ∑ j ∈ Finset.range n, (Function.update f i o j).elim 0 w + (f i).elim 0 w =
      ∑ j ∈ Finset.range n, (f j).elim 0 w + o.elim 0 w := by
  have hmem : i ∈ Finset.range n := Finset.mem_range.mpr hi
  have hrest : ∑ j ∈ (Finset.range n).erase i, (Function.update f i o j).elim 0 w = ∑ j ∈ (Finset.range n).erase i, (f j).elim 0 w := by
    refine Finset.sum_congr rfl ?_
    intro j hj
    rw [Function.update_of_ne (Finset.ne_of_mem_erase hj)]
  rw [← Finset.add_sum_erase _ _ hmem, ← Finset.add_sum_erase _ (fun j => (f j).elim 0 w) hmem, hrest, Function.update_self]
  omega

/-- A new object has its weight. -/
theorem weight_make (w : β → Nat) (b : β) : (H.make b).2.weight w = H.weight w + w b := by
  have hrest : ∑ j ∈ Finset.range H.next, (Function.update H.object H.next (some b) j).elim 0 w =
      ∑ j ∈ Finset.range H.next, (H.object j).elim 0 w := by
    refine Finset.sum_congr rfl ?_
    intro j hj
    rw [Function.update_of_ne (Nat.ne_of_lt (Finset.mem_range.mp hj))]
  simp only [weight, make, Finset.sum_range_succ, hrest, Function.update_self, Option.elim_some]
  omega

/-- A copy weighs nothing. -/
theorem weight_copy (w : β → Nat) {H' : Owned β} (h : H.copy i = some H') : H'.weight w = H.weight w := by
  obtain ⟨b, -, rfl⟩ := Option.map_eq_some_iff.mp h
  rfl

/-- A destroyed object keeps its weight. -/
theorem weight_reset (w : β → Nat) (hi : i < H.next) {H' : Owned β} (h : H.reset i = some H') : H'.weight w = H.weight w := by
  obtain ⟨b, hb, rfl⟩ := Option.map_eq_some_iff.mp h
  split
  · have hsum := sum_update w (f := H.object) hi none
    rw [hb] at hsum
    simp only [Option.elim_some, Option.elim_none] at hsum
    simp only [weight, List.map_append, List.map_cons, List.map_nil, List.sum_append, List.sum_cons, List.sum_nil]
    omega
  · rfl

/-- The weight of another object in its place. -/
theorem weight_set (w : β → Nat) (hi : i < H.next) (hb : H.object i = some b) (b' : β) :
    (H.set i b').weight w + w b = H.weight w + w b' := by
  have hsum := sum_update w (f := H.object) hi (some b')
  rw [hb] at hsum
  simp only [Option.elim_some] at hsum
  simp only [weight, set]
  omega

/-- It is the same to make a new object before a pointer to another one goes, and after. -/
theorem make_reset (hi : i < H.next) (b : β) :
    (H.make b).2.reset i = (H.reset i).map fun H' => (H'.make b).2 := by
  have hne : i ≠ H.next := Nat.ne_of_lt hi
  cases hb : H.object i with
  | none => simp [Owned.make, Owned.reset, hb, hne]
  | some c =>
    by_cases h1 : H.useCount i = 1
    · simp [Owned.make, Owned.reset, hb, hne, h1, Function.update_comm hne]
    · simp [Owned.make, Owned.reset, hb, hne, h1, Function.update_comm hne]

end Owned

/-! ## Places cut off a block -/

/-- How places are cut off a block. A request `r` says what is built in the new place; `build r` is what is known of it, and `Meets`
says that what is read in a place agrees with what is known of it. -/
structure Arena (Block Place Req Val Upd Spec : Type*) where
  /-- A place for the request, unless the block has no room. -/
  carve : Block → Req → Option (Place × Block)
  /-- The `n`-th block taken. -/
  fresh : Nat → Block
  read : Block → Place → Val
  write : Block → Place → Upd → Block
  build : Req → Spec
  poke : Spec → Upd → Spec
  Meets : Val → Spec → Prop
  Good : Block → Prop
  Fits : Req → Prop
  /-- The place was cut off the block. -/
  Cut : Block → Place → Prop
  Apart : Place → Place → Prop
  apart_symm : ∀ {p q}, Apart p q → Apart q p
  good_fresh : ∀ n, Good (fresh n)
  carve_fresh : ∀ {r} n, Fits r → ∃ p b, carve (fresh n) r = some (p, b)
  good_carve : ∀ {b r p b'}, Good b → Fits r → carve b r = some (p, b') → Good b'
  meets_carve : ∀ {b r p b'}, Good b → Fits r → carve b r = some (p, b') → Cut b' p ∧ Meets (read b' p) (build r)
  frame_carve : ∀ {b r p b' q}, Good b → Fits r → carve b r = some (p, b') → Cut b q →
    Cut b' q ∧ Apart p q ∧ read b' q = read b q
  good_write : ∀ {b p u}, Good b → Good (write b p u)
  cut_write : ∀ {b p u q}, Cut b q → Cut (write b p u) q
  meets_write : ∀ {b p u s}, Good b → Cut b p → Meets (read b p) s → Meets (read (write b p u) p) (poke s u)
  frame_write : ∀ {b p u q}, Good b → Cut b p → Cut b q → Apart p q → read (write b p u) q = read b q

/-! ## The pool and the store -/

/-- A call: an allocation, a pointer copied, dropped or written through, and the end of the allocator. -/
inductive Act (Req Upd : Type*) where
  | alloc (r : Req)
  | copy (k : Nat)
  | drop (k : Nat)
  | poke (k : Nat) (u : Upd)
  | close

/-- The blocks, the allocator's own pointer to the current one, and the pointers in existence, each with the block it owns. -/
structure Pool (Block Place : Type*) where
  heap : Owned Block
  current : Option Nat
  ptrs : List (Nat × Place)

namespace Pool

variable {Block Place Req Upd : Type*}

/-- The pointers that own a block. -/
def owners (s : Pool Block Place) : List Nat := s.current.toList ++ s.ptrs.map Prod.fst

/-- Pointer `k` is copied. -/
def copy (s : Pool Block Place) (k : Nat) : Option (Pool Block Place) :=
  s.ptrs[k]?.bind fun p => (s.heap.copy p.1).map fun H => { s with heap := H, ptrs := s.ptrs ++ [p] }

/-- Pointer `k` goes. -/
def drop (s : Pool Block Place) (k : Nat) : Option (Pool Block Place) :=
  s.ptrs[k]?.bind fun p => (s.heap.reset p.1).map fun H => { s with heap := H, ptrs := s.ptrs.eraseIdx k }

/-- A write through pointer `k`. -/
def poke (write : Block → Place → Upd → Block) (s : Pool Block Place) (k : Nat) (u : Upd) : Option (Pool Block Place) :=
  s.ptrs[k]?.bind fun p => (s.heap.object p.1).map fun b => { s with heap := s.heap.set p.1 (write b p.2 u) }

/-- The allocator goes. -/
def close (s : Pool Block Place) : Option (Pool Block Place) :=
  s.current.bind fun i => (s.heap.reset i).map fun H => { s with heap := H, current := none }

/-- A step of the pool. -/
def step (alloc : Pool Block Place → Req → Option (Pool Block Place)) (write : Block → Place → Upd → Block) (s : Pool Block Place) :
    Act Req Upd → Option (Pool Block Place)
  | .alloc r => alloc s r
  | .copy k => s.copy k
  | .drop k => s.drop k
  | .poke k u => s.poke write k u
  | .close => s.close

/-- What pointer `k` reads. -/
def read {Val : Type*} (get : Block → Place → Val) (s : Pool Block Place) (k : Nat) : Option Val :=
  s.ptrs[k]?.bind fun p => (s.heap.object p.1).map fun b => get b p.2

end Pool

/-- Values by number, and the pointers in existence, each the number of a value. -/
structure Values (Spec : Type*) where
  isOpen : Bool
  contents : List Spec
  ptrs : List Nat

namespace Values

variable {Spec Req Upd : Type*}

/-- No values yet. -/
def new : Values Spec := { isOpen := true, contents := [], ptrs := [] }

/-- A step of the values. -/
def step (build : Req → Spec) (poke : Spec → Upd → Spec) (a : Values Spec) : Act Req Upd → Option (Values Spec)
  | .alloc r =>
    if a.isOpen then some { a with contents := a.contents ++ [build r], ptrs := a.ptrs ++ [a.contents.length] } else none
  | .copy k => a.ptrs[k]?.map fun m => { a with ptrs := a.ptrs ++ [m] }
  | .drop k => a.ptrs[k]?.map fun _ => { a with ptrs := a.ptrs.eraseIdx k }
  | .poke k u => a.ptrs[k]?.map fun m => { a with contents := a.contents.modify m fun s => poke s u }
  | .close => if a.isOpen then some { a with isOpen := false } else none

/-- What is known of the value that pointer `k` is the number of. -/
def read (a : Values Spec) (k : Nat) : Option Spec := a.ptrs[k]?.bind fun m => a.contents[m]?

end Values

namespace Arena

variable {Block Place Req Val Upd Spec : Type*} (A : Arena Block Place Req Val Upd Spec)

/-- The pool at its start: one block, and no pointer but the allocator's own. -/
def start (b : Block) : Pool Block Place :=
  { heap := (Owned.empty.make b).2, current := some 0, ptrs := [] }

/-- A pointer to place `p` of block `i`, whose new state is `b`, is handed out. -/
def handOut (s : Pool Block Place) (i : Nat) (pb : Place × Block) : Option (Pool Block Place) :=
  ((s.heap.set i pb.2).copy i).map fun H => { heap := H, current := some i, ptrs := s.ptrs ++ [(i, pb.1)] }

/-- The current block goes and a new one is taken. -/
def renew (s : Pool Block Place) (i : Nat) : Option (Pool Block Place) :=
  (s.heap.reset i).map fun H => { s with heap := (H.make (A.fresh H.next)).2, current := some H.next }

/-- A place is cut off the current block, or off a new one when that has no room. -/
def alloc (s : Pool Block Place) (r : Req) : Option (Pool Block Place) :=
  s.current.bind fun i => (s.heap.object i).bind fun b =>
    if (A.carve b r).isSome then (A.carve b r).bind (handOut s i)
    else (A.renew s i).bind fun s' => (A.carve (A.fresh s.heap.next) r).bind (handOut s' s.heap.next)


/-! ## A pool is a store -/

variable {A}

/-- The pool `s` holds the values of the store `a`; value `m` lies at `loc m`. -/
structure Stores (A : Arena Block Place Req Val Upd Spec) (s : Pool Block Place) (a : Values Spec) (loc : Nat → Nat × Place) : Prop where
  counts : s.heap.Counts s.owners
  good : ∀ i b, s.heap.object i = some b → A.Good b
  isOpen : a.isOpen = s.current.isSome
  ptrs : s.ptrs = a.ptrs.map loc
  below : ∀ m ∈ a.ptrs, m < a.contents.length
  cut : ∀ m ∈ a.ptrs, ∀ b, s.heap.object (loc m).1 = some b → A.Cut b (loc m).2
  meets : ∀ m ∈ a.ptrs, ∀ b, s.heap.object (loc m).1 = some b → ∀ σ, a.contents[m]? = some σ → A.Meets (A.read b (loc m).2) σ
  apart : ∀ m ∈ a.ptrs, ∀ m' ∈ a.ptrs, m ≠ m' → (loc m).1 = (loc m').1 → A.Apart (loc m).2 (loc m').2

/-- A pointer more. -/
theorem perm_owners_push (s : Pool Block Place) (x : Nat × Place) :
    (x.1 :: s.owners).Perm (s.current.toList ++ (s.ptrs ++ [x]).map Prod.fst) := by
  rw [List.map_append, List.map_cons, List.map_nil, ← List.append_assoc]
  exact (List.perm_append_singleton _ _).symm

/-- The owners without the allocator. -/
theorem owners_erase_current {s : Pool Block Place} {i : Nat} (hcur : s.current = some i) : s.owners.erase i = s.ptrs.map Prod.fst := by
  simp [Pool.owners, hcur]

namespace Stores

variable {s : Pool Block Place} {a : Values Spec} {loc : Nat → Nat × Place} {i k m : Nat} {b b' : Block} {r : Req} {p : Place}

/-- A pointer in existence owns its block. -/
theorem owner_mem (h : Stores A s a loc) (hm : m ∈ a.ptrs) : (loc m).1 ∈ s.owners := by
  refine List.mem_append_right _ (List.mem_map.mpr ⟨loc m, ?_, rfl⟩)
  rw [h.ptrs]
  exact List.mem_map.mpr ⟨m, hm, rfl⟩

/-- The allocator owns the current block. -/
theorem current_mem (hi : s.current = some i) : i ∈ s.owners := by
  simp [Pool.owners, hi]

/-- The pointer under an index of the pool is the one under the same index of the store. -/
theorem ptrs_get (h : Stores A s a loc) (k : Nat) : s.ptrs[k]? = a.ptrs[k]?.map loc := by
  rw [h.ptrs, List.getElem?_map]

/-- A place that is cut off the current block lies apart from the places in it. -/
theorem apart_carve (h : Stores A s a loc) (hb : s.heap.object i = some b) (hr : A.Fits r) (hc : A.carve b r = some (p, b'))
    (hm : m ∈ a.ptrs) (hmi : (loc m).1 = i) : A.Apart p (loc m).2 := by
  have hcut := h.cut m hm b (by rw [hmi, hb])
  obtain ⟨-, hapart, -⟩ := A.frame_carve (h.good i b hb) hr hc hcut
  exact hapart

/-- The places in existence stay what they are when a place is cut off the current block. -/
theorem kept_carve (h : Stores A s a loc) (hb : s.heap.object i = some b) (hr : A.Fits r) (hc : A.carve b r = some (p, b'))
    (hm : m ∈ a.ptrs) {c : Block} (hcm : (s.heap.set i b').object (loc m).1 = some c) :
    ∃ c₀, s.heap.object (loc m).1 = some c₀ ∧ A.Cut c (loc m).2 ∧ A.read c (loc m).2 = A.read c₀ (loc m).2 := by
  rcases Owned.object_of_set hcm with hcm | ⟨hmi, rfl⟩
  · exact ⟨c, hcm, h.cut m hm c hcm, rfl⟩
  · have hb' : s.heap.object (loc m).1 = some b := by rw [hmi, hb]
    obtain ⟨hcut, -, hread⟩ := A.frame_carve (h.good i b hb) hr hc (h.cut m hm b hb')
    exact ⟨b, hb', hcut, hread⟩

/-- A block hands a place out. -/
theorem handOut (h : Stores A s a loc) (hcur : s.current = some i) (hb : s.heap.object i = some b) (hr : A.Fits r)
    (hc : A.carve b r = some (p, b')) :
    ∃ s', Arena.handOut s i (p, b') = some s' ∧
      Stores A s' { a with contents := a.contents ++ [A.build r], ptrs := a.ptrs ++ [a.contents.length] }
        (Function.update loc a.contents.length (i, p)) := by
  have hgood : A.Good b := h.good i b hb
  have hin : i ∈ s.owners := current_mem hcur
  obtain ⟨H, hH, hcounts, hobj, -⟩ := (h.counts.set hin b').copy hin
  obtain ⟨hcutp, hmeetsp⟩ := A.meets_carve hgood hr hc
  -- the values that were there before, and the new one
  have hold : ∀ m ∈ a.ptrs, Function.update loc a.contents.length (i, p) m = loc m := by
    intro m hm
    exact Function.update_of_ne (Nat.ne_of_lt (h.below m hm)) _ _
  have hnew : Function.update loc a.contents.length (i, p) a.contents.length = (i, p) := Function.update_self ..
  have hself : H.object i = some b' := by rw [hobj, Owned.object_set_self]
  refine ⟨{ heap := H, current := some i, ptrs := s.ptrs ++ [(i, p)] }, by simp [Arena.handOut, hH], ?_⟩
  constructor
  case counts => exact hcounts.perm (hcur ▸ perm_owners_push s (i, p))
  case good =>
    intro j c hj
    rcases Owned.object_of_set (hobj ▸ hj) with hj | ⟨-, rfl⟩
    · exact h.good j c hj
    · exact A.good_carve hgood hr hc
  case isOpen => simp [h.isOpen, hcur]
  case ptrs =>
    simp only [List.map_append, List.map_cons, List.map_nil, hnew, h.ptrs]
    rw [List.map_congr_left hold]
  case below =>
    intro m hm
    simp only [List.length_append, List.length_singleton]
    rcases List.mem_append.mp hm with hm | hm
    · have := h.below m hm
      omega
    · rw [List.mem_singleton.mp hm]
      omega
  case cut =>
    intro m hm c hcm
    rcases List.mem_append.mp hm with hm | hm
    · rw [hold m hm] at hcm ⊢
      obtain ⟨-, -, hcut, -⟩ := h.kept_carve hb hr hc hm (hobj ▸ hcm)
      exact hcut
    · rw [List.mem_singleton.mp hm, hnew] at hcm ⊢
      cases hself.symm.trans hcm
      exact hcutp
  case meets =>
    intro m hm c hcm σ hσ
    rcases List.mem_append.mp hm with hm | hm
    · rw [hold m hm] at hcm ⊢
      obtain ⟨c₀, hc₀, -, hread⟩ := h.kept_carve hb hr hc hm (hobj ▸ hcm)
      rw [hread]
      rw [List.getElem?_append_left (h.below m hm)] at hσ
      exact h.meets m hm c₀ hc₀ σ hσ
    · rw [List.mem_singleton.mp hm, hnew] at hcm ⊢
      rw [List.mem_singleton.mp hm, List.getElem?_concat_length] at hσ
      cases hself.symm.trans hcm
      cases hσ
      exact hmeetsp
  case apart =>
    intro m hm m' hm' hne heq
    rcases List.mem_append.mp hm with hm | hm
    · rw [hold m hm] at heq ⊢
      rcases List.mem_append.mp hm' with hm' | hm'
      · rw [hold m' hm'] at heq ⊢
        exact h.apart m hm m' hm' hne heq
      · rw [List.mem_singleton.mp hm', hnew] at heq ⊢
        exact A.apart_symm (h.apart_carve hb hr hc hm heq)
    · rw [List.mem_singleton.mp hm, hnew] at heq ⊢
      rcases List.mem_append.mp hm' with hm' | hm'
      · rw [hold m' hm'] at heq ⊢
        exact h.apart_carve hb hr hc hm' heq.symm
      · rw [List.mem_singleton.mp hm, List.mem_singleton.mp hm'] at hne
        exact absurd rfl hne

/-- A new block changes nothing for the pointers in existence. -/
theorem renew (h : Stores A s a loc) (hcur : s.current = some i) :
    ∃ s', A.renew s i = some s' ∧ Stores A s' a loc ∧ s'.current = some s.heap.next ∧
      s'.heap.object s.heap.next = some (A.fresh s.heap.next) := by
  obtain ⟨H, hH, hcounts, hnext, hsub⟩ := h.counts.reset (current_mem hcur)
  rw [owners_erase_current hcur] at hcounts
  -- no pointer in existence points to the new block
  have hold : ∀ m ∈ a.ptrs, ∀ b, (H.make (A.fresh H.next)).2.object (loc m).1 = some b → s.heap.object (loc m).1 = some b := by
    intro m hm b hb
    rcases Owned.object_of_make hb with hb | ⟨he, -⟩
    · exact hsub _ b hb
    · refine absurd ?_ hcounts.next_not_mem
      rw [← he, h.ptrs]
      exact List.mem_map.mpr ⟨loc m, List.mem_map.mpr ⟨m, hm, rfl⟩, rfl⟩
  refine ⟨{ s with heap := (H.make (A.fresh H.next)).2, current := some H.next }, by simp [Arena.renew, hH], ?_, by rw [hnext], ?_⟩
  · constructor
    case counts => exact hcounts.make _
    case good =>
      intro j b hb
      rcases Owned.object_of_make hb with hb | ⟨-, rfl⟩
      · exact h.good j b (hsub j b hb)
      · exact A.good_fresh _
    case isOpen => simp [h.isOpen, hcur]
    case ptrs => exact h.ptrs
    case below => exact h.below
    case cut =>
      intro m hm b hb
      exact h.cut m hm b (hold m hm b hb)
    case meets =>
      intro m hm b hb
      exact h.meets m hm b (hold m hm b hb)
    case apart => exact h.apart
  · simp [Owned.make, hnext]

/-- An allocation by an open allocator succeeds and adds the value. -/
theorem alloc (h : Stores A s a loc) (hr : A.Fits r) (hopen : a.isOpen = true) :
    ∃ s' loc', A.alloc s r = some s' ∧
      Stores A s' { a with contents := a.contents ++ [A.build r], ptrs := a.ptrs ++ [a.contents.length] } loc' := by
  obtain ⟨i, hcur⟩ := Option.isSome_iff_exists.mp (h.isOpen ▸ hopen)
  obtain ⟨b, hb⟩ := h.counts.object (current_mem hcur)
  cases hc : A.carve b r with
  | some pb =>
    obtain ⟨s', hs', hst⟩ := h.handOut hcur hb hr hc
    refine ⟨s', _, ?_, hst⟩
    simp only [Arena.alloc, hcur, hb, hc, Option.bind_some, Option.isSome_some, if_true]
    exact hs'
  | none =>
    -- the block is full
    obtain ⟨s₁, hs₁, hst₁, hcur₁, hobj₁⟩ := h.renew hcur
    obtain ⟨p, b', hc'⟩ := A.carve_fresh s.heap.next hr
    obtain ⟨s', hs', hst⟩ := hst₁.handOut hcur₁ hobj₁ hr hc'
    refine ⟨s', _, ?_, hst⟩
    simp [Arena.alloc, hcur, hb, hc, hs₁, hc', hs']

/-- A pointer is copied. -/
theorem copy (h : Stores A s a loc) (hk : a.ptrs[k]? = some m) :
    ∃ s', s.copy k = some s' ∧ Stores A s' { a with ptrs := a.ptrs ++ [m] } loc := by
  have hm : m ∈ a.ptrs := List.mem_of_getElem? hk
  obtain ⟨H, hH, hcounts, hobj, -⟩ := h.counts.copy (h.owner_mem hm)
  have hsub : ∀ m' ∈ a.ptrs ++ [m], m' ∈ a.ptrs := by
    intro m' hm'
    rcases List.mem_append.mp hm' with hm' | hm'
    · exact hm'
    · rw [List.mem_singleton.mp hm']
      exact hm
  refine ⟨{ s with heap := H, ptrs := s.ptrs ++ [loc m] }, by simp [Pool.copy, h.ptrs_get, hk, hH], ?_⟩
  constructor
  case counts => exact hcounts.perm (perm_owners_push s (loc m))
  case good =>
    intro j b hb
    exact h.good j b (hobj ▸ hb)
  case isOpen => exact h.isOpen
  case ptrs => simp [h.ptrs]
  case below =>
    intro m' hm'
    exact h.below m' (hsub m' hm')
  case cut =>
    intro m' hm' b hb
    exact h.cut m' (hsub m' hm') b (hobj ▸ hb)
  case meets =>
    intro m' hm' b hb
    exact h.meets m' (hsub m' hm') b (hobj ▸ hb)
  case apart =>
    intro m₁ h₁ m₂ h₂
    exact h.apart m₁ (hsub m₁ h₁) m₂ (hsub m₂ h₂)

/-- The blocks and the pointers become fewer, and what is left does not change. -/
theorem shrink (h : Stores A s a loc) {s' : Pool Block Place} {ptrs : List Nat} {o : Bool} (hcounts : s'.heap.Counts s'.owners)
    (hobj : ∀ j b, s'.heap.object j = some b → s.heap.object j = some b) (ho : o = s'.current.isSome)
    (hptrs : s'.ptrs = ptrs.map loc) (hsub : ∀ m ∈ ptrs, m ∈ a.ptrs) :
    Stores A s' { isOpen := o, contents := a.contents, ptrs := ptrs } loc where
  counts := hcounts
  good := by
    intro j b hb
    exact h.good j b (hobj j b hb)
  isOpen := ho
  ptrs := hptrs
  below := by
    intro m hm
    exact h.below m (hsub m hm)
  cut := by
    intro m hm b hb
    exact h.cut m (hsub m hm) b (hobj _ b hb)
  meets := by
    intro m hm b hb
    exact h.meets m (hsub m hm) b (hobj _ b hb)
  apart := by
    intro m₁ h₁ m₂ h₂
    exact h.apart m₁ (hsub m₁ h₁) m₂ (hsub m₂ h₂)

/-- A pointer is dropped. -/
theorem drop (h : Stores A s a loc) (hk : a.ptrs[k]? = some m) :
    ∃ s', s.drop k = some s' ∧ Stores A s' { a with ptrs := a.ptrs.eraseIdx k } loc := by
  have hm : m ∈ a.ptrs := List.mem_of_getElem? hk
  obtain ⟨H, hH, hcounts, -, hobj⟩ := h.counts.reset (h.owner_mem hm)
  obtain ⟨hlt, hget⟩ := List.getElem?_eq_some_iff.mp hk
  refine ⟨{ s with heap := H, ptrs := s.ptrs.eraseIdx k }, by simp [Pool.drop, h.ptrs_get, hk, hH], ?_⟩
  refine h.shrink ?_ hobj h.isOpen ?_ fun m' hm' => List.mem_of_mem_eraseIdx hm'
  · -- one owner less
    refine hcounts.perm ?_
    have hperm : s.owners.Perm ((loc m).1 :: (s.current.toList ++ (s.ptrs.eraseIdx k).map Prod.fst)) := by
      have hp : s.ptrs.Perm (loc m :: s.ptrs.eraseIdx k) := by
        have hlt' : k < s.ptrs.length := by
          rw [h.ptrs, List.length_map]
          exact hlt
        have hget' : s.ptrs[k] = loc m := by simp [h.ptrs, hget]
        rw [← hget']
        exact (List.getElem_cons_eraseIdx_perm hlt').symm
      refine (List.Perm.append_left _ (hp.map Prod.fst)).trans ?_
      rw [List.map_cons]
      exact List.perm_middle
    have := hperm.erase (loc m).1
    rw [List.erase_cons_head] at this
    exact this
  · simp [h.ptrs, List.eraseIdx_map]

/-- A value is changed through a pointer. -/
theorem poke (h : Stores A s a loc) (hk : a.ptrs[k]? = some m) (u : Upd) :
    ∃ s', s.poke A.write k u = some s' ∧
      Stores A s' { a with contents := a.contents.modify m fun σ => A.poke σ u } loc := by
  have hm : m ∈ a.ptrs := List.mem_of_getElem? hk
  obtain ⟨b, hb⟩ := h.counts.object (h.owner_mem hm)
  have hgood := h.good _ b hb
  have hcutm := h.cut m hm b hb
  refine ⟨{ s with heap := s.heap.set (loc m).1 (A.write b (loc m).2 u) }, by simp [Pool.poke, h.ptrs_get, hk, hb], ?_⟩
  constructor
  case counts => exact h.counts.set (h.owner_mem hm) _
  case good =>
    intro j c hc
    rcases Owned.object_of_set hc with hc | ⟨-, rfl⟩
    · exact h.good j c hc
    · exact A.good_write hgood
  case isOpen => exact h.isOpen
  case ptrs => exact h.ptrs
  case below =>
    intro m' hm'
    rw [List.length_modify]
    exact h.below m' hm'
  case cut =>
    intro m' hm' c hc
    rcases Owned.object_of_set hc with hc | ⟨hj, rfl⟩
    · exact h.cut m' hm' c hc
    · exact A.cut_write (h.cut m' hm' b (hj ▸ hb))
  case meets =>
    intro m' hm' c hc σ hσ
    rw [List.getElem?_modify] at hσ
    by_cases hmm : m = m'
    · subst hmm
      cases Owned.object_set_self.symm.trans hc
      simp only [if_true, Option.map_eq_map, Option.map_eq_some_iff] at hσ
      obtain ⟨σ₀, hσ₀, rfl⟩ := hσ
      exact A.meets_write hgood hcutm (h.meets m hm b hb σ₀ hσ₀)
    · simp only [if_neg hmm, Option.map_eq_map, Option.map_id'] at hσ
      rcases Owned.object_of_set hc with hc | ⟨hj, rfl⟩
      · exact h.meets m' hm' c hc σ hσ
      · have hb' : s.heap.object (loc m').1 = some b := hj ▸ hb
        rw [A.frame_write hgood hcutm (h.cut m' hm' b hb') (h.apart m hm m' hm' hmm hj.symm)]
        exact h.meets m' hm' b hb' σ hσ
  case apart => exact h.apart

/-- The pool is closed. -/
theorem close (h : Stores A s a loc) (hopen : a.isOpen = true) :
    ∃ s', s.close = some s' ∧ Stores A s' { a with isOpen := false } loc := by
  obtain ⟨i, hcur⟩ := Option.isSome_iff_exists.mp (h.isOpen ▸ hopen)
  obtain ⟨H, hH, hcounts, -, hobj⟩ := h.counts.reset (current_mem hcur)
  refine ⟨{ s with heap := H, current := none }, by simp [Pool.close, hcur, hH], ?_⟩
  refine h.shrink ?_ hobj rfl h.ptrs fun _ => id
  rw [owners_erase_current hcur] at hcounts
  exact hcounts

end Stores

/-- The start of a pool is the empty store. -/
theorem stores_start {b : Block} (hb : A.Good b) (loc : Nat → Nat × Place) : Stores A (start b) Values.new loc where
  counts := Owned.counts_empty.make b
  good := by
    intro j c hc
    rcases Owned.object_of_make hc with hc | ⟨-, rfl⟩
    · cases hc
    · exact hb
  isOpen := rfl
  ptrs := rfl
  below := by
    intro m hm
    cases hm
  cut := by
    intro m hm
    cases hm
  meets := by
    intro m hm
    cases hm
  apart := by
    intro m hm
    cases hm

/-- The request of a call, if it is an allocation, can be met. -/
def ActFits (A : Arena Block Place Req Val Upd Spec) : Act Req Upd → Prop
  | .alloc r => A.Fits r
  | _ => True

/-- An allocator that does what `A.alloc` does wherever the pool holds a store. -/
def Allocates (A : Arena Block Place Req Val Upd Spec) (alloc : Pool Block Place → Req → Option (Pool Block Place)) : Prop :=
  ∀ s a loc r, Stores A s a loc → A.Fits r → alloc s r = A.alloc s r

/-- A pool that holds a store. -/
def Holds (A : Arena Block Place Req Val Upd Spec) (s : Pool Block Place) (a : Values Spec) : Prop := ∃ loc, Stores A s a loc

variable {alloc : Pool Block Place → Req → Option (Pool Block Place)}

/-- One call on the pool is the same call on the store. -/
theorem step_refines (halloc : Allocates A alloc) {s : Pool Block Place} {a : Values Spec} (h : Holds A s a) {c : Act Req Upd}
    (hfit : ActFits A c) : Option.Rel (Holds A) (s.step alloc A.write c) (a.step A.build A.poke c) := by
  obtain ⟨loc, h⟩ := h
  -- a pointer that is not in existence is none on both sides
  have hnone : ∀ k : Nat, a.ptrs[k]? = none → s.ptrs[k]? = none := by
    intro k hk
    rw [h.ptrs_get, hk]
    rfl
  cases c with
  | alloc r =>
    simp only [Pool.step, Values.step, halloc s a loc r h hfit]
    cases ho : a.isOpen with
    | true =>
      obtain ⟨s', loc', hs', hst⟩ := h.alloc hfit ho
      rw [hs', if_pos rfl]
      exact .some ⟨loc', ho ▸ hst⟩
    | false =>
      have hcur : s.current = none := by simpa [ho] using h.isOpen
      simp only [Arena.alloc, hcur, Option.bind_none]
      exact .none
  | copy k =>
    simp only [Pool.step, Values.step]
    cases hk : a.ptrs[k]? with
    | none =>
      simp only [Pool.copy, hnone k hk]
      exact .none
    | some m =>
      obtain ⟨s', hs', hst⟩ := h.copy hk
      rw [hs']
      exact .some ⟨loc, hst⟩
  | drop k =>
    simp only [Pool.step, Values.step]
    cases hk : a.ptrs[k]? with
    | none =>
      simp only [Pool.drop, hnone k hk]
      exact .none
    | some m =>
      obtain ⟨s', hs', hst⟩ := h.drop hk
      rw [hs']
      exact .some ⟨loc, hst⟩
  | poke k u =>
    simp only [Pool.step, Values.step]
    cases hk : a.ptrs[k]? with
    | none =>
      simp only [Pool.poke, hnone k hk]
      exact .none
    | some m =>
      obtain ⟨s', hs', hst⟩ := h.poke hk u
      rw [hs']
      exact .some ⟨loc, hst⟩
  | close =>
    simp only [Pool.step, Values.step]
    cases ho : a.isOpen with
    | true =>
      obtain ⟨s', hs', hst⟩ := h.close ho
      rw [hs', if_pos rfl]
      exact .some ⟨loc, hst⟩
    | false =>
      have hcur : s.current = none := by simpa [ho] using h.isOpen
      simp only [Pool.close, hcur]
      exact .none

/-- A run of the pool is the same run of the store: a call is possible on both or on neither, and the pool holds the store. -/
theorem run_refines (halloc : Allocates A alloc) {cs : List (Act Req Upd)} (hfit : ∀ c ∈ cs, ActFits A c) :
    ∀ {s : Pool Block Place} {a : Values Spec}, Holds A s a →
      Option.Rel (Holds A) (Lts.run (Pool.step alloc A.write) s cs) (Lts.run (Values.step A.build A.poke) a cs) := by
  induction cs with
  | nil =>
    intro s a h
    exact .some h
  | cons c cs ih =>
    intro s a h
    rw [Lts.run_cons, Lts.run_cons]
    have hstep := step_refines halloc h (hfit c (List.mem_cons_self ..))
    revert hstep
    cases s.step alloc A.write c <;> cases a.step A.build A.poke c <;> intro hstep
    · exact .none
    · cases hstep
    · cases hstep
    · cases hstep with
      | some h' => exact ih (fun c hc => hfit c (List.mem_cons_of_mem _ hc)) h'

/-! ### How many places were cut off -/

/-- A count of the places that were cut off a block. -/
structure CountsPlaces (A : Arena Block Place Req Val Upd Spec) (w : Block → Nat) : Prop where
  fresh : ∀ n, w (A.fresh n) = 0
  carve : ∀ {b r p b'}, A.carve b r = some (p, b') → w b' = w b + 1
  write : ∀ b p u, w (A.write b p u) = w b

/-- The number of allocations among the calls. -/
def allocations (cs : List (Act Req Upd)) : Nat := (cs.map fun | .alloc _ => 1 | _ => 0).sum

/-- A place that is handed out changes the weight by what its block has less. -/
theorem weight_handOut {w : Block → Nat} (hw : CountsPlaces A w) {s s' : Pool Block Place} {i : Nat} {b b' : Block} {r : Req} {p : Place}
    (hi : i < s.heap.next) (hb : s.heap.object i = some b) (hc : A.carve b r = some (p, b')) (h : handOut s i (p, b') = some s') :
    s'.heap.weight w = s.heap.weight w + 1 := by
  obtain ⟨H, hH, rfl⟩ := Option.map_eq_some_iff.mp h
  have hset := Owned.weight_set w hi hb b'
  have hcarve := hw.carve hc
  rw [Owned.weight_copy w hH]
  show (s.heap.set i b').weight w = _
  omega

/-- A call adds a place exactly when it is an allocation. -/
theorem step_weight (halloc : Allocates A alloc) {w : Block → Nat} (hw : CountsPlaces A w) {s s' : Pool Block Place} {a : Values Spec}
    (h : Holds A s a) {c : Act Req Upd} (hfit : ActFits A c) (hs : s.step alloc A.write c = some s') :
    s'.heap.weight w = s.heap.weight w + allocations [c] := by
  obtain ⟨loc, h⟩ := h
  have hbelow : ∀ i p, (i, p) ∈ s.ptrs → i < s.heap.next := by
    intro i p hp
    exact h.counts.below i (List.mem_append_right _ (List.mem_map.mpr ⟨_, hp, rfl⟩))
  cases c with
  | alloc r =>
    simp only [Pool.step, halloc s a loc r h hfit, Arena.alloc, Option.bind_eq_some_iff] at hs
    obtain ⟨i, hcur, b, hb, hs⟩ := hs
    have hi := h.counts.below i (Stores.current_mem hcur)
    split at hs
    · obtain ⟨⟨p, b'⟩, hc, hs⟩ := Option.bind_eq_some_iff.mp hs
      exact weight_handOut hw hi hb hc hs
    · obtain ⟨s₁, hs₁, hs⟩ := Option.bind_eq_some_iff.mp hs
      obtain ⟨⟨p, b'⟩, hc, hs⟩ := Option.bind_eq_some_iff.mp hs
      obtain ⟨s₁', hs₁', hst, -, hobj⟩ := h.renew hcur
      cases hs₁.symm.trans hs₁'
      obtain ⟨H, hH, rfl⟩ := Option.map_eq_some_iff.mp hs₁
      have hnext : s.heap.next < (H.make (A.fresh H.next)).2.next := by
        obtain ⟨H', hH', -, hn, -⟩ := h.counts.reset (Stores.current_mem hcur)
        cases hH.symm.trans hH'
        simp only [Owned.make]
        omega
      rw [weight_handOut hw hnext hobj hc hs, Owned.weight_make, Owned.weight_reset w hi hH, hw.fresh]
      rfl
  | copy k =>
    obtain ⟨p, -, hs⟩ := Option.bind_eq_some_iff.mp hs
    obtain ⟨H, hH, rfl⟩ := Option.map_eq_some_iff.mp hs
    exact Owned.weight_copy w hH
  | drop k =>
    obtain ⟨p, hp, hs⟩ := Option.bind_eq_some_iff.mp hs
    obtain ⟨H, hH, rfl⟩ := Option.map_eq_some_iff.mp hs
    exact Owned.weight_reset w (hbelow p.1 p.2 (List.mem_of_getElem? hp)) hH
  | poke k u =>
    obtain ⟨p, hp, hs⟩ := Option.bind_eq_some_iff.mp hs
    obtain ⟨b, hb, rfl⟩ := Option.map_eq_some_iff.mp hs
    have hset := Owned.weight_set w (hbelow p.1 p.2 (List.mem_of_getElem? hp)) hb (A.write b p.2 u)
    rw [hw.write] at hset
    show (s.heap.set p.1 _).weight w = s.heap.weight w + 0
    omega
  | close =>
    obtain ⟨i, hcur, hs⟩ := Option.bind_eq_some_iff.mp hs
    obtain ⟨H, hH, rfl⟩ := Option.map_eq_some_iff.mp hs
    exact Owned.weight_reset w (h.counts.below i (Stores.current_mem hcur)) hH

/-- The places cut off in a run are its allocations. -/
theorem run_weight (halloc : Allocates A alloc) {w : Block → Nat} (hw : CountsPlaces A w) {cs : List (Act Req Upd)}
    (hfit : ∀ c ∈ cs, ActFits A c) : ∀ {s s' : Pool Block Place} {a : Values Spec}, Holds A s a →
      Lts.run (Pool.step alloc A.write) s cs = some s' → s'.heap.weight w = s.heap.weight w + allocations cs := by
  induction cs with
  | nil =>
    intro s s' a _ hs
    cases hs
    rfl
  | cons c cs ih =>
    intro s s' a h hs
    rw [Lts.run_cons, Option.bind_eq_some_iff] at hs
    obtain ⟨s₁, hs₁, hs⟩ := hs
    have hc := hfit c (List.mem_cons_self ..)
    have hstep := step_refines halloc h hc
    rw [hs₁] at hstep
    obtain ⟨a', h'⟩ : ∃ a', Holds A s₁ a' := by
      generalize a.step A.build A.poke c = o at hstep
      cases hstep with
      | some h' => exact ⟨_, h'⟩
    rw [ih (fun c hc => hfit c (List.mem_cons_of_mem _ hc)) h' hs, step_weight halloc hw h hc hs₁]
    simp only [allocations, List.map_cons, List.map_nil, List.sum_cons, List.sum_nil]
    omega

/-- A pointer is in existence in the pool exactly when it is in the store, and then it reads what the store knows. -/
theorem Holds.read {s : Pool Block Place} {a : Values Spec} (h : Holds A s a) (k : Nat) :
    Option.Rel A.Meets (s.read A.read k) (a.read k) := by
  obtain ⟨loc, h⟩ := h
  simp only [Pool.read, Values.read, h.ptrs_get]
  cases hk : a.ptrs[k]? with
  | none => exact .none
  | some m =>
    have hm : m ∈ a.ptrs := List.mem_of_getElem? hk
    obtain ⟨b, hb⟩ := h.counts.object (h.owner_mem hm)
    have hlt := h.below m hm
    simp only [Option.map_some, Option.bind_some, hb, List.getElem?_eq_getElem hlt]
    exact .some (h.meets m hm b hb _ (List.getElem?_eq_getElem hlt))

/-- A block was taken and is destroyed exactly when nobody owns it, and it was destroyed once. -/
theorem Holds.freed {s : Pool Block Place} {a : Values Spec} (h : Holds A s a) :
    (s.heap.freed.map Prod.fst).Nodup ∧ ∀ i, i ∈ s.heap.freed.map Prod.fst ↔ i < s.heap.next ∧ i ∉ s.owners := by
  obtain ⟨loc, h⟩ := h
  exact ⟨h.counts.once, h.counts.freed⟩

end Arena

end Arenas
