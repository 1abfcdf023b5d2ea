import Mathlib.Data.List.Basic
import Mathlib.Order.Basic
import Mathlib.Algebra.Order.Ring.Int

/-!
# Blocks at multiples of their sizes

Blocks of given sizes are placed one behind the other, each at the next multiple of its own size.
-/

namespace Blocks

/-- The next multiple of `s` from `n` on. -/
def alignUp (n s : Nat) : Nat := if n % s = 0 then n else n + (s - n % s)

section AlignUp

variable (n : Nat) {s : Nat}

@[simp] theorem zero_alignUp (s : Nat) : alignUp 0 s = 0 := by rw [alignUp, Nat.zero_mod, if_pos rfl]

/-- The aligned offset is not below. -/
theorem le_alignUp (s : Nat) : n ≤ alignUp n s := by
  rw [alignUp]
  split
  · exact Nat.le_refl n
  · exact Nat.le_add_right n _

/-- The aligned offset is less than a size further. -/
theorem alignUp_lt (hs : 0 < s) : alignUp n s < n + s := by
  rw [alignUp]
  split
  · omega
  · omega

/-- The aligned offset is a multiple. -/
theorem dvd_alignUp (hs : 0 < s) : s ∣ alignUp n s := by
  rw [alignUp]
  split
  · next h => exact Nat.dvd_of_mod_eq_zero h
  · have hmod := Nat.mod_lt n hs
    have hdiv := Nat.div_add_mod n s
    exact ⟨n / s + 1, by rw [Nat.mul_add, Nat.mul_one]; omega⟩

end AlignUp

/-- A part of a buffer. -/
structure Block where
  start : Nat
  size : Nat
deriving DecidableEq

namespace Block

/-- The end of a block. -/
def stop (b : Block) : Nat := b.start + b.size

/-- The blocks have no byte in common. -/
def Disjoint (a b : Block) : Prop := a.stop ≤ b.start ∨ b.stop ≤ a.start

end Block

/-- Blocks of the sizes, each at the next aligned offset. -/
def place : Nat → List Nat → List Block
  | _, [] => []
  | n, s :: ss => { start := alignUp n s, size := s } :: place (alignUp n s + s) ss

/-- Where the last block ends. -/
def stop : Nat → List Nat → Nat
  | n, [] => n
  | n, s :: ss => stop (alignUp n s + s) ss

/-- The places of two parts. -/
theorem place_append (n : Nat) (ss ss' : List Nat) : place n (ss ++ ss') = place n ss ++ place (stop n ss) ss' := by
  induction ss generalizing n with
  | nil => rfl
  | cons s ss ih => rw [List.cons_append, place, place, stop, ih, List.cons_append]

/-- The end of two parts. -/
theorem stop_append (n : Nat) (ss ss' : List Nat) : stop n (ss ++ ss') = stop (stop n ss) ss' := by
  induction ss generalizing n with
  | nil => rfl
  | cons s ss ih => rw [List.cons_append, stop, stop, ih]

/-- The end is not before the start. -/
theorem le_stop (n : Nat) (ss : List Nat) : n ≤ stop n ss := by
  induction ss generalizing n with
  | nil => exact Nat.le_refl n
  | cons s ss ih =>
    have h := ih (alignUp n s + s)
    have hle := le_alignUp n s
    rw [stop]
    omega

/-- The end of a part is not behind that of the whole. -/
theorem stop_le_append (n : Nat) (ss ss' : List Nat) : stop n ss ≤ stop n (ss ++ ss') := by
  rw [stop_append]
  exact le_stop _ _

/-- The blocks are between the start and the end. -/
theorem bounds {n : Nat} {ss : List Nat} : ∀ b ∈ place n ss, n ≤ b.start ∧ b.stop ≤ stop n ss := by
  induction ss generalizing n with
  | nil => exact nofun
  | cons s ss ih =>
    intro b hb
    have hle := le_alignUp n s
    rcases List.mem_cons.mp hb with rfl | hb
    · exact ⟨hle, le_stop _ ss⟩
    · obtain ⟨hstart, hstop⟩ := ih b hb
      exact ⟨by omega, hstop⟩

/-- The blocks are aligned. -/
theorem aligned {n : Nat} {ss : List Nat} (hpos : ∀ s ∈ ss, 0 < s) : ∀ b ∈ place n ss, b.size ∣ b.start := by
  induction ss generalizing n with
  | nil => exact nofun
  | cons s ss ih =>
    obtain ⟨hs, hpos⟩ := List.forall_mem_cons.mp hpos
    exact List.forall_mem_cons.mpr ⟨dvd_alignUp n hs, ih hpos⟩

/-- The blocks are disjoint. -/
theorem disjoint (n : Nat) (ss : List Nat) : (place n ss).Pairwise Block.Disjoint := by
  induction ss generalizing n with
  | nil => exact List.Pairwise.nil
  | cons s ss ih =>
    rw [place, List.pairwise_cons]
    exact ⟨fun b hb => Or.inl (bounds b hb).1, ih _⟩

end Blocks
