import Mathlib.Order.Bounds.Basic
import Mathlib.Data.Nat.Basic
import Mathlib.Data.List.Basic
import Mathlib.Algebra.Order.Ring.Int

/-!
# Events in a series of intervals

The intervals end at `t0`, `t0 + step`, `t0 + 2 * step` and so on, and are closed one after the other. An event belongs to the earliest
interval that is not closed and does not end before it; all intervals before that one are closed by it. `assigned` puts each of a list of
events into its interval, `bucket` lists the events of an interval.
-/

namespace Series

variable {τ : Type*}

/-- The interval of an event at `ts` when the first `n` intervals are closed. -/
def slot (t0 step n ts : Nat) : Nat := max n ((ts - t0 + (step - 1)) / step)

/-- The first multiple that is not below a distance. -/
theorem le_mul_iff {step : Nat} (hstep : 0 < step) (d k : Nat) : d ≤ k * step ↔ (d + (step - 1)) / step ≤ k := by
  rw [Nat.div_le_iff_le_mul_add_pred hstep, Nat.mul_comm step k]
  omega

/-- The slot is the first one that is open and does not end before the time. -/
theorem isLeast_slot {step : Nat} (hstep : 0 < step) (t0 n ts : Nat) : IsLeast {k | n ≤ k ∧ ts ≤ t0 + k * step} (slot t0 step n ts) := by
  have hceil : ∀ k, ts ≤ t0 + k * step ↔ (ts - t0 + (step - 1)) / step ≤ k := by
    intro k
    rw [← le_mul_iff hstep, Nat.sub_le_iff_le_add']
  constructor
  · exact ⟨Nat.le_max_left _ _, (hceil _).mpr (Nat.le_max_right _ _)⟩
  · rintro k ⟨hn, hk⟩
    exact Nat.max_le.mpr ⟨hn, (hceil k).mp hk⟩

/-- The slot is an open one. -/
theorem le_slot (t0 step n ts : Nat) : n ≤ slot t0 step n ts := Nat.le_max_left _ _

/-- An event that is not after the open interval belongs to it. -/
theorem slot_of_le {t0 step n ts : Nat} (hstep : 0 < step) (hts : ts ≤ t0 + n * step) : slot t0 step n ts = n :=
  le_antisymm ((isLeast_slot hstep t0 n ts).2 ⟨le_rfl, hts⟩) (le_slot t0 step n ts)

/-- An event after the open interval closes it. -/
theorem slot_of_lt {t0 step n ts : Nat} (hstep : 0 < step) (hts : t0 + n * step < ts) : slot t0 step n ts = slot t0 step (n + 1) ts := by
  have hleast := isLeast_slot hstep t0 n ts
  have hleast' := isLeast_slot hstep t0 (n + 1) ts
  refine le_antisymm (hleast.2 ⟨Nat.le_of_succ_le hleast'.1.1, hleast'.1.2⟩) (hleast'.2 ⟨?_, hleast.1.2⟩)
  rcases Nat.lt_or_eq_of_le hleast.1.1 with hlt | heq
  · exact hlt
  · have hle := hleast.1.2
    rw [← heq] at hle
    omega

variable (t0 step : Nat) (time : τ → Nat)

/-- The number of closed intervals after the events. -/
def closed : Nat → List τ → Nat
  | n, [] => n
  | n, e :: es => closed (slot t0 step n (time e)) es

/-- The elements with their slots. -/
def assigned : Nat → List τ → List (Nat × τ)
  | _, [] => []
  | n, e :: es => (slot t0 step n (time e), e) :: assigned (slot t0 step n (time e)) es

/-- The closed slots after two parts. -/
theorem closed_append (n : Nat) (es es' : List τ) :
    closed t0 step time n (es ++ es') = closed t0 step time (closed t0 step time n es) es' := by
  induction es generalizing n with
  | nil => rfl
  | cons e es ih => exact ih _

/-- The slots of two parts. -/
theorem assigned_append (n : Nat) (es es' : List τ) :
    assigned t0 step time n (es ++ es') = assigned t0 step time n es ++ assigned t0 step time (closed t0 step time n es) es' := by
  induction es generalizing n with
  | nil => rfl
  | cons e es ih => exact congrArg (List.cons _) (ih _)

/-- The closed slots after the last element. -/
theorem closed_concat (n : Nat) (es : List τ) (e : τ) :
    closed t0 step time n (es ++ [e]) = slot t0 step (closed t0 step time n es) (time e) := closed_append t0 step time n es [e]

/-- The slot of the last element. -/
theorem assigned_concat (n : Nat) (es : List τ) (e : τ) :
    assigned t0 step time n (es ++ [e]) =
      assigned t0 step time n es ++ [(slot t0 step (closed t0 step time n es) (time e), e)] := assigned_append t0 step time n es [e]

/-- No slot is opened again. -/
theorem le_closed (n : Nat) (es : List τ) : n ≤ closed t0 step time n es := by
  induction es generalizing n with
  | nil => exact le_rfl
  | cons e es ih => exact (le_slot t0 step n (time e)).trans (ih _)

/-- Every event is in an interval that is closed or the open one. -/
theorem fst_le_closed (n : Nat) (es : List τ) : ∀ p ∈ assigned t0 step time n es, p.1 ≤ closed t0 step time n es := by
  induction es generalizing n with
  | nil => exact fun p hp => absurd hp List.not_mem_nil
  | cons e es ih => exact List.forall_mem_cons.mpr ⟨le_closed t0 step time _ es, ih _⟩

/-- Every element has its slot. -/
theorem map_snd_assigned (n : Nat) (es : List τ) : (assigned t0 step time n es).map Prod.snd = es := by
  induction es generalizing n with
  | nil => rfl
  | cons e es ih => exact congrArg (List.cons e) (ih _)

/-- There are as many slots as elements. -/
theorem length_assigned (n : Nat) (es : List τ) : (assigned t0 step time n es).length = es.length := by
  rw [← List.length_map Prod.snd, map_snd_assigned]

/-- The interval of an event, by its place in the list. -/
theorem getElem?_assigned (n : Nat) (before after : List τ) (e : τ) :
    (assigned t0 step time n (before ++ e :: after))[before.length]? = some (slot t0 step (closed t0 step time n before) (time e), e) := by
  rw [assigned_append, List.getElem?_append_right (length_assigned t0 step time n before).le, length_assigned, Nat.sub_self]
  rfl

/-! ## The events of an interval -/

/-- The elements of a slot. -/
def bucket (ps : List (Nat × τ)) (i : Nat) : List τ := (ps.filter fun p => p.1 = i).map Prod.snd

/-- The last element is in its slot. -/
theorem bucket_concat_self (ps : List (Nat × τ)) (i : Nat) (e : τ) : bucket (ps ++ [(i, e)]) i = bucket ps i ++ [e] := by
  simp [bucket]

/-- The last element is in no other slot. -/
theorem bucket_concat_of_ne {i j : Nat} (h : i ≠ j) (ps : List (Nat × τ)) (e : τ) : bucket (ps ++ [(i, e)]) j = bucket ps j := by
  simp [bucket, h]

/-- No element is in a later slot. -/
theorem bucket_of_lt {ps : List (Nat × τ)} {n i : Nat} (hps : ∀ p ∈ ps, p.1 ≤ n) (h : n < i) : bucket ps i = [] := by
  have hnone : ps.filter (fun p => p.1 = i) = [] := by
    rw [List.filter_eq_nil_iff]
    intro p hp heq
    have hle := hps p hp
    have heq := of_decide_eq_true heq
    omega
  rw [bucket, hnone, List.map_nil]

end Series
