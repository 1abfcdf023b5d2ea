import Mathlib.Data.List.Infix
import Mathlib.Data.List.Induction
import Mathlib.Algebra.Order.Ring.Int

/-!
# Runs of a partial step function

A system is a partial step function `step : σ → α → Option σ`: the label says which party moves and with what, and `none` says
that the move is not possible in the state. A run is a list of labels, every interleaving of the parties being one such list;
`Repeats` is a run in which one party moves alone.
`run_inv` is the invariant rule; `run_inv_of_log` is the invariant rule for runs that are constrained by the history they leave,
when the constraint is closed under prefixes and every step only extends the history; `run_inv_of_labels` is the rule for runs
whose steps are constrained by the states they are made in, and for invariants that speak of the labels so far. `forall_reached_iff`
says when a constraint on the steps is exactly what a property of all the states of a run takes.
-/

namespace Lts

variable {σ α ε : Type*} {step : σ → α → Option σ}

/-- The state after the labels `as`, if every one of them is possible. -/
def run (step : σ → α → Option σ) (s : σ) (as : List α) : Option σ := as.foldlM step s

@[simp] theorem run_nil (s : σ) : run step s [] = some s := rfl

@[simp] theorem run_cons (s : σ) (a : α) (as : List α) :
    run step s (a :: as) = (step s a).bind fun s' => run step s' as := rfl

/-- A run is run in two parts. -/
theorem run_append (s : σ) (as bs : List α) :
    run step s (as ++ bs) = (run step s as).bind fun s' => run step s' bs := by
  simp only [run, List.foldlM_append]
  rfl

/-- The last step of a run. -/
theorem run_snoc_eq_some {s t : σ} {as : List α} {a : α} :
    run step s (as ++ [a]) = some t ↔ ∃ m, run step s as = some m ∧ step m a = some t := by
  rw [run_append, Option.bind_eq_some_iff]
  simp

/-- A label taken over and over leads from one state to another. -/
def Repeats (step : σ → α → Option σ) (a : α) (s t : σ) : Prop := ∃ n, run step s (List.replicate n a) = some t

/-- No repetition. -/
theorem Repeats.refl (a : α) (s : σ) : Repeats step a s s := ⟨0, rfl⟩

/-- One step more at the start. -/
theorem Repeats.head {a : α} {s m t : σ} (hs : step s a = some m) (h : Repeats step a m t) : Repeats step a s t := by
  obtain ⟨n, hn⟩ := h
  refine ⟨n + 1, ?_⟩
  rw [List.replicate_succ, run_cons, hs]
  exact hn

/-- Repetitions one after the other. -/
theorem Repeats.trans {a : α} {s m t : σ} (h : Repeats step a s m) (h' : Repeats step a m t) : Repeats step a s t := by
  obtain ⟨n, hn⟩ := h
  obtain ⟨k, hk⟩ := h'
  refine ⟨n + k, ?_⟩
  rw [List.replicate_add, run_append, hn]
  exact hk

/-- A property of the first state that every step keeps holds at the end of every run. -/
theorem run_inv {I : σ → Prop} (hstep : ∀ s a t, I s → step s a = some t → I t) :
    ∀ {as : List α} {s t : σ}, I s → run step s as = some t → I t := by
  intro as
  induction as with
  | nil =>
    intro s t h hr
    cases hr
    exact h
  | cons a as ih =>
    intro s t h hr
    rw [run_cons, Option.bind_eq_some_iff] at hr
    obtain ⟨m, hm, hr⟩ := hr
    exact ih (hstep s a m h hm) hr

/-- The invariant rule for a run whose history satisfies `G`: a step may use that the history it leaves satisfies `G`. -/
theorem run_inv_of_log (log : σ → List ε) {G : List ε → Prop} {I : σ → Prop}
    (hlog : ∀ s a t, step s a = some t → log s <+: log t)
    (hG : ∀ l l', l <+: l' → G l' → G l)
    (hstep : ∀ s a t, I s → step s a = some t → G (log t) → I t) :
    ∀ {as : List α} {s t : σ}, I s → run step s as = some t → G (log t) → I t := by
  intro as
  induction as using List.reverseRecOn with
  | nil =>
    intro s t h hr _
    cases hr
    exact h
  | append_singleton as a ih =>
    intro s t h hr hg
    obtain ⟨m, hm, hs⟩ := run_snoc_eq_some.mp hr
    exact hstep m a t (ih h hm (hG _ _ (hlog m a t hs) hg)) hs hg

/-- Every step of a run meets a condition on its label and on the state it is made in. -/
def Along (step : σ → α → Option σ) (P : σ → α → Prop) : σ → List α → Prop
  | _, [] => True
  | s, a :: as => P s a ∧ ∀ t, step s a = some t → Along step P t as

instance decidableAlong {P : σ → α → Prop} [∀ s a, Decidable (P s a)] : ∀ (as : List α) (s : σ), Decidable (Along step P s as)
  | [], _ => isTrue trivial
  | a :: as, s =>
    match h : step s a with
    | none => decidable_of_iff (P s a) ⟨fun hp => ⟨hp, fun t ht => by rw [h] at ht; cases ht⟩, And.left⟩
    | some t =>
      have : Decidable (Along step P t as) := decidableAlong as t
      decidable_of_iff (P s a ∧ Along step P t as)
        ⟨fun ⟨hp, hrest⟩ => ⟨hp, fun u hu => by rw [h] at hu; cases hu; exact hrest⟩, fun ⟨hp, hrest⟩ => ⟨hp, hrest t h⟩⟩

/-- A weaker condition holds along the same steps. -/
theorem Along.mono {P Q : σ → α → Prop} (hPQ : ∀ s a, P s a → Q s a) :
    ∀ {as : List α} {s : σ}, Along step P s as → Along step Q s as := by
  intro as
  induction as with
  | nil =>
    intro s _
    trivial
  | cons a as ih =>
    intro s h
    exact ⟨hPQ s a h.1, fun t ht => ih (h.2 t ht)⟩

/-- The last step of a run that meets the condition. -/
theorem along_snoc {P : σ → α → Prop} {as : List α} {a : α} : ∀ {s : σ}, Along step P s (as ++ [a]) ↔
    Along step P s as ∧ ∀ t, run step s as = some t → P t a := by
  induction as with
  | nil =>
    intro s
    simp [Along]
  | cons b as ih =>
    intro s
    simp only [List.cons_append, Along, ih, run_cons]
    constructor
    · rintro ⟨hb, h⟩
      refine ⟨⟨hb, fun t ht => (h t ht).1⟩, fun t ht => ?_⟩
      obtain ⟨u, hu, ht⟩ := Option.bind_eq_some_iff.mp ht
      exact (h u hu).2 t ht
    · rintro ⟨⟨hb, h⟩, hlast⟩
      exact ⟨hb, fun t ht => ⟨h t ht, fun u hu => hlast u (Option.bind_eq_some_iff.mpr ⟨t, ht, hu⟩)⟩⟩

/-- A condition along a run holds along its first part. -/
theorem Along.of_append {P : σ → α → Prop} {as bs : List α} {s : σ} (h : Along step P s (as ++ bs)) : Along step P s as := by
  induction bs using List.reverseRecOn with
  | nil => rwa [List.append_nil] at h
  | append_singleton bs b ih =>
    rw [← List.append_assoc] at h
    exact ih (along_snoc.mp h).1

/-- The invariant rule for a run whose labels satisfy `G` and whose steps satisfy `P`; the invariant speaks of the labels so far. -/
theorem run_inv_of_labels {P : σ → α → Prop} {G : List α → Prop} {I : List α → σ → Prop}
    (hG : ∀ as a, G (as ++ [a]) → G as)
    (hstep : ∀ as s a t, G (as ++ [a]) → I as s → P s a → step s a = some t → I (as ++ [a]) t) {s : σ} (h : I [] s) :
    ∀ {as : List α} {t : σ}, G as → Along step P s as → run step s as = some t → I as t := by
  intro as
  induction as using List.reverseRecOn with
  | nil =>
    intro t _ _ hr
    cases hr
    exact h
  | append_singleton as a ih =>
    intro t hg hp hr
    obtain ⟨m, hm, hs⟩ := run_snoc_eq_some.mp hr
    obtain ⟨hp, hlast⟩ := along_snoc.mp hp
    exact hstep as m a t hg (ih (hG as a hg) hp hm) (hlast m hm) hs

/-- If a condition on the steps keeps an invariant that gives `Q`, and every step against the condition breaks `Q`, then `Q` holds in
all states of a run exactly if all its steps meet the condition. -/
theorem forall_reached_iff {P : σ → α → Prop} {I Q : σ → Prop} (hstep : ∀ s a t, I s → P s a → step s a = some t → I t)
    (hQ : ∀ s, I s → Q s) (hnot : ∀ s a t, ¬P s a → step s a = some t → ¬Q t) {s t : σ} (hs : I s) {as : List α}
    (hr : run step s as = some t) : (∀ bs u, bs <+: as → run step s bs = some u → Q u) ↔ Along step P s as := by
  constructor
  · intro hall
    induction as using List.reverseRecOn generalizing t with
    | nil => trivial
    | append_singleton as a ih =>
      obtain ⟨m, hm, hlast⟩ := run_snoc_eq_some.mp hr
      refine along_snoc.mpr ⟨ih hm fun bs u hbs => hall bs u (hbs.trans (List.prefix_append _ _)), fun u hu => ?_⟩
      rw [hm] at hu
      cases hu
      by_contra hp
      exact hnot m a t hp hlast (hall _ t (List.prefix_refl _) hr)
  · rintro halong bs u ⟨cs, rfl⟩ hu
    exact hQ u (run_inv_of_labels (G := fun _ => True) (I := fun _ => I) (fun _ _ _ => trivial)
      (fun _ s a t _ hi hp hs => hstep s a t hi hp hs) hs trivial halong.of_append hu)

end Lts
