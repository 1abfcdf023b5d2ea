import Mathlib.Data.List.Basic
import Mathlib.Order.Basic
import Mathlib.Order.Defs.LinearOrder
import Blockmon.Lib.Exn

/-!
# Ordered maps

A map is the list of its entries in the order of the keys, each key once. `find?` looks a key up, `assign` writes a value whether
or not the key was there, `insert` only if it was not, `erase` removes a key. `visit` makes a call on every value in the order of
the keys; the call may throw, which ends the visit and leaves what was done so far.
-/

structure OrdMap (κ ν : Type) [LinearOrder κ] where
  entries : List (κ × ν)
  sorted : (entries.map Prod.fst).Pairwise (· < ·)

namespace OrdMap

variable {κ ν ε : Type} [LinearOrder κ]

@[ext] theorem ext {m m' : OrdMap κ ν} (h : m.entries = m'.entries) : m = m' := by
  cases m
  cases m'
  simpa using h

def empty : OrdMap κ ν := ⟨[], List.Pairwise.nil⟩

def find? (m : OrdMap κ ν) (k : κ) : Option ν := (m.entries.find? fun e => decide (e.1 = k)).map Prod.snd

/-- Two entries with one key are the same entry. -/
theorem eq_of_mem {m : OrdMap κ ν} {k : κ} {v v' : ν} (h : (k, v) ∈ m.entries) (h' : (k, v') ∈ m.entries) : v = v' := by
  obtain ⟨es, hs⟩ := m
  induction es with
  | nil => cases h
  | cons e es ih =>
    obtain ⟨hlt, hrest⟩ := List.pairwise_cons.mp hs
    -- no later entry has the key of the first one
    have hfirst : ∀ w, (e.1, w) ∉ es := fun w hw => lt_irrefl _ (hlt e.1 (List.mem_map.mpr ⟨_, hw, rfl⟩))
    rcases List.mem_cons.mp h with rfl | hm <;> rcases List.mem_cons.mp h' with he' | hm'
    · exact (Prod.mk.inj he').2.symm
    · exact absurd hm' (hfirst v')
    · subst he'
      exact absurd hm (hfirst v)
    · exact ih hrest hm hm'

theorem find?_eq_some {m : OrdMap κ ν} {k : κ} {v : ν} : m.find? k = some v ↔ (k, v) ∈ m.entries := by
  constructor
  · intro h
    obtain ⟨⟨k', v'⟩, he, rfl⟩ := Option.map_eq_some_iff.mp h
    have hk := List.find?_some he
    obtain rfl : k' = k := of_decide_eq_true hk
    exact List.mem_of_find?_eq_some he
  · intro h
    cases hf : m.entries.find? fun e => decide (e.1 = k) with
    | none => simpa using List.find?_eq_none.mp hf _ h
    | some e =>
      obtain ⟨k', v'⟩ := e
      have hk := List.find?_some hf
      obtain rfl : k' = k := of_decide_eq_true hk
      rw [find?, hf, eq_of_mem h (List.mem_of_find?_eq_some hf)]
      rfl

@[simp] theorem find?_empty (k : κ) : (empty : OrdMap κ ν).find? k = none := rfl

/-! ## Writing -/

def assign (m : OrdMap κ ν) (k : κ) (v : ν) : OrdMap κ ν where
  entries := m.entries.filter (fun e => decide (e.1 < k)) ++ (k, v) :: m.entries.filter (fun e => decide (k < e.1))
  sorted := by
    have hsub : ∀ p : κ × ν → Bool, ((m.entries.filter p).map Prod.fst).Pairwise (· < ·) :=
      fun p => m.sorted.sublist (List.filter_sublist.map Prod.fst)
    rw [List.map_append, List.map_cons, List.pairwise_append, List.pairwise_cons]
    refine ⟨hsub _, ⟨fun a ha => ?_, hsub _⟩, fun a ha b hb => ?_⟩
    · obtain ⟨e, he, rfl⟩ := List.mem_map.mp ha
      exact of_decide_eq_true (List.mem_filter.mp he).2
    · obtain ⟨e, he, rfl⟩ := List.mem_map.mp ha
      have hlt : e.1 < k := of_decide_eq_true (List.mem_filter.mp he).2
      rcases List.mem_cons.mp hb with rfl | hb
      · exact hlt
      · obtain ⟨e', he', rfl⟩ := List.mem_map.mp hb
        exact hlt.trans (of_decide_eq_true (List.mem_filter.mp he').2)

theorem mem_assign {m : OrdMap κ ν} {k k' : κ} {v v' : ν} :
    (k', v') ∈ (m.assign k v).entries ↔ (k' = k ∧ v' = v) ∨ (k' ≠ k ∧ (k', v') ∈ m.entries) := by
  simp only [assign, List.mem_append, List.mem_cons, List.mem_filter, decide_eq_true_eq, Prod.mk.injEq, ne_eq]
  constructor
  · rintro (⟨h, hlt⟩ | h | ⟨h, hlt⟩)
    · exact Or.inr ⟨hlt.ne, h⟩
    · exact Or.inl h
    · exact Or.inr ⟨hlt.ne', h⟩
  · rintro (h | ⟨hne, h⟩)
    · exact Or.inr (Or.inl h)
    · rcases lt_or_gt_of_ne hne with hlt | hlt
      · exact Or.inl ⟨h, hlt⟩
      · exact Or.inr (Or.inr ⟨h, hlt⟩)

theorem find?_assign (m : OrdMap κ ν) (k k' : κ) (v : ν) :
    (m.assign k v).find? k' = if k' = k then some v else m.find? k' := by
  ext w
  rw [find?_eq_some, mem_assign]
  by_cases hk : k' = k
  · simp [hk, eq_comm]
  · simp [hk, find?_eq_some]

/-- A value for a new key; a key that is there keeps its value. -/
def insert (m : OrdMap κ ν) (k : κ) (v : ν) : OrdMap κ ν := if (m.find? k).isSome then m else m.assign k v

theorem find?_insert (m : OrdMap κ ν) (k k' : κ) (v : ν) :
    (m.insert k v).find? k' = (m.find? k').or (if k' = k then some v else none) := by
  rw [insert]
  cases hk : m.find? k with
  | none =>
    by_cases h : k' = k
    · simp [h, hk, find?_assign]
    · simp [h, find?_assign]
  | some w =>
    by_cases h : k' = k
    · simp [h, hk]
    · simp [h]

/-- The entries of a list inserted one after the other: the first one of a key is kept. -/
theorem find?_foldl_insert {α : Type} (key : α → κ) (val : α → ν) (xs : List α) (m : OrdMap κ ν) (k : κ) :
    (xs.foldl (fun m x => m.insert (key x) (val x)) m).find? k = (m.find? k).or ((xs.find? fun x => decide (key x = k)).map val) := by
  induction xs generalizing m with
  | nil => simp
  | cons x xs ih =>
    rw [List.foldl_cons, ih, find?_insert, Option.or_assoc]
    congr 1
    by_cases h : k = key x
    · simp [h]
    · simp [h, Ne.symm h]

/-- The entries of a key. -/
theorem filter_key (m : OrdMap κ ν) (k : κ) : m.entries.filter (fun e => decide (e.1 = k)) = (m.find? k).toList.map fun v => (k, v) := by
  obtain ⟨es, hs⟩ := m
  rw [find?]
  dsimp only
  induction es with
  | nil => rfl
  | cons e es ih =>
    obtain ⟨hlt, hrest⟩ := List.pairwise_cons.mp hs
    by_cases h : e.1 = k
    · have hnone : es.filter (fun e => decide (e.1 = k)) = [] := by
        rw [List.filter_eq_nil_iff]
        intro e' he' heq
        have hlt' := hlt e'.1 (List.mem_map.mpr ⟨e', he', rfl⟩)
        rw [h, of_decide_eq_true heq] at hlt'
        exact lt_irrefl _ hlt'
      subst h
      simp [hnone]
    · simp [h, ih hrest]

def erase (m : OrdMap κ ν) (k : κ) : OrdMap κ ν where
  entries := m.entries.filter fun e => decide (e.1 ≠ k)
  sorted := m.sorted.sublist (List.filter_sublist.map Prod.fst)

theorem find?_erase_eq_some {m : OrdMap κ ν} {k k' : κ} {v : ν} (h : (m.erase k).find? k' = some v) : m.find? k' = some v := by
  rw [find?_eq_some] at h ⊢
  exact (List.mem_filter.mp h).1

theorem find?_erase (m : OrdMap κ ν) (k k' : κ) : (m.erase k).find? k' = if k' = k then none else m.find? k' := by
  ext v
  rw [find?_eq_some]
  by_cases hk : k' = k
  · simp [erase, hk]
  · simp [erase, hk, find?_eq_some]

/-! ## Visiting the values in the order of the keys -/

/-- Make the call `f k` on the value of every key `k` in turn, until one throws. -/
def visitEntries (f : κ → EStateM ε ν Unit) : List (κ × ν) → EStateM.Result ε (List (κ × ν)) Unit
  | [] => .ok () []
  | (k, v) :: rest =>
    match (f k).run v with
    | .error e v' => .error e ((k, v') :: rest)
    | .ok _ v' =>
      match visitEntries f rest with
      | .error e rest' => .error e ((k, v') :: rest')
      | .ok _ rest' => .ok () ((k, v') :: rest')

omit [LinearOrder κ] in
theorem keys_visitEntries (f : κ → EStateM ε ν Unit) (es : List (κ × ν)) :
    (Exn.leaves (visitEntries f es)).map Prod.fst = es.map Prod.fst := by
  induction es with
  | nil => rfl
  | cons e es ih =>
    obtain ⟨k, v⟩ := e
    simp only [visitEntries]
    cases (f k).run v with
    | error e v' => rfl
    | ok u v' =>
      cases hrest : visitEntries f es with
      | error e rest' | ok u rest' =>
        rw [hrest] at ih
        simpa [Exn.leaves] using ih

def visit (f : κ → EStateM ε ν Unit) : EStateM ε (OrdMap κ ν) Unit := fun m =>
  let m' : OrdMap κ ν := ⟨Exn.leaves (visitEntries f m.entries), by rw [keys_visitEntries]; exact m.sorted⟩
  match visitEntries f m.entries with
  | .ok _ _ => .ok () m'
  | .error e _ => .error e m'

/-- The entry after its call. -/
def visited (f : κ → EStateM ε ν Unit) (e : κ × ν) : κ × ν := (e.1, Exn.leaves ((f e.1).run e.2))

/-- The call on the entry returns. -/
def Returns (f : κ → EStateM ε ν Unit) (e : κ × ν) : Prop := ∃ v', (f e.1).run e.2 = .ok () v'

omit [LinearOrder κ] in
theorem not_returns {f : κ → EStateM ε ν Unit} {k : κ} {v v' : ν} {e : ε} (he : (f k).run v = .error e v') : ¬Returns f (k, v) := by
  rintro ⟨w, hw⟩
  rw [he] at hw
  cases hw

omit [LinearOrder κ] in
theorem visitEntries_of_returns {f : κ → EStateM ε ν Unit} {es : List (κ × ν)} (h : ∀ e ∈ es, Returns f e) :
    visitEntries f es = .ok () (es.map (visited f)) := by
  induction es with
  | nil => rfl
  | cons e es ih =>
    obtain ⟨v', hv'⟩ := h e List.mem_cons_self
    rw [visitEntries, hv', ih fun e he => h e (List.mem_cons_of_mem _ he)]
    simp [visited, hv', Exn.leaves]

omit [LinearOrder κ] in
/-- The visit ends at the first call that throws. -/
theorem visitEntries_of_throws {f : κ → EStateM ε ν Unit} {pre post : List (κ × ν)} {k : κ} {v v' : ν} {e : ε}
    (h : ∀ e ∈ pre, Returns f e) (he : (f k).run v = .error e v') :
    visitEntries f (pre ++ (k, v) :: post) = .error e (pre.map (visited f) ++ (k, v') :: post) := by
  induction pre with
  | nil => simp [visitEntries, he]
  | cons e' pre ih =>
    obtain ⟨w, hw⟩ := h e' List.mem_cons_self
    rw [List.cons_append, visitEntries, hw, ih fun e he => h e (List.mem_cons_of_mem _ he)]
    simp [visited, hw, Exn.leaves]

omit [LinearOrder κ] in
/-- Either every call returns, or there is a first one that throws. -/
theorem returns_or_throws (f : κ → EStateM ε ν Unit) (es : List (κ × ν)) :
    (∀ e ∈ es, Returns f e) ∨
      ∃ pre k v post e v', es = pre ++ (k, v) :: post ∧ (∀ e ∈ pre, Returns f e) ∧ (f k).run v = .error e v' := by
  induction es with
  | nil => exact Or.inl (by simp)
  | cons x es ih =>
    obtain ⟨k, v⟩ := x
    cases hx : (f k).run v with
    | error e v' => exact Or.inr ⟨[], k, v, es, e, v', rfl, by simp, hx⟩
    | ok u v' =>
      have hret : Returns f (k, v) := ⟨v', hx⟩
      rcases ih with hall | ⟨pre, k', v₁, post, e, v₂, rfl, hpre, he⟩
      · exact Or.inl (List.forall_mem_cons.mpr ⟨hret, hall⟩)
      · exact Or.inr ⟨(k, v) :: pre, k', v₁, post, e, v₂, rfl, List.forall_mem_cons.mpr ⟨hret, hpre⟩, he⟩

/-- The value after its call. -/
def visitedValue (f : κ → EStateM ε ν Unit) (k : κ) (v : ν) : ν := Exn.leaves ((f k).run v)

/-- What a visit does, by keys: every call returns, or the call of some key throws, the calls of the keys before it returned and
those after it are not made. -/
inductive Visit (f : κ → EStateM ε ν Unit) (m m' : OrdMap κ ν) : EStateM.Result ε (OrdMap κ ν) Unit → Prop where
  | returns (hret : ∀ k v, m.find? k = some v → Returns f (k, v)) (hfind : ∀ k, m'.find? k = (m.find? k).map (visitedValue f k)) :
      Visit f m m' (.ok () m')
  | throws (k : κ) (v v' : ν) (e : ε) (hk : m.find? k = some v) (he : (f k).run v = .error e v')
      (hret : ∀ k' v', k' < k → m.find? k' = some v' → Returns f (k', v'))
      (hfind : ∀ k', m'.find? k' = if k' ≤ k then (m.find? k').map (visitedValue f k') else m.find? k') :
      Visit f m m' (.error e m')

/-- The lookups after the values of the first keys have been visited. -/
theorem find?_visited {m m' : OrdMap κ ν} {f : κ → EStateM ε ν Unit} {done rest : List (κ × ν)} {P : κ → Prop} [DecidablePred P]
    (hm : m.entries = done ++ rest) (hm' : m'.entries = done.map (visited f) ++ rest) (hdone : ∀ e ∈ done, P e.1)
    (hrest : ∀ e ∈ rest, ¬P e.1) (k : κ) :
    m'.find? k = if P k then (m.find? k).map (visitedValue f k) else m.find? k := by
  ext w
  rw [find?_eq_some, hm', List.mem_append, List.mem_map]
  constructor
  · rintro (⟨⟨k', v⟩, hv, he⟩ | hw)
    · obtain ⟨rfl, rfl⟩ := Prod.mk.inj he
      have hfind : m.find? k' = some v := find?_eq_some.mpr (hm ▸ List.mem_append_left _ hv)
      rw [if_pos (hdone _ hv), hfind]
      rfl
    · rw [if_neg (hrest _ hw), find?_eq_some, hm]
      exact List.mem_append_right _ hw
  · intro h
    split at h
    · rename_i hk
      obtain ⟨v, hv, rfl⟩ := Option.map_eq_some_iff.mp h
      rw [find?_eq_some, hm, List.mem_append] at hv
      exact Or.inl ⟨(k, v), hv.resolve_right fun hr => hrest _ hr hk, rfl⟩
    · rename_i hk
      rw [find?_eq_some, hm, List.mem_append] at h
      exact Or.inr (h.resolve_left fun hd => hk (hdone _ hd))

/-- A value after a visit is a value before it or what its call left. -/
theorem Visit.find?_eq_some {f : κ → EStateM ε ν Unit} {m m' : OrdMap κ ν} {r : EStateM.Result ε (OrdMap κ ν) Unit}
    (h : Visit f m m' r) {k : κ} {v' : ν} (hk : m'.find? k = some v') :
    ∃ v, m.find? k = some v ∧ (v' = v ∨ v' = visitedValue f k v) := by
  have hmap : ∀ {o : Option ν}, o.map (visitedValue f k) = some v' → ∃ v, o = some v ∧ (v' = v ∨ v' = visitedValue f k v) := by
    intro o ho
    obtain ⟨v, hv, rfl⟩ := Option.map_eq_some_iff.mp ho
    exact ⟨v, hv, Or.inr rfl⟩
  cases h with
  | returns hret hfind => exact hmap (hfind k ▸ hk)
  | throws k₀ v v₀ e hk₀ he hret hfind =>
    rw [hfind] at hk
    split at hk
    · exact hmap hk
    · exact ⟨v', hk, Or.inl rfl⟩

/-- The visit leaves the map it is about. -/
theorem Visit.leaves_eq {f : κ → EStateM ε ν Unit} {m m' : OrdMap κ ν} {r : EStateM.Result ε (OrdMap κ ν) Unit}
    (h : Visit f m m' r) : Exn.leaves r = m' := by
  cases h <;> rfl

/-- Every visit is one of the two kinds. -/
theorem visit_spec (f : κ → EStateM ε ν Unit) (m : OrdMap κ ν) : ∃ m', Visit f m m' ((visit f).run m) := by
  have hsorted := m.sorted
  rcases returns_or_throws f m.entries with hret | ⟨pre, k, v, post, e, v', hes, hpre, he⟩
  · have hvisit := visitEntries_of_returns hret
    have hrun : (visit f).run m = .ok () (Exn.leaves ((visit f).run m)) := by
      simp only [visit, EStateM.run, hvisit, Exn.leaves]
    rw [hrun]
    refine ⟨_, .returns (fun k v hk => hret _ (find?_eq_some.mp hk)) fun k => ?_⟩
    have hentries : (Exn.leaves ((visit f).run m)).entries = m.entries.map (visited f) ++ [] := by
      simp only [visit, EStateM.run, hvisit, Exn.leaves, List.append_nil]
    rw [find?_visited (P := fun _ => True) (List.append_nil _).symm hentries (fun _ _ => trivial) (by simp) k, if_pos trivial]
  · have hvisit : visitEntries f (pre ++ (k, v) :: post) = _ := visitEntries_of_throws hpre he
    rw [← hes] at hvisit
    have hrun : (visit f).run m = .error e (Exn.leaves ((visit f).run m)) := by
      simp only [visit, EStateM.run, hvisit, Exn.leaves]
    rw [hrun]
    rw [hes, List.map_append, List.map_cons, List.pairwise_append, List.pairwise_cons] at hsorted
    obtain ⟨-, ⟨hpost, -⟩, hlt⟩ := hsorted
    have hkey : m.find? k = some v := find?_eq_some.mpr (by rw [hes]; simp)
    have hbefore : ∀ e ∈ pre, e.1 < k := fun e he' => hlt _ (List.mem_map.mpr ⟨e, he', rfl⟩) _ List.mem_cons_self
    have hafter : ∀ e ∈ post, k < e.1 := fun e he' => hpost _ (List.mem_map.mpr ⟨e, he', rfl⟩)
    have hentries : (Exn.leaves ((visit f).run m)).entries = (pre ++ [(k, v)]).map (visited f) ++ post := by
      have hlast : visited f (k, v) = (k, v') := by rw [visited, he, Exn.leaves]
      simp [visit, EStateM.run, hvisit, Exn.leaves, hlast]
    refine ⟨_, .throws k v v' e hkey he (fun k' w hk' hw => ?_) fun k' => ?_⟩
    · rw [find?_eq_some, hes, List.mem_append, List.mem_cons] at hw
      rcases hw with hw | hw | hw
      · exact hpre _ hw
      · exact absurd (Prod.mk.inj hw).1 hk'.ne
      · exact absurd (hafter _ hw) hk'.asymm
    · refine find?_visited (P := (· ≤ k)) (by simp [hes]) hentries (fun e he' => ?_) (fun e he' => (hafter e he').not_ge) k'
      rcases List.mem_append.mp he' with he' | he'
      · exact (hbefore e he').le
      · rw [List.mem_singleton.mp he']

end OrdMap
