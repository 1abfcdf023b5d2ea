import Mathlib.Data.List.Nodup
import Blockmon.Flow

/-!
# Facts about the flow table

`Checks` is one iteration of the checks of a timer; `check_inv` is the rule for what every iteration keeps. The totals of a key,
the keys that are checked and the effect of the checks as a whole are proved from these.
-/

namespace Blockmon

namespace FlowTable

/-- The records are under their keys, and the keys to be checked are different keys with a record. -/
structure Keyed (t : FlowTable) : Prop where
  key : ∀ {k f}, t.entries k = some f → f.key = k
  nodup : t.keys.Nodup
  present : ∀ k ∈ t.keys, ∃ f, t.entries k = some f

/-- Every record will be checked. -/
def Covered (t : FlowTable) : Prop := ∀ k f, t.entries k = some f → k ∈ t.keys

/-- An empty table is covered. -/
theorem covered_empty : Covered FlowTable.empty := by
  intro k f hf
  cases hf

section

variable {now limit : ustime} {t t' : FlowTable}

section

variable {key k : FlowKey} {checked : ustime} {rest : List (FlowKey × ustime)} {f : Flow}

/-- The keys of the slots. -/
theorem keys_of_slots (h : t.slots = (key, checked) :: rest) : t.keys = key :: rest.map Prod.fst := by
  rw [keys, h, List.map_cons]

/-- An expired flow has no entry. -/
@[simp] theorem expire_entries_self : (t.expire key f rest).entries key = none := Function.update_self ..

/-- The other flows keep their entries. -/
theorem expire_entries_of_ne (h : k ≠ key) : (t.expire key f rest).entries k = t.entries k := Function.update_of_ne h ..

/-- A flow that is queued again is the last one. -/
@[simp] theorem keys_requeue : (t.requeue key now rest).keys = rest.map Prod.fst ++ [key] := List.map_append ..

end

/-- One iteration of the checks that goes on, and the last one. -/
inductive Checks (now limit : ustime) (t : FlowTable) : FlowTable → Prop where
  | expire {key : FlowKey} {checked : ustime} {rest : List (FlowKey × ustime)} {f : Flow}
      (hslots : t.slots = (key, checked) :: rest) (hentry : t.entries key = some f) (hlimit : f.etime < limit) :
      Checks now limit t (t.expire key f rest)
  | requeue {key : FlowKey} {checked : ustime} {rest : List (FlowKey × ustime)} {f : Flow}
      (hslots : t.slots = (key, checked) :: rest) (hentry : t.entries key = some f) (hlimit : ¬f.etime < limit) :
      Checks now limit t (t.requeue key now rest)

/-- What every iteration keeps is kept by the checks. -/
theorem check_inv {I : FlowTable → Prop} (hstep : ∀ t t', I t → Checks now limit t t' → I t') : ∀ {fuel : Nat} {t t' : FlowTable},
    I t → t.check now limit fuel = some t' → I t' := by
  intro fuel
  induction fuel with
  | zero =>
    intro t t' _ hc
    cases hc
  | succ fuel ih =>
    intro t t' h hc
    rw [check] at hc
    split at hc
    · cases hc
      exact h
    · rename_i key checked rest hslots
      split at hc
      · cases hc
      · rename_i f hentry
        split at hc
        · rename_i hlimit
          exact ih (hstep _ _ h (.expire hslots hentry hlimit)) hc
        · rename_i hlimit
          have h' := hstep _ _ h (.requeue hslots hentry hlimit)
          split at hc
          · cases hc
            exact h'
          · exact ih h' hc

/-- The check keeps the keys in order. -/
theorem Checks.keyed (h : Checks now limit t t') (hk : Keyed t) : Keyed t' := by
  cases h with
  | expire hslots hentry hlimit =>
    rename_i key checked rest f
    have hnodup := hk.nodup
    rw [keys_of_slots hslots, List.nodup_cons] at hnodup
    refine ⟨fun {k g} hg => ?_, hnodup.2, fun k hkeys => ?_⟩
    · by_cases hkk : k = key
      · rw [hkk, expire_entries_self] at hg
        cases hg
      · rw [expire_entries_of_ne hkk] at hg
        exact hk.key hg
    · have hkk : k ≠ key := fun e => hnodup.1 (e ▸ hkeys)
      obtain ⟨g, hg⟩ := hk.present k (by rw [keys_of_slots hslots]; exact List.mem_cons_of_mem _ hkeys)
      exact ⟨g, by rw [expire_entries_of_ne hkk, hg]⟩
  | requeue hslots hentry hlimit =>
    refine ⟨hk.key, ?_, fun k hkeys => hk.present k ?_⟩
    · have hnodup := hk.nodup
      rw [keys_of_slots hslots] at hnodup
      rw [keys_requeue]
      exact (List.perm_append_singleton _ _).symm.nodup hnodup
    · rw [keys_requeue, List.mem_append, List.mem_singleton] at hkeys
      rw [keys_of_slots hslots, List.mem_cons]
      exact hkeys.symm

/-! ## Totals -/

/-- A quantity of the records of one key, exported or in the table. -/
def total (v : Flow → Nat) (t : FlowTable) (k : FlowKey) : Nat :=
  ((t.exported.filter (·.key = k)).map v).sum + (t.entries k).elim 0 v

/-- The exported part of a total after one more record is exported. -/
theorem sum_exported_append (v : Flow → Nat) (l : List Flow) (f : Flow) (k : FlowKey) :
    (((l ++ [f]).filter (·.key = k)).map v).sum = ((l.filter (·.key = k)).map v).sum + if f.key = k then v f else 0 := by
  rw [List.filter_append, List.map_append, List.sum_append]
  by_cases h : f.key = k
  · simp [h]
  · simp [h]

/-- The checks move records and do not change them. -/
theorem Checks.total (h : Checks now limit t t') (hk : Keyed t) (v : Flow → Nat) (k : FlowKey) : total v t' k = total v t k := by
  cases h with
  | expire hslots hentry hlimit =>
    rename_i key checked rest f
    have hkey := hk.key hentry
    have hexported : (t.expire key f rest).exported = t.exported ++ [f] := rfl
    rw [FlowTable.total, FlowTable.total, hexported, sum_exported_append]
    by_cases hkk : k = key
    · subst hkk
      rw [expire_entries_self, hentry, if_pos hkey, Option.elim_none, Option.elim_some, Nat.add_zero]
    · have hne : ¬f.key = k := fun e => hkk (e.symm.trans hkey)
      rw [expire_entries_of_ne hkk, if_neg hne, Nat.add_zero]
  | requeue => rfl

/-- The check conserves what is counted of a flow. -/
theorem check_total {fuel : Nat} (hk : Keyed t) (h : t.check now limit fuel = some t') (v : Flow → Nat) (k : FlowKey) :
    FlowTable.total v t' k = FlowTable.total v t k := by
  have hinv : Keyed t' ∧ FlowTable.total v t' k = FlowTable.total v t k :=
    check_inv (I := fun u => Keyed u ∧ FlowTable.total v u k = FlowTable.total v t k)
      (fun u u' hu hc => ⟨hc.keyed hu.1, (hc.total hu.1 v k).trans hu.2⟩) ⟨hk, rfl⟩ h
  exact hinv.2

/-- A packet adds what it counts for to the total of its key. -/
theorem receive_total {capacity : Nat} {tooLong : Flow → Bool} {count : Flow → Flow} {p : Packet} (hk : Keyed t) (v : Flow → Nat)
    (x : Nat) (hexpand : ∀ f, v (f.expandInterval now) = v f) (hnew : v (count (Flow.new p.key)) = x)
    (hreset : ∀ f : Flow, v (count f.reset) = x)
    (hcount : ∀ f, t.entries p.key = some f → tooLong f = false → v (count f) = v f + x) (k : FlowKey) :
    total v (t.receive capacity tooLong count p now) k = total v t k + if p.key = k then x else 0 := by
  unfold receive
  cases hentry : t.entries p.key with
  | none =>
    simp only [total]
    by_cases hkk : k = p.key
    · subst hkk
      simp [hentry, hnew]
    · have hne : ¬p.key = k := fun e => hkk e.symm
      rw [Function.update_of_ne hkk, if_neg hne, Nat.add_zero]
  | some f =>
    have hkey := hk.key hentry
    dsimp only
    by_cases hlong : tooLong f = true
    · rw [if_pos hlong]
      simp only [total, sum_exported_append, Flow.expandInterval_key, hexpand, hkey]
      by_cases hkk : k = p.key
      · subst hkk
        simp [hentry, hreset]
      · have hne : ¬p.key = k := fun e => hkk e.symm
        rw [Function.update_of_ne hkk, if_neg hne, if_neg hne, Nat.add_zero, Nat.add_zero]
    · rw [if_neg hlong]
      simp only [total]
      by_cases hkk : k = p.key
      · subst hkk
        simp [hentry, hcount f hentry (by simpa using hlong), Nat.add_assoc]
      · have hne : ¬p.key = k := fun e => hkk e.symm
        rw [Function.update_of_ne hkk, if_neg hne, Nat.add_zero]

/-! ## The keys that are checked -/

/-- A record that no check will reach. -/
def Stuck (t : FlowTable) (k : FlowKey) : Prop := (∃ f, t.entries k = some f) ∧ k ∉ t.keys

/-- A table that does not cover its flows has one that is stuck. -/
theorem not_covered_iff : ¬Covered t ↔ ∃ k, Stuck t k := by
  constructor
  · intro h
    by_contra hno
    refine h fun k f hf => ?_
    by_contra hk
    exact hno ⟨k, ⟨f, hf⟩, hk⟩
  · rintro ⟨k, ⟨f, hf⟩, hk⟩ h
    exact hk (h k f hf)

/-- The check keeps every flow covered. -/
theorem Checks.covered (h : Checks now limit t t') (hc : Covered t) : Covered t' := by
  cases h with
  | expire hslots hentry hlimit =>
    rename_i key checked rest f
    intro k g hg
    by_cases hkk : k = key
    · rw [hkk, expire_entries_self] at hg
      cases hg
    · rw [expire_entries_of_ne hkk] at hg
      have hmem := hc k g hg
      rw [keys_of_slots hslots, List.mem_cons] at hmem
      exact hmem.resolve_left hkk
  | requeue hslots hentry hlimit =>
    intro k g hg
    have hmem := hc k g hg
    rw [keys_of_slots hslots, List.mem_cons] at hmem
    rw [keys_requeue, List.mem_append, List.mem_singleton]
    exact hmem.symm

/-- A flow that is stuck stays so. -/
theorem Checks.stuck {k : FlowKey} (h : Checks now limit t t') (hk : Stuck t k) : Stuck t' k := by
  obtain ⟨⟨g, hg⟩, hmem⟩ := hk
  cases h with
  | expire hslots hentry hlimit =>
    rw [keys_of_slots hslots, List.mem_cons, not_or] at hmem
    exact ⟨⟨g, by rw [expire_entries_of_ne hmem.1, hg]⟩, hmem.2⟩
  | requeue hslots hentry hlimit =>
    refine ⟨⟨g, hg⟩, ?_⟩
    rw [keys_of_slots hslots, List.mem_cons, not_or] at hmem
    rw [keys_requeue, List.mem_append, List.mem_singleton, not_or]
    exact hmem.symm

/-- The checks reach every record afterwards exactly when they did before. -/
theorem check_covered_iff {fuel : Nat} (h : t.check now limit fuel = some t') : Covered t' ↔ Covered t := by
  constructor
  · intro hc
    by_contra hno
    obtain ⟨k, hk⟩ := not_covered_iff.mp hno
    exact not_covered_iff.mpr ⟨k, check_inv (I := fun u => Stuck u k) (fun _ _ hu hs => hs.stuck hu) hk h⟩ hc
  · intro hc
    exact check_inv (I := Covered) (fun _ _ hu hs => hs.covered hu) hc h

section

variable {capacity : Nat} {tooLong : Flow → Bool} {count : Flow → Flow} {p : Packet}

/-- The records after a packet. -/
theorem receive_entries_of_ne {k : FlowKey} (h : k ≠ p.key) : (t.receive capacity tooLong count p now).entries k = t.entries k := by
  unfold receive
  split
  · exact Function.update_of_ne h ..
  · split
    · exact Function.update_of_ne h ..
    · exact Function.update_of_ne h ..

/-- A packet is counted in the record of its key. -/
theorem receive_entries_self (t : FlowTable) (capacity : Nat) (tooLong : Flow → Bool) (count : Flow → Flow) (p : Packet)
    (now : ustime) : ∃ f, (t.receive capacity tooLong count p now).entries p.key = some (count f) := by
  unfold receive
  split
  · exact ⟨_, Function.update_self ..⟩
  · split
    · exact ⟨_, Function.update_self ..⟩
    · exact ⟨_, Function.update_self ..⟩

/-- What is checked after a packet: a new key, if there is room for it. -/
theorem receive_slots : (t.receive capacity tooLong count p now).slots =
    if t.entries p.key = none ∧ t.slots.length < capacity then t.slots ++ [(p.key, now)] else t.slots := by
  unfold receive
  split
  · rename_i hnone
    simp only [hnone, true_and]
  · rename_i f hsome
    have hno : ¬(t.entries p.key = none ∧ t.slots.length < capacity) := by
      rw [hsome]
      exact fun h => by cases h.1
    rw [if_neg hno]
    split <;> rfl

/-- The keys after a packet. -/
theorem receive_keys : (t.receive capacity tooLong count p now).keys =
    if t.entries p.key = none ∧ t.slots.length < capacity then t.keys ++ [p.key] else t.keys := by
  rw [keys, receive_slots]
  split
  · exact List.map_append ..
  · rfl

/-- The checks reach every record after a packet exactly when they did before and a new key found room. -/
theorem receive_covered_iff (hk : Keyed t) : Covered (t.receive capacity tooLong count p now) ↔
    Covered t ∧ (t.entries p.key = none → t.slots.length < capacity) := by
  obtain ⟨new, hnew⟩ := receive_entries_self t capacity tooLong count p now
  constructor
  · intro h
    refine ⟨fun k f hf => ?_, fun hnone => ?_⟩
    · by_cases hkk : k = p.key
      · subst hkk
        have hmem := h _ _ hnew
        rwa [receive_keys, if_neg (fun hc => by rw [hf] at hc; cases hc.1)] at hmem
      · have hmem := h k f (by rw [receive_entries_of_ne hkk, hf])
        rw [receive_keys] at hmem
        split at hmem
        · exact (List.mem_append.mp hmem).resolve_right fun he => hkk (List.mem_singleton.mp he)
        · exact hmem
    · by_contra hfull
      have hmem := h _ _ hnew
      rw [receive_keys, if_neg (fun hc => hfull hc.2)] at hmem
      obtain ⟨f, hf⟩ := hk.present _ hmem
      rw [hnone] at hf
      cases hf
  · rintro ⟨h, hroom⟩ k f hf
    rw [receive_keys]
    by_cases hkk : k = p.key
    · subst hkk
      cases hentry : t.entries p.key with
      | none =>
        rw [if_pos ⟨rfl, hroom hentry⟩]
        exact List.mem_append_right _ (List.mem_singleton_self _)
      | some g =>
        rw [if_neg (fun hc => by cases hc.1)]
        exact h _ g hentry
    · rw [receive_entries_of_ne hkk] at hf
      split
      · exact List.mem_append_left _ (h k f hf)
      · exact h k f hf

end

end

end FlowTable

end Blockmon

/-!
## Expiry

The checks of a timer end as soon as the limit is before the time of the timer: every key is checked at most once and then one
more. `Expires` says that the checks exported and erased exactly the expired records; they do if the slots are `Tidy`, that is
sorted by the last check, with the records that arrived since the last timer not older than their slots.
-/

namespace Blockmon

namespace FlowTable

variable {now limit : ustime} {t t' : FlowTable}

/-- The record of a key has not expired. -/
def Live (limit : ustime) (t : FlowTable) (k : FlowKey) : Prop := ∃ f, t.entries k = some f ∧ ¬f.etime < limit

/-- Of the keys that are checked, exactly those with an expired record have it exported, once, and erased; the records of other
keys stay. -/
def Expires (limit : ustime) (t t' : FlowTable) : Prop :=
  ∃ out, t'.exported = t.exported ++ out ∧ ∀ k,
    (k ∈ t.keys → t'.entries k = (t.entries k).filter (¬·.etime < limit) ∧
      out.filter (·.key = k) = ((t.entries k).filter (·.etime < limit)).toList) ∧
    (k ∉ t.keys → t'.entries k = t.entries k ∧ out.filter (·.key = k) = [])

/-- Nothing has expired and nothing is done to the records. -/
theorem expires_of_live (hlive : ∀ k ∈ t.keys, Live limit t k) (hentries : t'.entries = t.entries)
    (hexported : t'.exported = t.exported) : Expires limit t t' := by
  refine ⟨[], by rw [hexported, List.append_nil], fun k => ⟨fun hk => ?_, fun _ => ⟨by rw [hentries], rfl⟩⟩⟩
  obtain ⟨f, hf, hlimit⟩ := hlive k hk
  rw [hentries, hf, Option.filter_some_pos (by simpa using hlimit), Option.filter_some_neg (by simpa using hlimit)]
  exact ⟨rfl, rfl⟩

/-- One iteration followed by the others. -/
theorem Checks.expires (h : Checks now limit t t') (hk : Keyed t) {t'' : FlowTable} (hrest : Expires limit t' t'') :
    Expires limit t t'' := by
  obtain ⟨out, hout, hkeys⟩ := hrest
  cases h with
  | expire hslots hentry hlimit =>
    rename_i key checked rest f
    have hnodup := hk.nodup
    rw [keys_of_slots hslots, List.nodup_cons] at hnodup
    refine ⟨f :: out, by rw [hout]; exact List.append_assoc .., fun k => ?_⟩
    by_cases hkk : k = key
    · -- the key is not checked again
      subst hkk
      refine ⟨fun _ => ?_, fun hno => absurd (by rw [keys_of_slots hslots]; exact List.mem_cons_self) hno⟩
      obtain ⟨hgone, hnone⟩ := (hkeys k).2 hnodup.1
      rw [hgone, expire_entries_self, hentry, Option.filter_some_neg (by simpa using hlimit),
        Option.filter_some_pos (by simpa using hlimit), List.filter_cons_of_pos (by simpa using hk.key hentry), hnone]
      exact ⟨rfl, rfl⟩
    · have hskip : (f :: out).filter (·.key = k) = out.filter (·.key = k) :=
        List.filter_cons_of_neg (by simpa using fun e => hkk (e.symm.trans (hk.key hentry)))
      have hmem : k ∈ t.keys ↔ k ∈ (t.expire key f rest).keys := by
        rw [keys_of_slots hslots, List.mem_cons, or_iff_right hkk]
        rfl
      have hentries : t.entries k = (t.expire key f rest).entries k := (expire_entries_of_ne hkk).symm
      rw [hmem, hskip, hentries]
      exact hkeys k
  | requeue hslots hentry hlimit =>
    rename_i key checked rest f
    have hmem : ∀ k, k ∈ t.keys ↔ k ∈ (t.requeue key now rest).keys := by
      intro k
      rw [keys_of_slots hslots, keys_requeue, List.mem_cons, List.mem_append, List.mem_singleton]
      exact or_comm
    refine ⟨out, hout, fun k => ?_⟩
    rw [hmem k]
    exact hkeys k

/-- The checks end when the limit is before the time of the timer, and they are exact when the keys checked before the limit come
first. The slots are `xs` followed by live ones that were checked after the limit, those checked again among them. -/
theorem check_ends (hlimit : limit < now) {xs : List (FlowKey × ustime)} : ∀ (zs : List (FlowKey × ustime)) {t : FlowTable}, Keyed t →
    t.slots = xs ++ zs → (∀ z ∈ zs, limit < z.2 ∧ Live limit t z.1) →
    ∃ fuel t', t.check now limit fuel = some t' ∧ ((∀ x ∈ xs, ¬x.2 > limit) → Expires limit t t') := by
  induction xs with
  | nil =>
    intro zs t hk hslots hzs
    rw [List.nil_append] at hslots
    have hlive : ∀ k ∈ t.keys, Live limit t k := by
      intro k hmem
      obtain ⟨z, hz, rfl⟩ := List.mem_map.mp hmem
      exact (hzs z (hslots ▸ hz)).2
    cases zs with
    | nil => exact ⟨1, t, by rw [check, hslots], fun _ => expires_of_live hlive rfl rfl⟩
    | cons z zs =>
      obtain ⟨key, checked⟩ := z
      obtain ⟨hz, f, hf, hf'⟩ := hzs _ List.mem_cons_self
      refine ⟨1, t.requeue key now zs, ?_, fun _ => expires_of_live hlive rfl rfl⟩
      rw [check, hslots]
      simp only [hf]
      rw [if_neg hf', if_pos hz]
  | cons x xs ih =>
    intro zs t hk hslots hzs
    obtain ⟨key, checked⟩ := x
    rw [List.cons_append] at hslots
    obtain ⟨f, hf⟩ := hk.present key (by rw [keys_of_slots hslots]; exact List.mem_cons_self)
    have hnodup := hk.nodup
    rw [keys_of_slots hslots, List.nodup_cons] at hnodup
    by_cases hexp : f.etime < limit
    · have hcheck : Checks now limit t (t.expire key f (xs ++ zs)) := .expire hslots hf hexp
      obtain ⟨fuel, t', hrun, hexact⟩ := ih zs (hcheck.keyed hk) rfl fun z hz => by
        obtain ⟨hz', g, hg, hg'⟩ := hzs z hz
        have hne : z.1 ≠ key := fun e => hnodup.1 (e ▸ List.mem_map.mpr ⟨z, List.mem_append_right _ hz, rfl⟩)
        exact ⟨hz', g, by rw [expire_entries_of_ne hne, hg], hg'⟩
      refine ⟨fuel + 1, t', ?_, fun hxs => hcheck.expires hk (hexact fun x hx => hxs x (List.mem_cons_of_mem _ hx))⟩
      rw [check, hslots]
      simp only [hf]
      rw [if_pos hexp]
      exact hrun
    · by_cases hlast : checked > limit
      · refine ⟨1, t.requeue key now (xs ++ zs), ?_, fun hxs => absurd hlast (hxs _ List.mem_cons_self)⟩
        rw [check, hslots]
        simp only [hf]
        rw [if_neg hexp, if_pos hlast]
      · have hcheck : Checks now limit t (t.requeue key now (xs ++ zs)) := .requeue hslots hf hexp
        obtain ⟨fuel, t', hrun, hexact⟩ := ih (zs ++ [(key, now)]) (hcheck.keyed hk) (List.append_assoc ..) fun z hz => by
          rcases List.mem_append.mp hz with hz | hz
          · exact hzs z hz
          · rw [List.mem_singleton.mp hz]
            exact ⟨hlimit, f, hf, hexp⟩
        refine ⟨fuel + 1, t', ?_, fun hxs => hcheck.expires hk (hexact fun x hx => hxs x (List.mem_cons_of_mem _ hx))⟩
        rw [check, hslots]
        simp only [hf]
        rw [if_neg hexp, if_neg hlast]
        exact hrun

/-- The checks export and erase expired records only. -/
theorem check_only {fuel : Nat} (h : t.check now limit fuel = some t') : ∃ out, t'.exported = t.exported ++ out ∧
    (∀ f ∈ out, f.etime < limit) ∧ ∀ k f, t.entries k = some f → t'.entries k = some f ∨ t'.entries k = none ∧ f.etime < limit := by
  refine check_inv (I := fun u => ∃ out, u.exported = t.exported ++ out ∧ (∀ f ∈ out, f.etime < limit) ∧
    ∀ k f, t.entries k = some f → u.entries k = some f ∨ u.entries k = none ∧ f.etime < limit) ?_
    ⟨[], (List.append_nil _).symm, (fun f hf => by cases hf), fun k f hf => Or.inl hf⟩ h
  rintro u u' ⟨out, hout, hexp, hkeep⟩ hc
  cases hc with
  | expire hslots hentry hlimit =>
    rename_i key checked rest g
    refine ⟨out ++ [g], ?_, fun f hf => ?_, fun k f hf => ?_⟩
    · have hexported : (u.expire key g rest).exported = u.exported ++ [g] := rfl
      rw [hexported, hout, List.append_assoc]
    · rcases List.mem_append.mp hf with hf | hf
      · exact hexp f hf
      · rw [List.mem_singleton.mp hf]
        exact hlimit
    · by_cases hkk : k = key
      · subst hkk
        rcases hkeep k f hf with hsome | ⟨-, hlt⟩
        · rw [hentry, Option.some.injEq] at hsome
          exact Or.inr ⟨expire_entries_self, hsome ▸ hlimit⟩
        · exact Or.inr ⟨expire_entries_self, hlt⟩
      · rw [expire_entries_of_ne hkk]
        exact hkeep k f hf
  | requeue hslots hentry hlimit => exact ⟨out, hout, hexp, hkeep⟩

/-! ## A single record -/

section

variable {key : FlowKey} {f : Flow}

/-- The only record has expired. -/
theorem check_single {checked : ustime} (hslots : t.slots = [(key, checked)]) (hf : t.entries key = some f) (hexp : f.etime < limit) :
    t.check now limit 2 = some (t.expire key f []) := by
  rw [check, hslots]
  simp only [hf]
  rw [if_pos hexp]
  rfl

/-- When the limit is not before the time of the timer, a record that has not expired is checked again and again. -/
theorem check_single_loops (key : FlowKey) (f : Flow) (hlive : ¬f.etime < limit) (hlimit : ¬now > limit) :
    ∀ (fuel : Nat) {checked : ustime} {t : FlowTable},
    t.slots = [(key, checked)] → t.entries key = some f → ¬checked > limit → t.check now limit fuel = none := by
  intro fuel
  induction fuel with
  | zero =>
    intro checked t _ _ _
    rfl
  | succ fuel ih =>
    intro checked t hslots hf hchecked
    rw [check, hslots]
    simp only [hf]
    rw [if_neg hlive, if_neg hchecked]
    exact ih rfl hf hlimit

end

/-! ## Exactness -/

/-- The slots are sorted by their last check, none of them later than `last`; a slot that was checked after `lastTimer` has a
record that did not end before. -/
structure Tidy (last lastTimer : ustime) (t : FlowTable) : Prop where
  sorted : t.slots.Pairwise fun a b => a.2 ≤ b.2
  le_last : ∀ s ∈ t.slots, s.2 ≤ last
  checked : ∀ s ∈ t.slots, s.2 ≤ lastTimer ∨ ∀ f, t.entries s.1 = some f → s.2 ≤ f.etime

section

variable {last lastTimer : ustime}

/-- An empty table is tidy. -/
theorem tidy_empty : Tidy last lastTimer FlowTable.empty :=
  ⟨List.Pairwise.nil, (fun s hs => by cases hs), fun s hs => by cases hs⟩

/-- Later times keep a table tidy. -/
theorem Tidy.mono (h : Tidy last lastTimer t) {last' lastTimer' : ustime} (hl : last ≤ last') (ht : lastTimer ≤ lastTimer') :
    Tidy last' lastTimer' t :=
  ⟨h.sorted, fun s hs => UInt64.le_trans (h.le_last s hs) hl, fun s hs => (h.checked s hs).imp_left fun hle => UInt64.le_trans hle ht⟩

/-- A time that is not before the others may stand behind them. -/
theorem sorted_append_last {l : List (FlowKey × ustime)} {k : FlowKey} (h : l.Pairwise fun a b => a.2 ≤ b.2)
    (hle : ∀ s ∈ l, s.2 ≤ now) : (l ++ [(k, now)]).Pairwise fun a b => a.2 ≤ b.2 := by
  refine List.pairwise_append.mpr ⟨h, List.pairwise_singleton _ _, fun a ha b hb => ?_⟩
  rw [List.mem_singleton.mp hb]
  exact hle a ha

/-- A packet that is not earlier than the last event keeps the slots tidy: its record ends with it. -/
theorem receive_tidy {capacity : Nat} {tooLong : Flow → Bool} {count : Flow → Flow} {p : Packet} (h : Tidy last lastTimer t)
    (hnow : last ≤ now) (hcount : ∀ f, now ≤ (count f).etime) :
    Tidy now lastTimer (t.receive capacity tooLong count p now) := by
  have hle : ∀ s ∈ t.slots, s.2 ≤ now := fun s hs => UInt64.le_trans (h.le_last s hs) hnow
  obtain ⟨new, hnew⟩ := receive_entries_self t capacity tooLong count p now
  have hmem : ∀ s ∈ (t.receive capacity tooLong count p now).slots, s ∈ t.slots ∨ s = (p.key, now) := by
    intro s hs
    rw [receive_slots] at hs
    split at hs
    · exact (List.mem_append.mp hs).imp_right List.mem_singleton.mp
    · exact Or.inl hs
  refine ⟨?_, fun s hs => ?_, fun s hs => ?_⟩
  · rw [receive_slots]
    split
    · exact sorted_append_last h.sorted hle
    · exact h.sorted
  · rcases hmem s hs with hold | rfl
    · exact hle s hold
    · exact UInt64.le_refl now
  · by_cases hkk : s.1 = p.key
    · refine Or.inr fun f hf => ?_
      rw [hkk, hnew, Option.some.injEq] at hf
      have hs' : s.2 ≤ now := by
        rcases hmem s hs with hold | rfl
        · exact hle s hold
        · exact UInt64.le_refl now
      exact UInt64.le_trans hs' (hf ▸ hcount new)
    · rw [receive_entries_of_ne hkk]
      rcases hmem s hs with hold | rfl
      · exact h.checked s hold
      · exact absurd rfl hkk

/-- The check leaves a tidy table. -/
theorem Checks.tidy (hc : Checks now limit t t') (h : Tidy now now t) : Tidy now now t' := by
  cases hc with
  | expire hslots hentry hlimit =>
    rename_i key checked rest f
    have hsub : ∀ s ∈ rest, s ∈ t.slots := fun s hs => by rw [hslots]; exact List.mem_cons_of_mem _ hs
    have hsorted := h.sorted
    rw [hslots] at hsorted
    exact ⟨hsorted.of_cons, fun s hs => h.le_last s (hsub s hs), fun s hs => Or.inl (h.le_last s (hsub s hs))⟩
  | requeue hslots hentry hlimit =>
    rename_i key checked rest f
    have hsub : ∀ s ∈ rest, s ∈ t.slots := fun s hs => by rw [hslots]; exact List.mem_cons_of_mem _ hs
    have hsorted := h.sorted
    rw [hslots] at hsorted
    have hle : ∀ s ∈ rest ++ [(key, now)], s.2 ≤ now := by
      intro s hs
      rcases List.mem_append.mp hs with hs | hs
      · exact h.le_last s (hsub s hs)
      · rw [List.mem_singleton.mp hs]
        exact UInt64.le_refl now
    exact ⟨sorted_append_last hsorted.of_cons fun s hs => h.le_last s (hsub s hs), hle, fun s hs => Or.inl (hle s hs)⟩

/-- A timer that is not earlier than the last event keeps the slots tidy. -/
theorem check_tidy {fuel : Nat} (h : Tidy last lastTimer t) (hl : last ≤ now) (ht : lastTimer ≤ now)
    (hc : t.check now limit fuel = some t') : Tidy now now t' :=
  check_inv (I := Tidy now now) (fun _ _ hu hs => hs.tidy hu) (h.mono hl ht) hc

/-- A sorted list is split at a limit. -/
theorem split_sorted (limit : ustime) {l : List (FlowKey × ustime)} (h : l.Pairwise fun a b => a.2 ≤ b.2) :
    ∃ xs zs, l = xs ++ zs ∧ (∀ x ∈ xs, ¬x.2 > limit) ∧ ∀ z ∈ zs, limit < z.2 := by
  induction l with
  | nil => exact ⟨[], [], rfl, (fun x hx => by cases hx), fun z hz => by cases hz⟩
  | cons a l ih =>
    obtain ⟨hhead, htail⟩ := List.pairwise_cons.mp h
    by_cases ha : a.2 > limit
    · refine ⟨[], a :: l, rfl, (fun x hx => by cases hx), fun z hz => ?_⟩
      rcases List.mem_cons.mp hz with rfl | hz
      · exact ha
      · exact UInt64.lt_of_lt_of_le ha (hhead z hz)
    · obtain ⟨xs, zs, rfl, hxs, hzs⟩ := ih htail
      refine ⟨a :: xs, zs, rfl, fun x hx => ?_, hzs⟩
      rcases List.mem_cons.mp hx with rfl | hx
      · exact ha
      · exact hxs x hx

/-- When the last timer was not after the limit, the checks of tidy slots end and are exact. -/
theorem check_exact (now limit : ustime) (hk : Keyed t) (h : Tidy last lastTimer t) (hlimit : limit < now) (ht : lastTimer ≤ limit) :
    ∃ fuel t', t.check now limit fuel = some t' ∧ Expires limit t t' := by
  obtain ⟨xs, zs, hslots, hxs, hzs⟩ := split_sorted limit h.sorted
  obtain ⟨fuel, t', hrun, hexact⟩ := check_ends hlimit zs hk hslots fun z hz => by
    have hmem : z ∈ t.slots := by rw [hslots]; exact List.mem_append_right _ hz
    obtain ⟨f, hf⟩ := hk.present z.1 (List.mem_map.mpr ⟨z, hmem, rfl⟩)
    refine ⟨hzs z hz, f, hf, fun hexp => ?_⟩
    -- a slot checked after the limit arrived after the last timer, and its record ended later
    have hz := hzs z hz
    rw [UInt64.lt_iff_toNat_lt] at hz hexp
    rw [UInt64.le_iff_toNat_le] at ht
    rcases h.checked z hmem with hle | hle
    · rw [UInt64.le_iff_toNat_le] at hle
      omega
    · have := UInt64.le_iff_toNat_le.mp (hle f hf)
      omega
  exact ⟨fuel, t', hrun, hexact hxs⟩

end

end FlowTable

end Blockmon
