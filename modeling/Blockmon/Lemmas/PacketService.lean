import Mathlib.Data.List.Chain
import Blockmon.Lemmas.PacketTime

/-!
# The deliveries of a call of `time_past`

The deliveries of one timer are read off the history of the call: `readings` are the values the clock had at them. The invariant
`Served` says how the readings of a timer follow its time points, and `Fresh` that a timer in the heap became due in the present
round: its time point is after the previous value of the clock, unless it was renewed in this round or was overdue from the start.
-/

namespace Blockmon

variable {β : Type}

/-- The values of the clock at the deliveries of the timer `x`, in order. -/
def readings (ds : List (TimerId × ustime)) (x : TimerId) : List ustime := (ds.filter fun d => d.1 = x).map Prod.snd

@[simp] theorem readings_nil (x : TimerId) : readings [] x = [] := rfl

/-- The readings with one more delivery. -/
theorem readings_snoc (ds : List (TimerId × ustime)) (x y : TimerId) (r : ustime) :
    readings (ds ++ [(y, r)]) x = if y = x then readings ds x ++ [r] else readings ds x := by
  by_cases h : y = x <;> simp [readings, h]

/-- A delivery at `r` and the next one at `r'` of a timer with period `p`, if the new time point is not past the end of the
clock. -/
def Spaced (p r r' : ustime) : Prop :=
  r.toNat + p.toNat < 2 ^ 64 → r.toNat + p.toNat ≤ r'.toNat ∧ r'.toNat < r.toNat + p.toNat + 1000

/-- A periodic timer is renewed by its period. -/
theorem Timer.renew_periodic {t : Timer β} {p : ustime} (h : t.id.kind = .periodic p) (r : ustime) : (t.renew r).time = r + p := by
  simp [renew, h]

namespace PacketClock

variable {P : TimerHeap β}

/-- What holds of the deliveries `ds` made since the clock was at `t₀` and the heap held the timers `H`. -/
structure Served (H : Multiset (Timer β)) (t₀ : ustime) (ds : List (TimerId × ustime)) (s : PacketClock P) : Prop where
  nodup : ((P.elems s.heap).map Timer.id).Nodup
  waiting : ∀ u ∈ H, readings ds u.id = [] → u ∈ P.elems s.heap
  origin : ∀ t ∈ P.elems s.heap, readings ds t.id = [] → t ∈ H
  renewed : ∀ t ∈ P.elems s.heap, ∀ p r, t.id.kind = .periodic p → (readings ds t.id).getLast? = some r → t.time = r + p
  alive : ∀ u ∈ H, ∀ p r, u.id.kind = .periodic p → (readings ds u.id).getLast? = some r → r.toNat + p.toNat < 2 ^ 64 →
    ∃ t ∈ P.elems s.heap, t.id = u.id
  bounded : ∀ x, ∀ r ∈ readings ds x, r ≤ s.packetTime
  first : ∀ u ∈ H, ∀ r, (readings ds u.id).head? = some r →
    u.time ≤ r ∧ (t₀ < u.time → r.toNat < u.time.toNat + 1000)
  spaced : ∀ u ∈ H, ∀ p, u.id.kind = .periodic p → (readings ds u.id).IsChain (Spaced p)

/-- A timer in the heap is due after `prev`, or it was renewed at the present reading, or it was overdue from the start. -/
def Fresh (t₀ prev : ustime) (ds : List (TimerId × ustime)) (s : PacketClock P) : Prop :=
  ∀ t ∈ P.elems s.heap,
    prev < t.time ∨ (readings ds t.id).getLast? = some s.packetTime ∨ (readings ds t.id = [] ∧ t.time ≤ t₀)

variable {H : Multiset (Timer β)} {t₀ prev : ustime} {ds : List (TimerId × ustime)} {s : PacketClock P} {t : Timer β}
  {heap : P.Q}

/-- The other timers of the heap are other objects. -/
theorem Served.ne_of_mem (h : Served H t₀ ds s) (hpop : P.pop s.heap = some (t, heap)) {u : Timer β} (hu : u ∈ P.elems heap) :
    t.id ≠ u.id := by
  have hnodup := h.nodup
  rw [(P.pop_some _ _ _ hpop).1, Multiset.map_cons, Multiset.nodup_cons] at hnodup
  exact fun he => hnodup.1 (Multiset.mem_map.mpr ⟨u, hu, he.symm⟩)

/-- A timer that is due is not far overdue: its delivery comes within 1 ms of its time point. -/
theorem Fresh.on_time (hfresh : Fresh t₀ prev ds s) (hgap : s.packetTime.toNat ≤ prev.toNat + 1000)
    (ht : t ∈ P.elems s.heap) (hlast : (readings ds t.id).getLast? ≠ some s.packetTime)
    (hdue : readings ds t.id = [] → t₀ < t.time) : s.packetTime.toNat < t.time.toNat + 1000 := by
  rcases hfresh t ht with hlt | heq | ⟨hnil, hle⟩
  · rw [UInt64.lt_iff_toNat_lt] at hlt
    omega
  · exact absurd heq hlast
  · exact absurd (hdue hnil) (UInt64.not_lt.mpr hle)

/-- The readings of a timer with the new delivery. -/
theorem Served.first_snoc (h : Served H t₀ ds s) (hfresh : Fresh t₀ prev ds s)
    (hgap : s.packetTime.toNat ≤ prev.toNat + 1000) (ht : t ∈ P.elems s.heap) (hdue : t.time ≤ s.packetTime) {u : Timer β}
    (hu : u ∈ H) (hid : u.id = t.id) {r : ustime} (hr : (readings ds u.id ++ [s.packetTime]).head? = some r) :
    u.time ≤ r ∧ (t₀ < u.time → r.toNat < u.time.toNat + 1000) := by
  cases hlist : readings ds u.id with
  | nil =>
    -- the first delivery: the timer in the heap is the one that was there at the start
    have hmem := h.waiting u hu hlist
    obtain rfl : u = t := Multiset.inj_on_of_nodup_map h.nodup u hmem t ht hid
    rw [hlist] at hr
    cases hr
    exact ⟨hdue, fun hlt => hfresh.on_time hgap ht (by rw [hlist]; exact nofun) fun _ => hlt⟩
  | cons a l =>
    rw [hlist] at hr
    exact h.first u hu r (by rw [hlist]; exact hr)

/-- One more delivery, a period after the last. -/
theorem Served.spaced_snoc (h : Served H t₀ ds s) (hfresh : Fresh t₀ prev ds s)
    (hgap : s.packetTime.toNat ≤ prev.toNat + 1000) (ht : t ∈ P.elems s.heap) (hdue : t.time ≤ s.packetTime) {u : Timer β}
    (hu : u ∈ H) (hid : u.id = t.id) {p : ustime} (hkind : u.id.kind = .periodic p) (hpos : 0 < p.toNat) :
    (readings ds u.id ++ [s.packetTime]).IsChain (Spaced p) := by
  rw [List.isChain_append]
  refine ⟨h.spaced u hu p hkind, List.isChain_singleton _, fun r hr r' hr' => ?_⟩
  rw [hid] at hr
  have hr : (readings ds t.id).getLast? = some r := hr
  cases hr'
  intro hfit
  have htime : t.time.toNat = r.toNat + p.toNat := by
    rw [h.renewed t ht p r (hid ▸ hkind) hr, UInt64.toNat_add, Nat.mod_eq_of_lt hfit]
  rw [UInt64.le_iff_toNat_le] at hdue
  -- it was not delivered at this reading before: its time point would still be to come
  have hother : (readings ds t.id).getLast? ≠ some s.packetTime := by
    rw [hr]
    intro he
    rw [← Option.some.inj he] at hdue
    omega
  have hnil : readings ds t.id ≠ [] := by
    intro hnil
    rw [hnil] at hr
    cases hr
  have := hfresh.on_time hgap ht hother fun he => absurd he hnil
  omega

/-- The timers in the heap after one was handled. -/
theorem mem_handleTop {u : Timer β} : u ∈ P.elems (s.handleTop t heap).heap ↔
    u ∈ P.elems heap ∨ (t.renew s.packetTime).time ≠ t.time ∧ u = t.renew s.packetTime := by
  rw [elems_handleTop]
  by_cases hne : (t.renew s.packetTime).time ≠ t.time
  · rw [if_pos hne, Multiset.mem_cons]
    tauto
  · rw [if_neg hne]
    tauto

/-- Handling a timer that is due keeps the invariant. -/
theorem Served.handleTop (h : Served H t₀ ds s) (hfresh : Fresh t₀ prev ds s) (hgap : s.packetTime.toNat ≤ prev.toNat + 1000)
    (hperiods : ∀ u ∈ H, ∀ p, u.id.kind = .periodic p → 0 < p.toNat) (hpop : P.pop s.heap = some (t, heap))
    (hdue : t.time ≤ s.packetTime) : Served H t₀ (ds ++ [(t.id, s.packetTime)]) (s.handleTop t heap) := by
  have helems := (P.pop_some _ _ _ hpop).1
  have ht : t ∈ P.elems s.heap := by rw [helems]; exact Multiset.mem_cons_self t _
  have hold : ∀ {u}, u ∈ P.elems heap → u ∈ P.elems s.heap := fun hu => by rw [helems]; exact Multiset.mem_cons_of_mem hu
  have hself : readings (ds ++ [(t.id, s.packetTime)]) t.id = readings ds t.id ++ [s.packetTime] := by
    rw [readings_snoc, if_pos rfl]
  have hother : ∀ {x}, t.id ≠ x → readings (ds ++ [(t.id, s.packetTime)]) x = readings ds x := fun hx => by
    rw [readings_snoc, if_neg hx]
  have hsame := handleTop_sameClock s t heap
  refine ⟨?_, fun u hu hnil => ?_, fun u hu hnil => ?_, fun u hu p r hkind hlast => ?_, fun u hu p r hkind hlast hfit => ?_,
    fun x r hr => ?_, fun u hu r hr => ?_, fun u hu p hkind => ?_⟩
  · -- nodup: the timer comes back under its own name, or not at all
    have hnodup := h.nodup
    rw [helems, Multiset.map_cons] at hnodup
    rw [elems_handleTop]
    split
    · rw [Multiset.map_cons, Timer.renew_id]
      exact hnodup
    · exact (Multiset.nodup_cons.mp hnodup).2
  · by_cases hid : t.id = u.id
    · rw [← hid, hself] at hnil
      simp at hnil
    · rw [hother hid] at hnil
      have hmem := h.waiting u hu hnil
      rw [helems] at hmem
      rcases Multiset.mem_cons.mp hmem with rfl | hmem
      · exact absurd rfl hid
      · exact mem_handleTop.mpr (Or.inl hmem)
  · rcases mem_handleTop.mp hu with hu | ⟨-, rfl⟩
    · rw [hother (h.ne_of_mem hpop hu)] at hnil
      exact h.origin u (hold hu) hnil
    · rw [Timer.renew_id, hself] at hnil
      simp at hnil
  · rcases mem_handleTop.mp hu with hu | ⟨-, rfl⟩
    · rw [hother (h.ne_of_mem hpop hu)] at hlast
      exact h.renewed u (hold hu) p r hkind hlast
    · rw [Timer.renew_id] at hkind hlast
      rw [hself, List.getLast?_concat] at hlast
      rw [← Option.some.inj hlast, Timer.renew_periodic hkind]
  · by_cases hid : t.id = u.id
    · rw [← hid, hself, List.getLast?_concat] at hlast
      cases hlast
      have hpos := hperiods u hu p hkind
      refine ⟨t.renew s.packetTime, mem_handleTop.mpr (Or.inr ⟨fun he => ?_, rfl⟩), by rw [Timer.renew_id, hid]⟩
      rw [Timer.renew_periodic (hid ▸ hkind)] at he
      rw [← he, UInt64.le_iff_toNat_le, UInt64.toNat_add, Nat.mod_eq_of_lt hfit] at hdue
      omega
    · rw [hother hid] at hlast
      obtain ⟨v, hv, hvid⟩ := h.alive u hu p r hkind hlast hfit
      rw [helems] at hv
      rcases Multiset.mem_cons.mp hv with rfl | hv
      · exact absurd hvid hid
      · exact ⟨v, mem_handleTop.mpr (Or.inl hv), hvid⟩
  · rw [hsame.packetTime]
    by_cases hid : t.id = x
    · subst hid
      rw [hself] at hr
      rcases List.mem_append.mp hr with hr | hr
      · exact h.bounded _ r hr
      · rw [List.mem_singleton.mp hr]
        exact UInt64.le_refl _
    · rw [hother hid] at hr
      exact h.bounded x r hr
  · by_cases hid : t.id = u.id
    · rw [← hid, hself, hid] at hr
      exact h.first_snoc hfresh hgap ht hdue hu hid.symm hr
    · rw [hother hid] at hr
      exact h.first u hu r hr
  · by_cases hid : t.id = u.id
    · rw [← hid, hself, hid]
      exact h.spaced_snoc hfresh hgap ht hdue hu hid.symm hkind (hperiods u hu p hkind)
    · rw [hother hid]
      exact h.spaced u hu p hkind

/-- A delivery leaves the others fresh. -/
theorem Fresh.handleTop (hfresh : Fresh t₀ prev ds s) (h : Served H t₀ ds s) (hpop : P.pop s.heap = some (t, heap)) :
    Fresh t₀ prev (ds ++ [(t.id, s.packetTime)]) (s.handleTop t heap) := by
  intro u hu
  rw [(handleTop_sameClock s t heap).packetTime]
  rcases mem_handleTop.mp hu with hu | ⟨-, rfl⟩
  · rw [readings_snoc, if_neg (h.ne_of_mem hpop hu)]
    exact hfresh u (by rw [(P.pop_some _ _ _ hpop).1]; exact Multiset.mem_cons_of_mem hu)
  · rw [Timer.renew_id, readings_snoc, if_pos rfl, List.getLast?_concat]
    exact Or.inr (Or.inl rfl)

/-- Between two rounds: no timer is due, but those that were overdue from the start and wait for the first round. -/
def Between (H : Multiset (Timer β)) (t₀ : ustime) (D : List (TimerId × ustime)) (s : PacketClock P) : Prop :=
  ∃ ds, s.deliveries = D ++ ds ∧ Served H t₀ ds s ∧
    ∀ t ∈ P.elems s.heap, s.packetTime < t.time ∨ (readings ds t.id = [] ∧ t.time ≤ t₀)

/-- A later time keeps the service. -/
theorem Served.store (h : Served H t₀ ds s) {next : ustime} (hle : s.packetTime ≤ next) : Served H t₀ ds (s.store next) :=
  ⟨h.nodup, h.waiting, h.origin, h.renewed, h.alive, fun x r hr => UInt64.le_trans (h.bounded x r hr) hle, h.first, h.spaced⟩

/-- A round of `time_past`. -/
theorem round_between (hperiods : ∀ u ∈ H, ∀ p, u.id.kind = .periodic p → 0 < p.toNat) (D : List (TimerId × ustime))
    (target : ustime) : Round (Between (P := P) H t₀ D) target := by
  rintro s next ⟨ds, hds, hserved, hready⟩ hle hgap -
  obtain ⟨s', hends, hsame, hdrained, htime, ds', hds', hserved', -⟩ := processLoop_ends
    (I := fun s' : PacketClock P => s'.packetTime = next ∧ ∃ ds, s'.deliveries = D ++ ds ∧ Served H t₀ ds s' ∧
      Fresh t₀ s.packetTime ds s')
    (by
      rintro s₁ t heap ⟨htime, ds, hds, hserved, hfresh⟩ hpop hdue
      have hgap₁ : s₁.packetTime.toNat ≤ s.packetTime.toNat + 1000 := by rw [htime]; exact hgap
      refine ⟨(handleTop_sameClock s₁ t heap).packetTime.trans htime, ds ++ [(t.id, s₁.packetTime)], ?_,
        hserved.handleTop hfresh hgap₁ hperiods hpop hdue, hfresh.handleTop hserved hpop⟩
      rw [handleTop_deliveries, hds, List.append_assoc])
    (s := s.store next)
    ⟨rfl, ds, hds, hserved.store hle, fun t ht => (hready t ht).imp id Or.inr⟩
  exact ⟨s', hends, hsame, hdrained, ds', hds', hserved', fun t ht => Or.inl (hdrained t ht)⟩

/-- Before the first round. -/
theorem between_start (s : PacketClock P) (hnodup : ((P.elems s.heap).map Timer.id).Nodup) :
    Between (P.elems s.heap) s.packetTime s.deliveries s := by
  refine ⟨[], (List.append_nil _).symm, ⟨hnodup, fun u hu _ => hu, fun t ht _ => ht, ?_, ?_, ?_, ?_, ?_⟩, fun t _ => ?_⟩
  · simp
  · simp
  · simp
  · simp
  · simp
  · rcases UInt64.le_total t.time s.packetTime with hle | hle
    · exact Or.inr ⟨rfl, hle⟩
    · by_cases heq : t.time = s.packetTime
      · exact Or.inr ⟨rfl, by rw [heq]; exact UInt64.le_refl _⟩
      · exact Or.inl (UInt64.lt_of_le_of_ne hle (Ne.symm heq))

end PacketClock

end Blockmon
