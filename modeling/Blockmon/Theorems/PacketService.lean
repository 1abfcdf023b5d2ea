import Blockmon.Lemmas.PacketService
import Blockmon.Theorems.PacketTime

/-!
# The timers of the packet clock are served on time

A call of `time_past` by the only writer, with no other thread at work, delivers every timer that comes due on the way within 1 ms of
its time point, and renews the periodic ones from the reading at their delivery.
-/

namespace Blockmon

namespace PacketClock

section

variable {β : Type} {P : TimerHeap β}

/-- For every heap of timers with positive periods, from the packet time `t₀ > 0` to a target `T ≥ t₀` below the last 1000 values of
the clock: `time_past` returns with the packet time `T`; a timer with `t₀ < time_point ≤ T` is first delivered at a reading less
than 1 ms after its time point; a timer with `time_point > T` is not delivered; successive deliveries of a periodic timer are one
period and less than 1 ms apart, as long as the new time point fits into the clock, and they go on until the next one is past
`T`. -/
theorem time_past_serves (s : PacketClock P) (target : ustime) (hnodup : ((P.elems s.heap).map Timer.id).Nodup)
    (hperiods : ∀ t ∈ P.elems s.heap, ∀ p, t.id.kind = .periodic p → 0 < p.toNat) (hw : s.writers = 1)
    (hpos : s.packetTime ≠ 0) (hle : s.packetTime ≤ target) (hfit : target.toNat < 2 ^ 64 - 1000) :
    ∃ s' ds, Fuel.Ends (fun n => timePast n target s) (.ok () s') ∧ s'.packetTime = target ∧
      s'.deliveries = s.deliveries ++ ds ∧ ∀ t ∈ P.elems s.heap,
        (s.packetTime < t.time → t.time ≤ target →
          ∃ r, (readings ds t.id).head? = some r ∧ t.time ≤ r ∧ r.toNat < t.time.toNat + 1000) ∧
        (target < t.time → readings ds t.id = []) ∧
        ∀ p, t.id.kind = .periodic p → (readings ds t.id).IsChain (Spaced p) ∧
          ∀ r, (readings ds t.id).getLast? = some r → r.toNat + p.toNat < 2 ^ 64 → target.toNat < r.toNat + p.toNat := by
  have hle' := UInt64.le_iff_toNat_le.mp hle
  obtain ⟨s', hends, htime, hdrained, ds, hds, h, -⟩ := climb (round_between hperiods s.deliveries target)
    (between_start s hnodup) (by omega) hle (by omega) (by unfold lastStep; omega)
  refine ⟨s', ds, ?_, htime, hds, fun t ht => ⟨fun hlt hle => ?_, fun hlt => ?_, fun p hkind => ⟨h.spaced t ht p hkind, ?_⟩⟩⟩
  · simp only [timePast_of_ne_zero hpos]
    exact hends
  · cases hr : readings ds t.id with
    | nil =>
      -- a timer that was not delivered is still in the heap, and nothing in the heap is due
      have hlate := hdrained t (h.waiting t ht hr)
      rw [htime] at hlate
      exact absurd hle (UInt64.not_le.mpr hlate)
    | cons r rs =>
      obtain ⟨hge, hwin⟩ := h.first t ht r (by rw [hr]; rfl)
      exact ⟨r, rfl, hge, hwin hlt⟩
  · cases hr : readings ds t.id with
    | nil => rfl
    | cons r rs =>
      obtain ⟨hge, -⟩ := h.first t ht r (by rw [hr]; rfl)
      have hbound := h.bounded t.id r (by rw [hr]; exact List.mem_cons_self)
      rw [htime] at hbound
      exact absurd (UInt64.le_trans hge hbound) (UInt64.not_le.mpr hlt)
  · intro r hr hfits
    obtain ⟨u, hu, hid⟩ := h.alive t ht p r hkind hr hfits
    have hlate := hdrained u hu
    rw [htime, h.renewed u hu p r (hid ▸ hkind) (hid ▸ hr), UInt64.lt_iff_toNat_lt, UInt64.toNat_add,
      Nat.mod_eq_of_lt hfits] at hlate
    exact hlate

end

/-- The packet time is 1000 and the heap has one timer of period `p`, due at 1500. -/
def oneTimer (p : ustime) : PacketClock sortedTimers :=
  { heap := sortedTimers.push ⟨⟨0, .periodic p⟩, (), 1500⟩ sortedTimers.empty, packetTime := 1000, writers := 1
    history := [0, 1000], deliveries := [] }

/-- The heap with one timer. -/
theorem elems_oneTimer (p : ustime) : sortedTimers.elems (oneTimer p).heap = {⟨⟨0, .periodic p⟩, (), 1500⟩} := by
  rw [oneTimer, sortedTimers.elems_push, sortedTimers.elems_empty]
  rfl

/-- A timer of 1 ms on the way from 1000 to 5000. -/
theorem time_past_serves_one_timer : ∃ s' ds, Fuel.Ends (fun n => timePast n 5000 (oneTimer 1000)) (.ok () s') ∧
    s'.packetTime = 5000 ∧ s'.deliveries = ds ∧
    ∃ r, (readings ds ⟨0, .periodic 1000⟩).head? = some r ∧ (1500 : ustime) ≤ r ∧ r.toNat < 2500 := by
  have helems := elems_oneTimer 1000
  obtain ⟨s', ds, hends, htime, hds, hall⟩ := time_past_serves (oneTimer 1000) 5000 (by rw [helems]; simp)
    (by
      intro t ht p hp
      rw [helems, Multiset.mem_singleton] at ht
      rw [ht] at hp
      cases hp
      decide)
    rfl (by decide) (by decide) (by decide)
  obtain ⟨hfirst, -⟩ := hall _ (by rw [helems]; exact Multiset.mem_singleton_self _)
  exact ⟨s', ds, hends, htime, hds, hfirst (by decide) (by decide)⟩

/-- A timer whose period takes the new time point past the end of the clock is delivered twice at one reading. -/
theorem time_past_serves_twice : ¬∀ (s : PacketClock sortedTimers) (target : ustime) (s' : PacketClock sortedTimers),
    ((sortedTimers.elems s.heap).map Timer.id).Nodup →
    (∀ t ∈ sortedTimers.elems s.heap, ∀ p, t.id.kind = .periodic p → 0 < p.toNat) → s.writers = 1 → s.packetTime ≠ 0 →
    s.packetTime ≤ target → target.toNat < 2 ^ 64 - 1000 → s.deliveries = [] →
    Fuel.Ends (fun n => timePast n target s) (.ok () s') →
    ∀ t ∈ sortedTimers.elems s.heap, ∀ p, t.id.kind = .periodic p → (readings s'.deliveries t.id).IsChain fun r r' =>
      r.toNat + p.toNat ≤ r'.toNat ∧ r'.toNat < r.toNat + p.toNat + 1000 := by
  intro hall
  let last : ustime := 18446744073709551615
  have helems := elems_oneTimer last
  have hrun : (timePast 5 2000 (oneTimer last)).map (fun r => (decide (r matches .ok _ _), (Exn.leaves r).deliveries)) =
      some (true, [(⟨0, .periodic last⟩, 2000), (⟨0, .periodic last⟩, 2000)]) := by decide +kernel
  obtain ⟨r, hr, hres⟩ := Option.map_eq_some_iff.mp hrun
  rw [Prod.mk.injEq] at hres
  cases r with
  | error e s' => exact absurd hres.1 (by simp)
  | ok u s' =>
    have hchain := hall (oneTimer last) 2000 s' (by rw [helems]; simp)
      (by
        intro t ht p hp
        rw [helems, Multiset.mem_singleton] at ht
        rw [ht] at hp
        cases hp
        decide)
      rfl (by decide) (by decide) (by decide) rfl (timePast_ends_of_eq hr) _ (by rw [helems]; exact Multiset.mem_singleton_self _) last rfl
    rw [show s'.deliveries = _ from hres.2] at hchain
    exact absurd hchain (by decide)

end PacketClock

end Blockmon
