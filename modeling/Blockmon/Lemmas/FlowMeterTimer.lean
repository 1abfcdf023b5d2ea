import Blockmon.Lemmas.FlowMeterRefine
import Blockmon.Lemmas.FlowTable

/-!
# The timer handler of the flow meter

The limit is computed with a 32-bit product and a 64-bit difference; here is what it is over the integers. The result of the
handler does not depend on the bound on its iterations, and it is the result of the checks of the flow table.
-/

namespace Blockmon

/-- The idle timeout that the parameters ask for. -/
def FlowMeterParams.idleMs (n : FlowMeterParams) : UInt32 :=
  match n.idleTimeout with
  | some (some ms) => ms
  | _ => 500

namespace FlowMeter

/-! ## The limit -/

/-- A signed number as an unsigned one. -/
theorem toNat_toUInt64 (x : Int64) : (x.toUInt64.toNat : Int) = x.toInt % 2 ^ 64 := by
  have hcond : x.toInt = _ := BitVec.toInt_eq_toNat_cond x.toBitVec
  rw [Int64.toNat_toBitVec] at hcond
  have hlt := x.toUInt64.toNat_lt
  split at hcond <;> omega

/-- The limit of the times, modulo `2^64`. -/
theorem usLimit_toNat (m : FlowMeter) (tnow : ustime) :
    ((m.usLimit tnow).toNat : Int) = (tnow.toNat - m.idleTimeoutUs.toInt) % 2 ^ 64 := by
  have hus := toNat_toUInt64 m.idleTimeoutUs.toInt64
  rw [Int32.toInt_toInt64] at hus
  have h1 := tnow.toNat_lt
  have h2 := m.idleTimeoutUs.toInt64.toUInt64.toNat_lt
  rw [usLimit, UInt64.toNat_sub]
  omega

/-- A timeout in microseconds, as the `int` product has it. -/
def wrapped (ms : Nat) : Int := ((ms : Int) * 1000).bmod (2 ^ 32)

/-- The timeout, in the width of its product. -/
theorem idleTimeoutUs_toInt {m : FlowMeter} {ms : UInt32} (h : m.idleTimeoutMs = ms.toInt32) :
    m.idleTimeoutUs.toInt = wrapped ms.toNat := by
  have hms : ms.toInt32.toInt = (ms.toNat : Int).bmod (2 ^ 32) := BitVec.toInt_eq_toNat_bmod ms.toBitVec
  have hthousand : (1000 : Int32).toInt = 1000 := by decide
  rw [idleTimeoutUs, h, Int32.toInt_mul, hms, hthousand]
  exact Int.bmod_mul_bmod

/-- The product is right up to 2147483 ms and too small above. -/
theorem wrapped_spec (ms : Nat) : -2 ^ 31 ≤ wrapped ms ∧ wrapped ms < 2 ^ 31 ∧ (ms ≤ 2147483 → wrapped ms = ms * 1000) ∧
    (2147483 < ms → wrapped ms < ms * 1000) := by
  have hw : wrapped ms = _ := Int.bmod_def ..
  split at hw <;> refine ⟨?_, ?_, ?_, ?_⟩ <;> omega

/-- When the limit is before the time of the timer and at least the timeout before it, or zero. -/
theorem limit_condition {ms tnow limit : Nat} (hms : ms < 2 ^ 32) (ht : tnow < 2 ^ 64)
    (hlimit : (limit : Int) = (tnow - wrapped ms) % 2 ^ 64) :
    (limit < tnow ∧ (limit = 0 ∨ limit + ms * 1000 ≤ tnow)) ↔
      (1 ≤ ms ∧ ms ≤ 2147483 ∧ ms * 1000 ≤ tnow) ∨ (0 < wrapped ms ∧ (tnow : Int) = wrapped ms) ∨
        (wrapped ms < 0 ∧ 2 ^ 64 ≤ tnow - wrapped ms) := by
  obtain ⟨hlow, hhigh, hsmall, hbig⟩ := wrapped_spec ms
  generalize wrapped ms = w at *
  rcases Nat.lt_or_ge 2147483 ms with hms' | hms'
  · have hw := hbig hms'
    clear hsmall hbig
    rcases Int.lt_or_le ((tnow : Int) - w) 0 with hneg | hpos
    · have : (limit : Int) = tnow - w + 2 ^ 64 := by omega
      omega
    · rcases Int.lt_or_le ((tnow : Int) - w) (2 ^ 64) with hin | hout
      · have : (limit : Int) = tnow - w := by omega
        omega
      · have : (limit : Int) = tnow - w - 2 ^ 64 := by omega
        omega
  · obtain rfl := hsmall hms'
    clear hsmall hbig
    rcases Int.lt_or_le (tnow : Int) (ms * 1000) with hneg | hpos
    · have : (limit : Int) = tnow - ms * 1000 + 2 ^ 64 := by omega
      omega
    · have : (limit : Int) = tnow - ms * 1000 := by omega
      omega

/-- The block uses the timeout of its parameters. -/
theorem configured_idle {n : FlowMeterParams} {m : FlowMeter} (h : configured n = some m) : m.idleTimeoutMs = n.idleMs.toInt32 := by
  obtain ⟨idle, active, hidle, -, rfl⟩ := configured_eq_some.mp h
  unfold FlowMeterParams.idleMs
  unfold timeoutMs at hidle
  split at hidle
  · rename_i heq
    cases hidle
    rw [heq]
    rfl
  · cases hidle
  · rename_i ms heq
    cases hidle
    rw [heq]
    rfl

/-- The limit of a configured block, over the integers. -/
theorem limit_toNat {n : FlowMeterParams} {m : FlowMeter} (hc : configured n = some m) (tnow : ustime) :
    ((m.usLimit tnow).toNat : Int) = (tnow.toNat - wrapped n.idleMs.toNat) % 2 ^ 64 := by
  rw [usLimit_toNat, idleTimeoutUs_toInt (configured_idle hc)]

/-- The limit depends on the parameters only. -/
theorem usLimit_of_settings {m₀ m : FlowMeter} (h : m.settings = m₀.settings) (tnow : ustime) : m.usLimit tnow = m₀.usLimit tnow := by
  have hidle : m.idleTimeoutMs = m₀.idleTimeoutMs := congrArg Prod.fst h
  rw [usLimit, usLimit, idleTimeoutUs, idleTimeoutUs, hidle]

/-- A run keeps the settings. -/
theorem run_settings {m₀ m : FlowMeter} {events : List Input} (hr : Lts.run step m₀ events = some m) : m.settings = m₀.settings :=
  Lts.run_inv (I := fun u => u.settings = m₀.settings) (fun _ _ _ hu hs => (step_settings hs).trans hu) rfl hr

/-- A run keeps the links. -/
theorem run_linked {m₀ m : FlowMeter} {events : List Input} (h₀ : Linked m₀) (hr : Lts.run step m₀ events = some m) : Linked m :=
  Lts.run_inv (I := Linked) (fun _ _ _ hu hs => (step_refines hu hs).1) h₀ hr

/-! ## The bound on the iterations -/

/-- More fuel changes no result. -/
theorem handleTimerLoop_mono (tnow us_limit : ustime) : ∀ {fuel : Nat} {m m' : FlowMeter} (more : Nat),
    handleTimerLoop tnow us_limit fuel m = some m' → handleTimerLoop tnow us_limit (fuel + more) m = some m' := by
  intro fuel
  induction fuel with
  | zero =>
    intro m m' more h
    cases h
  | succ fuel ih =>
    intro m m' more h
    rw [Nat.add_right_comm]
    rw [handleTimerLoop] at h ⊢
    split at h
    · exact h
    · split at h
      · exact h
      · dsimp only at h ⊢
        split at h
        · rename_i hexp
          rw [if_pos hexp]
          exact ih more h
        · rename_i hexp
          rw [if_neg hexp]
          split at h
          · rename_i hlast
            rw [if_pos hlast]
            exact h
          · rename_i hlast
            rw [if_neg hlast]
            exact ih more h

/-- Two bounds that are both large enough lead to the same state. -/
theorem handleTimer_unique {m m₁ m₂ : FlowMeter} {tnow : ustime} {fuel₁ fuel₂ : Nat} (h₁ : m.handleTimer tnow fuel₁ = some m₁)
    (h₂ : m.handleTimer tnow fuel₂ = some m₂) : m₁ = m₂ := by
  have h₁' := handleTimerLoop_mono tnow _ fuel₂ h₁
  have h₂' := handleTimerLoop_mono tnow _ fuel₁ h₂
  rw [Nat.add_comm] at h₂'
  exact Option.some.inj (h₁'.symm.trans h₂')

/-- The handler returns exactly when the checks of the flow table end. -/
theorem handleTimer_eq_some {m : FlowMeter} (h : Linked m) {tnow : ustime} {fuel : Nat} {t' : FlowTable} :
    (abs m).check tnow (m.usLimit tnow) fuel = some t' ↔ ∃ m', m.handleTimer tnow fuel = some m' ∧ abs m' = t' := by
  rw [← (handleTimer_refines h tnow fuel).1, Option.map_eq_some_iff]

end FlowMeter

end Blockmon
