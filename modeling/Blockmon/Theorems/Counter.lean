import Blockmon.Counter
import Mathlib.Algebra.Field.Rat
import Mathlib.Data.List.Infix
import Mathlib.Data.List.Induction

/-!
# What the rates measure

A reset clears the counts but not the counts of the last tick. The differences of a tick are what has been counted since the last tick or reset
exactly when each count was, at the start of this time, what it had been at the last tick, and does not overflow.
-/

namespace Blockmon

/-- What is counted. -/
inductive Quantity where
  | pkt
  | byte
  | flow
deriving DecidableEq

/-- What happens to a counter: a message, the timer event with the clock at it, or a write of `reset`. -/
inductive CounterEvent where
  | flow (packets bytes : UInt64)
  | packet (length : UInt64)
  | tick (now : Int)
  | writeReset

/-! ## The ledger -/

/-- The account of a run: the counts of the last tick, those at the start of the time to measure, and what has been counted from there. -/
structure CounterLedger where
  atTick : Quantity → Nat
  start : Quantity → Nat
  since : Quantity → Nat
  pending : Bool

namespace CounterLedger

/-- The ledger of a new block, whose flow counters are what the memory held. -/
def new (flowCnt flowCntPrev : UInt64) : CounterLedger where
  atTick
    | .flow => flowCntPrev.toNat
    | _ => 0
  start
    | .flow => flowCnt.toNat
    | _ => 0
  since _ := 0
  pending := false

/-- A message, with the reset that it applies. -/
def count (amount : Quantity → Nat) (l : CounterLedger) : CounterLedger :=
  if l.pending then { l with start := fun _ => 0, since := amount, pending := false } else { l with since := fun q => l.since q + amount q }

/-- A message counts as the source counts it; a timer event begins the next interval, from zero after a write of `reset`. -/
def step (l : CounterLedger) : CounterEvent → CounterLedger
  | .flow packets bytes => l.count fun
    | .pkt => packets.toNat
    | .byte => bytes.toNat
    | .flow => 1
  | .packet length => l.count fun
    | .pkt => 1
    | .byte => length.toNat
    | .flow => 0
  | .tick _ =>
    { l with
      atTick := fun q => (l.start q + l.since q) % 2 ^ 64
      start := fun q => (l.start q + l.since q) % 2 ^ 64
      since := fun _ => 0 }
  | .writeReset => { l with pending := true }

/-- The ledger after the events. -/
def run (l : CounterLedger) (events : List CounterEvent) : CounterLedger := events.foldl step l

/-- The last event is the last step. -/
theorem run_snoc (l : CounterLedger) (events : List CounterEvent) (e : CounterEvent) : l.run (events ++ [e]) = (l.run events).step e := by
  simp [run]

/-- Without a reset, every time to measure starts with the counts of the last tick. -/
theorem atTick_eq_start {l : CounterLedger} (hstart : l.atTick = l.start) (hpending : l.pending = false) (events : List CounterEvent)
    (hevents : .writeReset ∉ events) : (l.run events).atTick = (l.run events).start ∧ (l.run events).pending = false := by
  induction events using List.reverseRecOn with
  | nil => exact ⟨hstart, hpending⟩
  | append_singleton events e ih =>
    rw [List.mem_append, not_or] at hevents
    obtain ⟨hsame, hnone⟩ := ih hevents.1
    rw [run_snoc]
    cases e with
    | flow packets bytes => simp [step, count, hsame, hnone]
    | packet length => simp [step, count, hsame, hnone]
    | tick now => exact ⟨rfl, hnone⟩
    | writeReset => exact absurd (List.mem_singleton_self _) hevents.2

end CounterLedger

namespace Counter

variable {K : Type}

/-- The counter of a quantity. -/
def cnt (b : Counter K) : Quantity → UInt64
  | .pkt => b.pktCnt
  | .byte => b.byteCnt
  | .flow => b.flowCnt

/-- The counter of a quantity at the last timer event. -/
def prev (b : Counter K) : Quantity → UInt64
  | .pkt => b.pktCntPrev
  | .byte => b.byteCntPrev
  | .flow => b.flowCntPrev

/-- What the block reports of a quantity. -/
def diff (b : Counter K) : Quantity → UInt64
  | .pkt => b.pktDiff
  | .byte => b.byteDiff
  | .flow => b.flowDiff

/-! ## The members and the ledger -/

/-- The members are those that the ledger accounts for. -/
structure Tracks (b : Counter K) (l : CounterLedger) : Prop where
  reset : b.reset = if l.pending then 1 else 0
  cnt : ∀ q, (b.cnt q).toNat = (l.start q + l.since q) % 2 ^ 64
  prev : ∀ q, (b.prev q).toNat = l.atTick q
  start_lt : ∀ q, l.start q < 2 ^ 64

/-- A difference of a count that starts at `start`. -/
theorem sub_eq_iff {cnt prev : UInt64} {start since : Nat} (hcnt : cnt.toNat = (start + since) % 2 ^ 64) (hstart : start < 2 ^ 64) :
    ((cnt - prev).toNat = since ∧ prev ≤ cnt) ↔ prev.toNat = start ∧ start + since < 2 ^ 64 := by
  have hlt := cnt.toNat_lt
  have hprev := prev.toNat_lt
  rw [UInt64.toNat_sub, UInt64.le_iff_toNat_le, hcnt]
  constructor
  · rintro ⟨hdiff, hle⟩
    constructor <;> omega
  · rintro ⟨hsame, hfits⟩
    constructor <;> omega

/-- What is reported is the difference of the two counters. -/
theorem diff_eq (b : Counter K) (q : Quantity) : b.diff q = b.cnt q - b.prev q := by cases q <;> rfl

/-- The difference is what has been counted since the last timer event just when the counter then is the one the interval began with and has not
wrapped since. -/
theorem Tracks.diff_iff {b : Counter K} {l : CounterLedger} (h : Tracks b l) (q : Quantity) :
    ((b.diff q).toNat = l.since q ∧ b.prev q ≤ b.cnt q) ↔ l.atTick q = l.start q ∧ l.start q + l.since q < 2 ^ 64 := by
  rw [diff_eq, sub_eq_iff (h.cnt q) (h.start_lt q), h.prev]

variable [ExactDouble K]

/-- An event, at the block. -/
def step (b : Counter K) : CounterEvent → Except String (Counter K)
  | .flow packets bytes => b.receiveMsg (.flow packets bytes)
  | .packet length => b.receiveMsg (.packet length)
  | .tick now => .ok (b.handleTimer now)
  | .writeReset => .ok b.writeReset

/-- The events in their order. -/
def run (b : Counter K) (events : List CounterEvent) : Except String (Counter K) := events.foldlM step b

/-! ## A step -/

section Steps

variable {b : Counter K} {l : CounterLedger}

/-- A new block is at the start of its ledger. -/
theorem tracks_new (memory : CounterMemory K) (now : Int) : Tracks (new memory now) (.new memory.flowCnt memory.flowCntPrev) where
  reset := rfl
  cnt q := by
    have hlt := memory.flowCnt.toNat_lt
    cases q with
    | flow => exact (Nat.mod_eq_of_lt hlt).symm
    | pkt => rfl
    | byte => rfl
  prev q := by cases q <;> rfl
  start_lt q := by
    have hlt := memory.flowCnt.toNat_lt
    cases q with
    | flow => exact hlt
    | pkt => exact Nat.two_pow_pos 64
    | byte => exact Nat.two_pow_pos 64

/-- A pending reset sets the counters to zero. -/
theorem cnt_applyReset (q : Quantity) : b.applyReset.cnt q = if b.reset = 1 then 0 else b.cnt q := by
  rw [applyReset]
  split <;> cases q <;> rfl

/-- A pending reset leaves what was reported last. -/
theorem prev_applyReset (q : Quantity) : b.applyReset.prev q = b.prev q := by
  rw [applyReset]
  split <;> cases q <;> rfl

/-- After `apply_reset` no reset is pending. -/
theorem reset_applyReset (h : Tracks b l) : b.applyReset.reset = 0 := by
  rw [applyReset]
  split
  · rfl
  · rename_i hreset
    have hflag := h.reset
    split at hflag
    · exact absurd hflag hreset
    · exact hflag

/-- Of a message that adds these amounts. -/
theorem Tracks.count {b' : Counter K} {amount : Quantity → Nat} (h : Tracks b l)
    (hcnt : ∀ q, (b'.cnt q).toNat = ((b.applyReset.cnt q).toNat + amount q) % 2 ^ 64) (hprev : ∀ q, b'.prev q = b.applyReset.prev q)
    (hreset : b'.reset = b.applyReset.reset) : Tracks b' (l.count amount) := by
  have hflag := h.reset
  rw [reset_applyReset h] at hreset
  rcases hpending : l.pending with _ | _
  · simp only [hpending, Bool.false_eq_true, if_false] at hflag
    have hl : l.count amount = { l with since := fun q => l.since q + amount q } := by simp [CounterLedger.count, hpending]
    rw [hl]
    refine ⟨by simp [hpending, hreset], fun q => ?_, fun q => ?_, h.start_lt⟩
    · rw [hcnt, cnt_applyReset, hflag, if_neg (by decide), h.cnt, Nat.mod_add_mod, Nat.add_assoc]
    · rw [hprev, prev_applyReset, h.prev]
  · simp only [hpending, if_true] at hflag
    have hl : l.count amount = { l with start := fun _ => 0, since := amount, pending := false } := by simp [CounterLedger.count, hpending]
    rw [hl]
    refine ⟨by simp [hreset], fun q => ?_, fun q => ?_, fun _ => by simp⟩
    · rw [hcnt, cnt_applyReset, if_pos hflag, UInt64.toNat_zero]
    · rw [hprev, prev_applyReset, h.prev]

/-- Every event keeps the block with its ledger, and none throws. -/
theorem Tracks.step (h : Tracks b l) (e : CounterEvent) : ∃ b', b.step e = .ok b' ∧ Tracks b' (l.step e) := by
  cases e with
  | flow packets bytes =>
    refine ⟨_, rfl, h.count (fun q => ?_) (fun q => ?_) rfl⟩
    · cases q <;> exact UInt64.toNat_add _ _
    · cases q <;> rfl
  | packet length =>
    refine ⟨_, rfl, h.count (fun q => ?_) (fun q => ?_) rfl⟩
    · cases q with
      | flow => exact (Nat.mod_eq_of_lt (UInt64.toNat_lt _)).symm
      | pkt => exact UInt64.toNat_add _ _
      | byte => exact UInt64.toNat_add _ _
    · cases q <;> rfl
  | tick now =>
    refine ⟨_, rfl, h.reset, fun q => ?_, fun q => ?_, fun q => Nat.mod_lt _ (by decide)⟩
    · have hcnt := h.cnt q
      have hsame : (b.handleTimer now).cnt q = b.cnt q := by cases q <;> rfl
      simp only [CounterLedger.step, hsame, hcnt, Nat.add_zero, Nat.mod_mod]
    · have hcnt := h.cnt q
      have hsame : (b.handleTimer now).prev q = b.cnt q := by cases q <;> rfl
      rw [hsame, hcnt]
      rfl
  | writeReset =>
    refine ⟨_, rfl, rfl, fun q => ?_, fun q => ?_, h.start_lt⟩
    · have hcnt := h.cnt q
      cases q <;> exact hcnt
    · have hprev := h.prev q
      cases q <;> exact hprev

end Steps

/-! ## A run -/

section Runs

variable (memory : CounterMemory K) (now : Int)

/-- The account of a run from the start. -/
def ledger (events : List CounterEvent) : CounterLedger := (CounterLedger.new memory.flowCnt memory.flowCntPrev).run events

/-- After any events the block is with its ledger. -/
theorem tracks_run (events : List CounterEvent) : ∃ b, (new memory now).run events = .ok b ∧ Tracks b (ledger memory events) := by
  induction events using List.reverseRecOn with
  | nil => exact ⟨_, rfl, tracks_new memory now⟩
  | append_singleton events e ih =>
    obtain ⟨b, hrun, htracks⟩ := ih
    obtain ⟨b', hstep, htracks'⟩ := htracks.step e
    refine ⟨b', ?_, ?_⟩
    · rw [run, List.foldlM_append, ← run, hrun]
      exact (congrArg (· >>= pure) hstep).trans rfl
    · rw [ledger, CounterLedger.run_snoc]
      exact htracks'

/-- The differences at every tick are what has been counted since the tick before or the last reset that was applied. -/
def MeasuresSince (events : List CounterEvent) : Prop :=
  ∀ before t, before ++ [.tick t] <+: events → ∃ b, (new memory now).run before = .ok b ∧
    ∀ q, (b.diff q).toNat = (ledger memory before).since q ∧ b.prev q ≤ b.cnt q

/-- At every tick, the time to measure started with the counts of the tick before, and no count has overflowed since. -/
def StartsAtTick (events : List CounterEvent) : Prop :=
  ∀ before t, before ++ [.tick t] <+: events →
    ∀ q, (ledger memory before).atTick q = (ledger memory before).start q ∧
      (ledger memory before).start q + (ledger memory before).since q < 2 ^ 64

variable {memory} in
/-- Without a reset it is enough that no count overflows, if the two members that are not initialised hold the same. -/
theorem measuresSince_of_no_reset {events : List CounterEvent} (hmemory : memory.flowCntPrev = memory.flowCnt) (hevents : .writeReset ∉ events)
    (hfits : ∀ before, before <+: events → ∀ q, (ledger memory before).start q + (ledger memory before).since q < 2 ^ 64) :
    MeasuresSince memory now events := by
  intro before t hprefix
  obtain ⟨b, hrun, htracks⟩ := tracks_run memory now before
  have hbefore := (List.prefix_append _ _).trans hprefix
  have hnew : (CounterLedger.new memory.flowCnt memory.flowCntPrev).atTick = (CounterLedger.new memory.flowCnt memory.flowCntPrev).start := by
    funext q
    cases q <;> simp [CounterLedger.new, hmemory]
  have hstart := CounterLedger.atTick_eq_start hnew rfl before fun h => hevents (hbefore.subset h)
  exact ⟨b, hrun, fun q => (htracks.diff_iff q).mpr ⟨congrFun hstart.1 q, hfits before hbefore q⟩⟩

end Runs

end Counter

open Counter

/-- The block reports what came since the last timer event, after any events, just when every interval starts with what the one before ended with.
-/
theorem counter_measures_iff {K : Type} [ExactDouble K] (memory : CounterMemory K) (now : Int) (events : List CounterEvent) :
    MeasuresSince memory now events ↔ StartsAtTick memory events := by
  constructor
  · intro h before t hprefix q
    obtain ⟨b, hrun, hmeasures⟩ := h before t hprefix
    obtain ⟨b', hrun', htracks⟩ := tracks_run memory now before
    obtain rfl := Except.ok.inj (hrun.symm.trans hrun')
    exact (htracks.diff_iff q).mp (hmeasures q)
  · intro h before t hprefix
    obtain ⟨b, hrun, htracks⟩ := tracks_run memory now before
    exact ⟨b, hrun, fun q => (htracks.diff_iff q).mpr (h before t hprefix q)⟩

/-- One packet before and one after a reset: the second tick measures none. -/
theorem counter_reset_miscounts :
    ¬MeasuresSince (K := ℚ) ⟨0, 0, 0⟩ 0 [.packet 100, .tick 1000, .writeReset, .packet 100, .tick 2000] := by
  intro h
  obtain ⟨b, hrun, hmeasures⟩ := h [.packet 100, .tick 1000, .writeReset, .packet 100] 2000 ⟨[], rfl⟩
  obtain ⟨b', hrun', htracks⟩ := tracks_run (K := ℚ) ⟨0, 0, 0⟩ 0 [.packet 100, .tick 1000, .writeReset, .packet 100]
  obtain rfl := Except.ok.inj (hrun.symm.trans hrun')
  have hpkt := (htracks.diff_iff .pkt).mp (hmeasures .pkt)
  exact absurd hpkt.1 (by decide)

end Blockmon
