import Blockmon.CDFGenerator
import Blockmon.Lib.Faults
import Mathlib.Algebra.BigOperators.Group.List.Basic
import Mathlib.Algebra.Order.BigOperators.Group.List
import Mathlib.Data.List.Induction

/-!
# What is counted in a distribution

The range has room for one bin for each whole multiple of its width, while the packets of the last, incomplete bin are counted as well: at least
those of exactly the largest size. The distribution is right when no packet is in that bin, and there is a whole one.
-/

namespace Blockmon

/-- A packet with its length, or the timer event. -/
inductive CDFEvent where
  | packet (length : UInt64)
  | timer

namespace CDFGenerator

open Faults

/-! ## The purpose -/

section Purpose

variable (min max : UInt32)

/-- A length that is counted. -/
def InRange (length : UInt64) : Prop := min.toNat ≤ length.toNat ∧ length.toNat ≤ max.toNat

instance instDecidableInRange (length : UInt64) : Decidable (InRange min max length) := inferInstanceAs (Decidable (_ ∧ _))

/-- The number of packets in the range since the last timer. -/
def since (events : List CDFEvent) : Nat :=
  events.foldl (fun n e => match e with
    | .packet length => if InRange min max length then n + 1 else n
    | .timer => 0) 0

/-- The packets since the last timer event, after a packet. -/
@[simp] theorem since_packet (events : List CDFEvent) (length : UInt64) :
    since min max (events ++ [.packet length]) = if InRange min max length then since min max events + 1 else since min max events := by
  simp [since]

/-- The timer event starts from zero. -/
@[simp] theorem since_timer (events : List CDFEvent) : since min max (events ++ [.timer]) = 0 := by simp [since]

end Purpose

/-- An event, at the block. -/
def step (noise : Nat → Int) (b : CDFGenerator) : CDFEvent → Except CDFFault CDFGenerator
  | .packet length => b.receiveMsg length
  | .timer => do return (← b.handleTimer noise).2

/-- The events in their order. -/
def run (noise : Nat → Int) (b : CDFGenerator) (events : List CDFEvent) : Except CDFFault CDFGenerator := events.foldlM (step noise) b

/-- A packet in the range has an index in the histogram, and the last value that a timer prints is the number of those since the timer before. -/
def Counts (noise : Nat → Int) (min max : UInt32) (b : CDFGenerator) (events : List CDFEvent) : Prop :=
  ∀ before e, before ++ [e] <+: events → ∃ b', b.run noise before = .ok b' ∧
    match e with
    | .packet length => InRange min max length → ∃ i, b'.index (toInt length.toNat) = .ok i ∧ 0 ≤ i ∧ i < b'.histo.length
    | .timer => ∃ printed b'', b'.handleTimer noise = .ok (printed, b'') ∧ printed.getLast? = some (since min max before : Int)

/-- The range of the sizes that the bins of the histogram cover; a size is in the configured range if its `int` is in that of the members. -/
def Covered (min max : UInt32) (b : CDFGenerator) (length : UInt64) : Prop :=
  ((b.min ≤ toInt length.toNat ∧ toInt length.toNat ≤ b.max) ↔ InRange min max length) ∧
    (InRange min max length → toInt length.toNat < b.min + b.bin * b.histo.length)

/-- Every packet in the range is covered, there is a bin at every timer, and no number between two timers reaches `2 ^ 31`. -/
def Fits (min max : UInt32) (b : CDFGenerator) (events : List CDFEvent) : Prop :=
  ∀ before e, before ++ [e] <+: events →
    match e with
    | .packet length => Covered min max b length ∧ since min max (before ++ [e]) < 2 ^ 31
    | .timer => 0 < b.histo.length

/-! ## The running sums -/

/-- An `int` in range is its value. -/
theorem int_ok {v : Int} (hlo : -2 ^ 31 ≤ v) (hhi : v < 2 ^ 31) : int v = .ok v := if_pos ⟨hlo, hhi⟩

/-- What an `unsigned` is as an `int`. -/
theorem toInt_eq {v : Nat} (hv : v < 2 ^ 32) : toInt v = if v < 2 ^ 31 then (v : Int) else v - 2 ^ 32 := by
  rw [toInt, Bytes.signed, Int.bmod_def, Int.emod_eq_of_lt (Int.natCast_nonneg v) (by exact_mod_cast hv)]
  split <;> split <;> omega

/-- The entries are counts, and there is room for their sum. -/
structure Counted (histo : List Int) (n : Nat) : Prop where
  nonneg : ∀ v ∈ histo, 0 ≤ v
  sum_eq : histo.sum = n
  lt : n < 2 ^ 31

/-- An increment inside of the histogram adds one to its sum. -/
theorem increment_eq {histo : List Int} {n i : Nat} (h : Counted histo n) (hi : i < histo.length) (hn : n + 1 < 2 ^ 31) :
    ∃ histo', increment histo i = .ok histo' ∧ histo'.length = histo.length ∧ Counted histo' (n + 1) := by
  have hnn : 0 ≤ histo[i] := h.nonneg _ (List.getElem_mem hi)
  have hle : histo[i] ≤ n := by
    rw [← h.sum_eq]
    exact List.single_le_sum h.nonneg _ (List.getElem_mem hi)
  have hint : int (histo[i] + 1) = .ok (histo[i] + 1) := int_ok (by omega) (by omega)
  refine ⟨histo.set i (histo[i] + 1), ?_, List.length_set, ?_, ?_, hn⟩
  · rw [← Int.ofNat_eq_natCast, increment, List.getElem?_eq_getElem hi]
    simp only [hint]
    rfl
  · intro v hv
    rcases List.mem_or_eq_of_mem_set hv with hmem | rfl
    · exact h.nonneg v hmem
    · omega
  · have hsum := h.sum_eq
    rw [List.sum_set', dif_pos hi]
    push_cast
    omega

/-- The running sums of a histogram, without noise: the last is the sum of all. -/
theorem cdfFrom_eq {noise : Nat → Int} {epsilon : ℚ} (hepsilon : epsilon ≤ 0) {histo : List Int} {sum : Int} (i : Nat)
    (hnn : ∀ v ∈ histo, 0 ≤ v) (hsum : 0 ≤ sum) (hlt : sum + histo.sum < 2 ^ 31) :
    ∃ values, cdfFrom noise epsilon i sum histo = .ok values ∧ values.length = histo.length ∧
      (sum :: values).getLast? = some (sum + histo.sum) := by
  induction histo generalizing sum i with
  | nil => exact ⟨[], rfl, rfl, by simp⟩
  | cons h histo ih =>
    rw [List.forall_mem_cons] at hnn
    rw [List.sum_cons, ← Int.add_assoc] at hlt
    have hrest := List.sum_nonneg hnn.2
    obtain ⟨values, hvalues, hlen, hlast⟩ := ih (i + 1) hnn.2 (Int.add_nonneg hsum hnn.1) hlt
    refine ⟨(sum + h) :: values, ?_, by simp [hlen], ?_⟩
    · have hnoise : ¬epsilon > 0 := not_lt.mpr hepsilon
      have hint : int (sum + h) = .ok (sum + h) := int_ok (by omega) (by omega)
      simp only [cdfFrom, hint, hnoise, hvalues, ok_bind, if_false]
      rfl
    · rw [List.getLast?_cons_cons, hlast, List.sum_cons, Int.add_assoc]

/-! ## A step -/

/-- The block `b` that was configured, when `n` packets have been counted since the last timer. -/
structure Holds (b b' : CDFGenerator) (n : Nat) : Prop where
  eq : b' = { b with histo := b'.histo, cdf := b'.cdf }
  histo_length : b'.histo.length = b.histo.length
  cdf_length : b'.cdf.length = b.histo.length
  counted : Counted b'.histo n

/-- A configuration that has not thrown. -/
structure Configured (b : CDFGenerator) : Prop where
  histo : histoSetZero b.min b.max b.bin = .ok b.histo
  cdf : b.cdf = b.histo
  zero : ∃ n, b.histo = List.replicate n 0

section Steps

variable {b b' : CDFGenerator} {n : Nat}

/-- `histoSetZero` makes a histogram of zeros. -/
theorem histoSetZero_replicate {min max bin : Int} {histo : List Int} (h : histoSetZero min max bin = .ok histo) :
    ∃ n, histo = List.replicate n 0 := by
  rw [histoSetZero] at h
  rcases hn : valuesNum min max bin with _ | n
  · rw [hn] at h
    cases h
  · rw [hn, ok_bind] at h
    split at h
    · cases h
    · exact ⟨n.toNat, (Except.ok.inj h).symm⟩

/-- What `_configure` leaves in a block. -/
theorem configure_eq {min max bin : UInt32} {epsilon : ℚ} (h : configure min max bin epsilon = .ok b) :
    Configured b ∧ b.min = toInt min.toNat ∧ b.max = toInt max.toNat ∧ b.bin = toInt bin.toNat ∧ b.epsilon = epsilon := by
  rw [configure] at h
  generalize toInt min.toNat = min at h ⊢
  generalize toInt max.toNat = max at h ⊢
  generalize toInt bin.toNat = bin at h ⊢
  rcases hhisto : histoSetZero min max bin with _ | histo
  · rw [hhisto] at h
    cases h
  · rw [hhisto, ok_bind, ok_bind] at h
    obtain rfl := Except.ok.inj h
    exact ⟨⟨hhisto, rfl, histoSetZero_replicate hhisto⟩, rfl, rfl, rfl, rfl⟩

/-- A histogram of zeros has counted nothing. -/
theorem counted_replicate (n : Nat) : Counted (List.replicate n 0) 0 where
  nonneg v hv := (List.eq_of_mem_replicate hv).ge
  sum_eq := by simp
  lt := Nat.two_pow_pos 31

/-- A configured block holds no packet. -/
theorem Configured.holds (h : Configured b) : Holds b b 0 := by
  obtain ⟨n, hn⟩ := h.zero
  refine ⟨rfl, rfl, by rw [h.cdf], ?_⟩
  rw [hn]
  exact counted_replicate n

/-- The lower bound is kept. -/
theorem Holds.min_eq (h : Holds b b' n) : b'.min = b.min := by rw [h.eq]

/-- The upper bound is kept. -/
theorem Holds.max_eq (h : Holds b b' n) : b'.max = b.max := by rw [h.eq]

/-- The width of a bin is kept. -/
theorem Holds.bin_eq (h : Holds b b' n) : b'.bin = b.bin := by rw [h.eq]

/-- The parameter of the noise is kept. -/
theorem Holds.epsilon_eq (h : Holds b b' n) : b'.epsilon = b.epsilon := by rw [h.eq]

/-- A size that the bins cover has an index. -/
theorem index_eq {size : Int} {bins : Nat} (hmin : b.min ≤ size) (hdiff : size - b.min < 2 ^ 31) (hcovered : size < b.min + b.bin * bins) :
    ∃ i : Nat, b.index size = .ok i ∧ i < bins := by
  have hbin : 0 < b.bin := by
    by_contra hneg
    have hle : b.bin * bins ≤ 0 := Int.mul_nonpos_of_nonpos_of_nonneg (by omega) (Int.natCast_nonneg bins)
    omega
  have hnn : 0 ≤ size - b.min := by omega
  have hquot : 0 ≤ (size - b.min) / b.bin := Int.ediv_nonneg hnn hbin.le
  have hlt : (size - b.min) / b.bin < bins := by
    rw [Int.ediv_lt_iff_lt_mul hbin, Int.mul_comm]
    omega
  have hle : (size - b.min) / b.bin ≤ size - b.min := Int.ediv_le_self _ hnn
  refine ⟨((size - b.min) / b.bin).toNat, ?_, by omega⟩
  have hsub : int (size - b.min) = .ok (size - b.min) := int_ok (by omega) hdiff
  have hdiv : int ((size - b.min) / b.bin) = .ok ((size - b.min) / b.bin) := int_ok (by omega) (by omega)
  rw [index, hsub, ok_bind, if_neg hbin.ne', Int.tdiv_eq_ediv_of_nonneg hnn, hdiv, Int.toNat_of_nonneg hquot]

/-- The sizes in the range of the members are less than `2 ^ 31` apart. -/
theorem sub_lt {min max : UInt32} {size : Int} (hle : min ≤ max) (hmax : size ≤ toInt max.toNat) :
    size - toInt min.toNat < 2 ^ 31 := by
  have hle' : min.toNat ≤ max.toNat := hle
  have hlt := max.toNat_lt
  rw [toInt_eq (by omega)] at hmax ⊢
  split at hmax <;> split <;> omega

/-- A packet of a covered length is counted in a bin of the histogram. -/
theorem Holds.packet {min max : UInt32} {length : UInt64} (h : Holds b b' n) (hmin : b.min = toInt min.toNat) (hmax : b.max = toInt max.toNat)
    (hle : min ≤ max) (hcovered : Covered min max b length) (hlt : (if InRange min max length then n + 1 else n) < 2 ^ 31) :
    (InRange min max length → ∃ i, b'.index (toInt length.toNat) = .ok i ∧ 0 ≤ i ∧ i < b'.histo.length) ∧
      ∃ b'', b'.receiveMsg length = .ok b'' ∧ Holds b b'' (if InRange min max length then n + 1 else n) := by
  obtain ⟨hrange, hbins⟩ := hcovered
  by_cases hin : InRange min max length
  · have hsize := hrange.mpr hin
    have hdiff : toInt length.toNat - b.min < 2 ^ 31 := by
      rw [hmin]
      exact sub_lt hle (hsize.2.trans_eq hmax)
    rw [if_pos hin] at hlt
    rw [← h.min_eq, ← h.max_eq] at hsize
    rw [← h.min_eq] at hdiff
    have hbins' : toInt length.toNat < b'.min + b'.bin * b'.histo.length := by
      rw [h.min_eq, h.bin_eq, h.histo_length]
      exact hbins hin
    obtain ⟨i, hi, hilt⟩ := index_eq hsize.1 hdiff hbins'
    obtain ⟨histo, hhisto, hlen, hcounted⟩ := increment_eq h.counted hilt hlt
    refine ⟨fun _ => ⟨i, hi, Int.natCast_nonneg i, by exact_mod_cast hilt⟩, { b' with histo := histo }, ?_, ?_⟩
    · rw [receiveMsg, if_pos hsize, hi, ok_bind, hhisto]
      rfl
    · rw [if_pos hin]
      refine ⟨?_, hlen.trans h.histo_length, h.cdf_length, hcounted⟩
      rw [h.eq]
  · have hsize : ¬(toInt length.toNat ≥ b'.min ∧ toInt length.toNat ≤ b'.max) := by
      rw [h.min_eq, h.max_eq]
      exact fun hs => hin (hrange.mp hs)
    refine ⟨fun h => absurd h hin, b', ?_, ?_⟩
    · simp only [receiveMsg, if_neg hsize]
      rfl
    · rw [if_neg hin]
      exact h

/-- The timer event prints the number of the packets and starts again. -/
theorem Holds.timer (noise : Nat → Int) (hconf : Configured b) (hepsilon : b.epsilon ≤ 0) (h : Holds b b' n) :
    ∃ printed b'', b'.handleTimer noise = .ok (printed, b'') ∧ Holds b b'' 0 ∧ (0 < b.histo.length → printed.getLast? = some (n : Int)) := by
  have hepsilon' : b'.epsilon ≤ 0 := by rw [h.epsilon_eq]; exact hepsilon
  have hcounted := h.counted
  have hsum : (0 : Int) + b'.histo.sum = n := by rw [hcounted.sum_eq, Int.zero_add]
  have hlt : (n : Int) < 2 ^ 31 := by exact_mod_cast hcounted.lt
  obtain ⟨values, hvalues, hlen, hlast⟩ := @cdfFrom_eq noise _ hepsilon' _ _ 0 hcounted.nonneg le_rfl (hsum.trans_lt hlt)
  rw [hsum] at hlast
  have hcdf : cdfComputation noise b'.histo b'.cdf b'.epsilon = .ok (values ++ b'.cdf.drop b'.histo.length) := by
    rw [cdfComputation, hvalues, ok_bind, if_pos (by rw [h.cdf_length, h.histo_length])]
    rfl
  have hdrop : b'.cdf.drop b'.histo.length = [] := List.drop_eq_nil_of_le (by rw [h.cdf_length, h.histo_length])
  rw [hdrop, List.append_nil] at hcdf
  have hzero : histoSetZero b'.min b'.max b'.bin = .ok b.histo := by rw [h.min_eq, h.max_eq, h.bin_eq, hconf.histo]
  refine ⟨values, { b' with histo := b.histo, cdf := values }, ?_, ?_, fun hpos => ?_⟩
  · rw [handleTimer, hcdf, ok_bind, hzero, ok_bind, List.take_of_length_le hlen.le]
    rfl
  · refine ⟨?_, rfl, hlen.trans h.histo_length, hconf.holds.counted⟩
    rw [h.eq]
  · have hne : values ≠ [] := List.ne_nil_of_length_pos (by rw [hlen, h.histo_length]; exact hpos)
    rw [List.getLast?_cons_of_ne_nil hne] at hlast
    exact hlast

end Steps

/-! ## A run -/

/-- The last event is the last step. -/
theorem run_snoc (noise : Nat → Int) (b : CDFGenerator) (events : List CDFEvent) (e : CDFEvent) :
    b.run noise (events ++ [e]) = b.run noise events >>= fun b' => b'.step noise e := by
  rw [run, List.foldlM_append, ← run]
  exact congrArg _ (funext fun b' => by rw [List.foldlM_cons]; exact bind_pure _)

section Runs

variable {noise : Nat → Int} {min max bin : UInt32} {epsilon : ℚ} {b : CDFGenerator}

/-- No events fit. -/
theorem Fits.nil : Fits min max b [] := fun before e hpre => absurd (List.prefix_nil.mp hpre) (List.append_ne_nil_of_right_ne_nil _ (by simp))

/-- One more packet fits when its length is covered and the count does not overflow. -/
theorem Fits.packet {events : List CDFEvent} {length : UInt64} (h : Fits min max b events) (hcovered : Covered min max b length)
    (hlt : since min max (events ++ [.packet length]) < 2 ^ 31) : Fits min max b (events ++ [.packet length]) := by
  intro before e hpre
  rcases List.prefix_concat_iff.mp hpre with heq | hbefore
  · obtain ⟨rfl, rfl⟩ := List.append_singleton_inj.mp heq
    exact ⟨hcovered, hlt⟩
  · exact h before e hbefore

/-- The timer event fits a histogram with a bin. -/
theorem Fits.timer {events : List CDFEvent} (h : Fits min max b events) (hpos : 0 < b.histo.length) : Fits min max b (events ++ [.timer]) := by
  intro before e hpre
  rcases List.prefix_concat_iff.mp hpre with heq | hbefore
  · obtain ⟨rfl, rfl⟩ := List.append_singleton_inj.mp heq
    exact hpos
  · exact h before e hbefore

/-- What fits, fits up to any event. -/
theorem Fits.before {before rest : List CDFEvent} (h : Fits min max b (before ++ rest)) : Fits min max b before :=
  fun l e hpre => h l e (hpre.trans (List.prefix_append before rest))

/-- After events that fit, the block holds the packets since the last timer event. -/
theorem holds_run (hconf : configure min max bin epsilon = .ok b) (hle : min ≤ max) (hepsilon : epsilon ≤ 0) (events : List CDFEvent)
    (hfits : Fits min max b events) : ∃ b', b.run noise events = .ok b' ∧ Holds b b' (since min max events) := by
  obtain ⟨hconfigured, hmin, hmax, -, hepsilon'⟩ := configure_eq hconf
  induction events using List.reverseRecOn with
  | nil => exact ⟨b, rfl, hconfigured.holds⟩
  | append_singleton events e ih =>
    obtain ⟨b', hrun, hholds⟩ := ih hfits.before
    have hevent := hfits events e (List.prefix_refl _)
    rw [run_snoc, hrun, ok_bind]
    cases e with
    | packet length =>
      rw [since_packet] at hevent ⊢
      exact (hholds.packet hmin hmax hle hevent.1 hevent.2).2
    | timer =>
      obtain ⟨printed, b'', htimer, hholds', -⟩ := hholds.timer noise hconfigured (hepsilon'.trans_le hepsilon)
      rw [since_timer]
      refine ⟨b'', ?_, hholds'⟩
      rw [step, htimer]
      rfl

/-! ## The bins of a configuration -/

/-- A `float` is exact for small integers. -/
theorem float_natCast {v : Nat} (hv : v < 2 ^ 24) : float (v : Int) = (v : ℚ) := by
  have habs : |((v : Int) : Int)| < 2 ^ 24 := by
    rw [Nat.abs_cast]
    exact_mod_cast hv
  rw [float, Rounding.round_intCast habs, Int.cast_natCast]

/-- A small `unsigned` is the same `int`. -/
theorem toInt_natCast {v : Nat} (hv : v < 2 ^ 24) : toInt v = v := by
  rw [toInt_eq (by omega), if_pos (by omega)]

/-- When the numbers have 24 digits, the division of floats gives the whole bins in the range. -/
theorem valuesNum_eq {min max bin : Nat} (hle : min ≤ max) (hmax : max < 2 ^ 24) (hbin : 0 < bin) (hbin' : bin < 2 ^ 24) :
    valuesNum min max bin = .ok ((max - min) / bin : Nat) := by
  have hdiff : max - min < 2 ^ 24 := by omega
  have hsub : float (float (max : Int) - float (min : Int)) = (max - min : Nat) := by
    rw [float_natCast hmax, float_natCast (hle.trans_lt hmax), ← Nat.cast_sub hle]
    exact float_natCast hdiff
  have hquot : (max - min) / bin < 2 ^ 24 := (Nat.div_le_self _ _).trans_lt hdiff
  rw [valuesNum, if_neg (by omega), hsub, float_natCast hbin', float, Rounding.floor_round_div hdiff hbin]
  generalize (max - min) / bin = bins at hquot ⊢
  exact int_ok (by omega) (by omega)

/-- The number of the bins is the exact quotient for small parameters. -/
theorem histoSetZero_eq {min max bin : Nat} (hle : min ≤ max) (hmax : max < 2 ^ 24) (hbin : 0 < bin) (hbin' : bin < 2 ^ 24) :
    histoSetZero min max bin = .ok (List.replicate ((max - min) / bin) 0) := by
  rw [histoSetZero, valuesNum_eq hle hmax hbin hbin', ok_bind, if_neg (Int.natCast_nonneg _).not_gt, Int.toNat_natCast]
  rfl

/-- A configuration with a range, bins of at least one byte, and numbers of 24 digits. -/
structure Ordinary (min max bin : UInt32) : Prop where
  le : min.toNat ≤ max.toNat
  max_lt : max.toNat < 2 ^ 24
  pos : 0 < bin.toNat
  bin_lt : bin.toNat < 2 ^ 24

/-- The block with the whole bins of its range. -/
def wholeBins (min max bin : UInt32) (epsilon : ℚ) : CDFGenerator where
  min := min.toNat
  max := max.toNat
  bin := bin.toNat
  epsilon := epsilon
  histo := List.replicate ((max.toNat - min.toNat) / bin.toNat) 0
  cdf := List.replicate ((max.toNat - min.toNat) / bin.toNat) 0

/-- An ordinary configuration succeeds with the whole bins of its range. -/
theorem Ordinary.configured (h : Ordinary min max bin) (epsilon : ℚ) :
    configure min max bin epsilon = .ok (wholeBins min max bin epsilon) := by
  rw [configure, toInt_natCast (h.le.trans_lt h.max_lt), toInt_natCast h.max_lt, toInt_natCast h.bin_lt,
    histoSetZero_eq h.le h.max_lt h.pos h.bin_lt, ok_bind, ok_bind]
  rfl

/-- A length whose index is inside the histogram is covered. -/
theorem covered_of_index {size i : Int} {bins : Nat} (hbin : 0 < b.bin) (hmin : b.min ≤ size) (hindex : b.index size = .ok i) (hi : i < bins) :
    size < b.min + b.bin * bins := by
  have hnn : 0 ≤ size - b.min := by omega
  rw [index] at hindex
  by_cases hdiff : size - b.min < 2 ^ 31
  · rw [int_ok (by omega) hdiff, ok_bind, if_neg hbin.ne', Int.tdiv_eq_ediv_of_nonneg hnn] at hindex
    have hle := Int.ediv_le_self b.bin hnn
    have hquot : 0 ≤ (size - b.min) / b.bin := Int.ediv_nonneg hnn hbin.le
    rw [int_ok (by omega) (by omega), Except.ok.injEq] at hindex
    rw [← hindex, Int.ediv_lt_iff_lt_mul hbin, Int.mul_comm] at hi
    omega
  · rw [int, if_neg (by omega)] at hindex
    cases hindex

/-- A packet before the incomplete bin is covered. -/
theorem covered_wholeBins {length : UInt64} (hlength : length.toNat < 2 ^ 24)
    (hbins : length.toNat < min.toNat + bin.toNat * ((max.toNat - min.toNat) / bin.toNat)) :
    Covered min max (wholeBins min max bin epsilon) length := by
  simp only [Covered, wholeBins, toInt_natCast hlength, List.length_replicate]
  exact ⟨by simp [InRange], fun _ => by exact_mod_cast hbins⟩

/-- A packet of the largest size has no bin, whatever the width. -/
theorem Ordinary.not_counts_max (h : Ordinary min max bin) (hconf : configure min max bin epsilon = .ok b) {length : UInt64}
    (hlength : length.toNat = max.toNat) : ¬Counts noise min max b [.packet length] := by
  intro hcounts
  rw [h.configured] at hconf
  obtain rfl := Except.ok.inj hconf
  obtain ⟨b', hrun, hindex⟩ := hcounts [] (.packet length) (List.prefix_refl _)
  obtain rfl := Except.ok.inj hrun
  obtain ⟨i, hi, -, hlt⟩ := hindex ⟨hlength ▸ h.le, hlength.le⟩
  rw [hlength, toInt_natCast h.max_lt] at hi
  have hcovered : (max.toNat : Int) < min.toNat + bin.toNat * _ :=
    covered_of_index (Int.natCast_pos.mpr h.pos) (Int.ofNat_le.mpr h.le) hi hlt
  have hmul := Nat.mul_div_le (max.toNat - min.toNat) bin.toNat
  have hle := h.le
  simp only [wholeBins, List.length_replicate] at hcovered
  have hcast : max.toNat < min.toNat + bin.toNat * ((max.toNat - min.toNat) / bin.toNat) := by exact_mod_cast hcovered
  omega

end Runs

end CDFGenerator

open CDFGenerator

/-- Every packet in range is counted once in a bin of the histogram, and the last number printed is theirs, for all events that fit. -/
theorem cdfGenerator_counts (noise : Nat → Int) (min max bin : UInt32) (epsilon : ℚ) (b : CDFGenerator) (events : List CDFEvent)
    (hconf : configure min max bin epsilon = .ok b) (hle : min ≤ max) (hepsilon : epsilon ≤ 0) (hfits : Fits min max b events) :
    Counts noise min max b events := by
  obtain ⟨hconfigured, hmin, hmax, -, hepsilon'⟩ := configure_eq hconf
  intro before e hpre
  have hfits' : Fits min max b (before ++ [e]) := by
    obtain ⟨rest, rfl⟩ := hpre
    exact hfits.before
  obtain ⟨b', hrun, hholds⟩ := holds_run hconf hle hepsilon before hfits'.before
  have hevent := hfits before e hpre
  refine ⟨b', hrun, ?_⟩
  cases e with
  | packet length =>
    rw [since_packet] at hevent
    exact (hholds.packet hmin hmax hle hevent.1 hevent.2).1
  | timer =>
    obtain ⟨printed, b'', htimer, -, hlast⟩ := hholds.timer noise hconfigured (hepsilon'.trans_le hepsilon)
    exact ⟨printed, b'', htimer, hlast hevent⟩

/-- Two packets and a timer event, the shortest length and one in the last bin. -/
theorem cdfGenerator_counts_two : ∃ b, configure 0 1500 150 0 = .ok b ∧
    Counts (fun _ => 0) 0 1500 b [.packet 0, .packet 1499, .timer] := by
  have h : Ordinary 0 1500 150 := ⟨by decide, by decide, by decide, by decide⟩
  refine ⟨_, h.configured 0, cdfGenerator_counts _ _ _ _ _ _ _ (h.configured 0) (by decide) le_rfl ?_⟩
  refine ((Fits.nil.packet (covered_wholeBins ?_ ?_) ?_).packet (covered_wholeBins ?_ ?_) ?_).timer ?_
  all_goals decide

/-- The range and the width of the documented example: one packet of the largest size. -/
theorem cdfGenerator_miscounts_max : ∃ b, configure 0 1500 150 0 = .ok b ∧ ¬Counts (fun _ => 0) 0 1500 b [.packet 1500] := by
  have h : Ordinary 0 1500 150 := ⟨by decide, by decide, by decide, by decide⟩
  exact ⟨_, h.configured 0, h.not_counts_max (h.configured 0) rfl⟩

end Blockmon
