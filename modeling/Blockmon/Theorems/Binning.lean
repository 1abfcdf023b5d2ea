import Blockmon.Lemmas.Binning
import Blockmon.Lib.Count

/-!
# Binning loses nothing

Each value that is not filtered is counted in the one bin that it lies in, provided that its feature has two edges at least, and the bins of a
histogram then sum to the number of the values, as long as the counter of no bin wraps around. How many edges there are is known from the
configuration: none for the maximum 0, one for a single class with zero filtering.
-/

namespace Blockmon.StatAD

open HistoCalc

namespace Binning

/-! ## What is counted -/

/-- The values of a feature in the tickets, without the zeros that are filtered. -/
def countedValues (flag0 : Bool) (f : String) (ts : List TicketMsg) : List UInt64 :=
  (ts.filterMap fun t => t.featurePairs.find? f).filter fun v => ¬(flag0 = true ∧ v = 0)

/-- The tickets of an interval, from empty histograms on. -/
def fill (config : Config) (ts : List TicketMsg) : Except Fault (OrdMap String HistoEntry) :=
  ts.foldlM (fun ht t => insertElements config t.userID t.featurePairs.entries ht) (insertDummyElements config OrdMap.empty)

/-- The sum of the bins. -/
def binSum (entry : HistoEntry) : Nat := (entry.histogram.map UInt32.toNat).sum

/-- A value adds one to the one bin that it lies in, a filtered zero nothing. -/
def CountsOnce (flag0 : Bool) (info : FeatInfo) (value : Option UInt64) (entry entry' : HistoEntry) : Prop :=
  match value with
  | none => entry' = entry
  | some v =>
    if flag0 = true ∧ v = 0 then entry' = entry
    else ∃ i n, (∀ j, InBin info.edges v j ↔ j = i) ∧ entry.histogram[i]? = some n ∧ entry'.histogram = entry.histogram.set i (n + 1)

/-- Whatever the table of the configured features holds, a ticket is counted in it without a fault; and the bins sum to what is counted. -/
structure LosesNothing (config : Config) (ts : List TicketMsg) : Prop where
  step : ∀ ht E, Holds config ht E → Sized config E → ∀ t : TicketMsg,
    ∃ ht' E', insertElements config t.userID t.featurePairs.entries ht = .ok ht' ∧ Holds config ht' E' ∧
      ∀ f info, config.featInfoMap.find? f = some info → CountsOnce config.flag0 info (t.featurePairs.find? f) (E f info) (E' f info)
  sums : ∃ ht, fill config ts = .ok ht ∧ ∀ f info, config.featInfoMap.find? f = some info →
    ∃ entry, ht.find? f = some entry ∧ binSum entry = (countedValues config.flag0 f ts).length

/-- The condition on a maximum: a class at least, two with zero filtering; and if the search ends without their number, the same of its result. -/
structure Enough {α : Type} (L : Libm α) (maxVal : UInt32) (nClassMax : UInt16) (flag0 : Bool) : Prop where
  max : maxVal ≠ 0
  wanted : 1 + flag0.toNat ≤ min nClassMax.toNat maxVal.toNat
  found : ¬Converges L maxVal.toUInt64 nClassMax →
    2 + flag0.toNat ≤ (found L maxVal.toUInt64 nClassMax).length ∧ (found L maxVal.toUInt64 nClassMax).length ≤ 2 ^ 16 + flag0.toNat

/-! ## The bins -/

/-- A value lies in one bin only. -/
theorem inBin_unique {edges : List UInt64} (hsorted : edges.Pairwise (· < ·)) {v : UInt64} {i j : Nat} (hi : InBin edges v i)
    (hj : InBin edges v j) : i = j := by
  have hnot : ∀ {i j : Nat}, InBin edges v i → InBin edges v j → ¬i < j := by
    rintro i j ⟨-, hi, -, hedge, -, hbelow⟩ ⟨lo, hi', hlo, hlast, hle, -⟩ hlt
    obtain ⟨hlen, rfl⟩ := List.getElem?_eq_some_iff.mp hedge
    obtain ⟨hlen', rfl⟩ := List.getElem?_eq_some_iff.mp hlo
    have hlen'' := (List.getElem?_eq_some_iff.mp hlast).1
    rcases hbelow with hv | hlast
    · -- the upper edge of the first bin is not above the lower one of the second
      rcases Nat.eq_or_lt_of_le (Nat.succ_le_of_lt hlt) with heq | hgt
      · simp only [← heq] at hle
        exact absurd hv (UInt64.not_lt.mpr hle)
      · have hedges := List.pairwise_iff_getElem.mp hsorted (i + 1) j hlen hlen' hgt
        exact UInt64.lt_irrefl _ (UInt64.lt_trans hedges (UInt64.lt_of_le_of_lt hle hv))
    · omega
  exact Nat.le_antisymm (Nat.not_lt.mp (hnot hj hi)) (Nat.not_lt.mp (hnot hi hj))

section Counted

variable {flag0 : Bool} {info : FeatInfo} {f : String}

/-- What one more ticket adds to the values that count. -/
theorem countedValues_concat (ts : List TicketMsg) (t : TicketMsg) : countedValues flag0 f (ts ++ [t]) =
    countedValues flag0 f ts ++ ((t.featurePairs.find? f).toList.filter fun v => ¬(flag0 = true ∧ v = 0)) := by
  rw [countedValues, List.filterMap_append, List.filter_append, countedValues]
  cases hfind : t.featurePairs.find? f <;> simp [hfind]

/-- Each bin counts its values, modulo 2^32. -/
theorem getElem?_entryOf (ts : List TicketMsg) {i : Nat} (hi : i < info.histoDim.toNat) : (entryOf flag0 f info ts).histogram[i]? =
    some (UInt32.ofNat ((countedValues flag0 f ts).countP fun v => binOf v info.edges = i)) := by
  induction ts using List.reverseRecOn with
  | nil => exact List.getElem?_replicate_of_lt hi
  | append_singleton ts t ih =>
    rw [entryOf, List.foldl_concat, ← entryOf, countTicket, countedValues_concat, List.countP_append]
    cases t.featurePairs.find? f with
    | none => exact ih
    | some v =>
      dsimp only [Option.toList_some]
      by_cases hzero : flag0 = true ∧ v = 0
      · rw [countValue, if_pos hzero]
        simpa [hzero] using ih
      · rw [countValue, if_neg hzero, List.filter_cons, if_pos (decide_eq_true hzero), List.filter_nil, count]
        dsimp only
        rw [List.getElem?_modify, ih, List.countP_singleton]
        by_cases hbin : binOf v info.edges = i
        · simp [hbin, UInt32.ofNat_add]
        · simp [hbin]

/-- The sum over the bins of a feature, each modulo `2^32`. -/
theorem binSum_entryOf (ts : List TicketMsg) : binSum (entryOf flag0 f info ts) =
    ∑ i ∈ Finset.range info.histoDim.toNat, ((countedValues flag0 f ts).countP fun v => binOf v info.edges = i) % 2 ^ 32 := by
  have hbins : (entryOf flag0 f info ts).histogram.map UInt32.toNat = (List.range info.histoDim.toNat).map fun i =>
      ((countedValues flag0 f ts).countP fun v => binOf v info.edges = i) % 2 ^ 32 := by
    refine List.ext_getElem? fun i => ?_
    rw [List.getElem?_map, List.getElem?_map]
    by_cases hi : i < info.histoDim.toNat
    · rw [getElem?_entryOf ts hi, List.getElem?_range hi, Option.map_some, Option.map_some, UInt32.toNat_ofNat']
    · rw [List.getElem?_eq_none (by rw [length_entryOf]; exact Nat.not_lt.mp hi),
        List.getElem?_eq_none (by rw [List.length_range]; exact Nat.not_lt.mp hi)]
      rfl
  rw [binSum, hbins]
  rfl

/-- The bins sum to the number of the values exactly if none of their counters has wrapped around. -/
theorem binSum_eq_iff (hinfo : Binned flag0 info) (hlen : 2 ≤ info.edges.length) (hle : info.edges.length ≤ 2 ^ 16) (ts : List TicketMsg) :
    binSum (entryOf flag0 f info ts) = (countedValues flag0 f ts).length ↔
      ∀ i, ((countedValues flag0 f ts).countP fun v => binOf v info.edges = i) < 2 ^ 32 := by
  have hdim := hinfo.histoDim_add_one hlen hle
  obtain ⟨lo, hlo, hle⟩ := hinfo.low hlen
  have hbins : ∀ v ∈ countedValues flag0 f ts, binOf v info.edges < info.histoDim.toNat := by
    intro v hv
    have hcounted : ¬(flag0 = true ∧ v = 0) := of_decide_eq_true (List.mem_filter.mp hv).2
    have hlt := binOf_lt hlen hlo (hle v hcounted)
    omega
  rw [binSum_entryOf, ← Count.sum_countP_class hbins, Count.sum_mod_eq_iff (by decide)]
  refine ⟨fun h i => ?_, fun h i _ => h i⟩
  by_cases hi : i < info.histoDim.toNat
  · exact h i hi
  · -- no value lies there
    have hzero : ((countedValues flag0 f ts).countP fun v => binOf v info.edges = i) = 0 := by
      refine List.countP_eq_zero.mpr fun v hv heq => hi ?_
      rw [← of_decide_eq_true heq]
      exact hbins v hv
    rw [hzero]
    decide

end Counted

/-! ## Tickets -/

section Tickets

variable {config : Config} {ht : OrdMap String HistoEntry} {E : String → FeatInfo → HistoEntry}

/-- A ticket whose feature has two edges or more counts once. -/
theorem countsOnce_countTicket {f : String} {info : FeatInfo} {flag0 : Bool} (hinfo : Binned flag0 info) (hlen : 2 ≤ info.edges.length)
    (hle' : info.edges.length ≤ 2 ^ 16) (hsorted : info.edges.Pairwise (· < ·)) {entry : HistoEntry} (hsized : entry.histogram.length = info.histoDim.toNat) (t : TicketMsg) :
    CountsOnce flag0 info (t.featurePairs.find? f) entry (countTicket flag0 f info entry t) := by
  rw [countTicket]
  cases t.featurePairs.find? f with
  | none => rfl
  | some v =>
    rw [CountsOnce]
    dsimp only
    by_cases hzero : flag0 = true ∧ v = 0
    · rw [if_pos hzero, countValue, if_pos hzero]
    · obtain ⟨lo, hlo, hle⟩ := hinfo.low hlen
      have hin := inBin_binOf hlen hlo (hle v hzero)
      have hlt := binOf_lt hlen hlo (hle v hzero)
      have hdim := hinfo.histoDim_add_one hlen hle'
      have hget : binOf v info.edges < entry.histogram.length := by omega
      rw [if_neg hzero, countValue, if_neg hzero]
      refine ⟨binOf v info.edges, entry.histogram[binOf v info.edges], fun j => ⟨fun hj => inBin_unique hsorted hj hin, fun hj => hj ▸ hin⟩,
        List.getElem?_eq_getElem hget, ?_⟩
      rw [count, List.modify_eq_set, List.getElem?_eq_getElem hget]
      rfl

/-- A fill with tickets leaves, for each feature, the entry of the tickets. -/
theorem fill_ok (hsound : Config.Sound config) (hbin : ∀ feat, Binnable config feat) (ts : List TicketMsg) :
    ∃ ht, fill config ts = .ok ht ∧ Holds config ht fun f info => entryOf config.flag0 f info ts := by
  induction ts using List.reverseRecOn with
  | nil => exact ⟨_, rfl, holds_dummies config⟩
  | append_singleton ts t ih =>
    obtain ⟨ht, hfill, hht⟩ := ih
    obtain ⟨ht', hinsert, hht'⟩ := insertElements_ticket hsound (t := t) (fun feat _ => hbin feat) hht fun f info _ => length_entryOf f ts
    refine ⟨ht', ?_, fun f => ?_⟩
    · rw [fill, List.foldlM_append, ← fill, hfill, Exn.except_bind_of_ok rfl, List.foldlM_cons, Exn.except_bind_of_ok hinsert]
      rfl
    · rw [hht' f]
      congr 1
      funext info
      exact (List.foldl_concat ..).symm

end Tickets

/-! ## The condition -/

section Configured

variable {α : Type} {L : Libm α}

/-- A binning function has edges enough when they are two at least and not more than `2^16`. -/
theorem enough_iff (hL : L.Lawful) (maxVal : UInt32) (nClassMax : UInt16) (flag0 : Bool) : Enough L maxVal nClassMax flag0 ↔
    2 ≤ (binningFunction L maxVal.toUInt64 nClassMax flag0).edges.length ∧
      (binningFunction L maxVal.toUInt64 nClassMax flag0).edges.length ≤ 2 ^ 16 := by
  have hflag : flag0.toNat ≤ 1 := Bool.toNat_le flag0
  have hwanted := toNat_wanted maxVal nClassMax
  have hle : min nClassMax.toNat maxVal.toNat < 2 ^ 16 := lt_of_le_of_lt (Nat.min_le_left _ _) nClassMax.toNat_lt
  by_cases hmax : maxVal = 0
  · subst hmax
    refine ⟨fun h => absurd rfl h.max, fun h => ?_⟩
    rw [binningFunction, if_pos (by rfl)] at h
    cases flag0 <;> simp at h
  have hmax' : maxVal.toUInt64 ≠ 0 := by
    intro h
    have hnat := congrArg UInt64.toNat h
    rw [UInt32.toNat_toUInt64] at hnat
    exact hmax (UInt32.toNat_inj.mp hnat)
  rw [binningFunction_eq hmax', length_edges_featInfoOf]
  by_cases hconv : Converges L maxVal.toUInt64 nClassMax
  · have hfound := length_found hconv
    rw [hwanted] at hfound
    rw [hfound]
    refine ⟨fun h => ?_, fun h => ⟨hmax, ?_, fun hnot => absurd hconv hnot⟩⟩
    · have := h.wanted
      omega
    · omega
  · have hmany : ¬(wanted maxVal.toUInt64 nClassMax).toNat ≤ 1 := fun h => hconv (converges_of_wanted_le hL h)
    rw [hwanted] at hmany
    refine ⟨fun h => ?_, fun h => ⟨hmax, by omega, fun _ => ?_⟩⟩
    · have := h.found hconv
      omega
    · omega

/-- A ticket with the largest value of a feature is counted in the last bin. -/
theorem length_edges_of_losesNothing {timescale maxNrBins : UInt32} {flag0 : Bool} {features : List (String × UInt32)} {ts : List TicketMsg}
    (h : LosesNothing (configure L timescale maxNrBins flag0 features) ts) {p : String × UInt32}
    (hp : (features.find? fun q => q.1 = p.1) = some p) :
    2 ≤ (binningFunction L p.2.toUInt64 maxNrBins.toUInt16 flag0).edges.length ∧
      (binningFunction L p.2.toUInt64 maxNrBins.toUInt16 flag0).edges.length ≤ 2 ^ 16 := by
  have hinfo : (configure L timescale maxNrBins flag0 features).featInfoMap.find? p.1 =
      some (binningFunction L p.2.toUInt64 maxNrBins.toUInt16 flag0) := by
    rw [find?_configure, hp, Option.map_some]
  obtain ⟨ht', E', -, -, hcounts⟩ := h.step _ _ (holds_dummies _) (fun f info _ => List.length_replicate)
    ((TicketMsg.new 1 1).addFeature p.1 18446744073709551615)
  have hcount := hcounts p.1 _ hinfo
  have hfind : ((TicketMsg.new 1 1).addFeature p.1 18446744073709551615).featurePairs.find? p.1 = some 18446744073709551615 := by
    rw [TicketMsg.addFeature, OrdMap.find?_insert]
    simp [TicketMsg.new, OrdMap.find?_empty]
  rw [hfind, CountsOnce, if_neg fun hzero => absurd hzero.2 (by decide)] at hcount
  obtain ⟨i, n, hin, hget, -⟩ := hcount
  obtain ⟨lo, hi, -, hhi, -, hlast⟩ := (hin i).mpr rfl
  have hlt := (List.getElem?_eq_some_iff.mp hhi).1
  have hlen : 2 ≤ (binningFunction L p.2.toUInt64 maxNrBins.toUInt16 flag0).edges.length := by omega
  -- nothing is above the largest value
  have hlast' : i + 2 = (binningFunction L p.2.toUInt64 maxNrBins.toUInt16 flag0).edges.length := by
    rcases hlast with hbelow | hlast
    · rw [UInt64.lt_iff_toNat_lt] at hbelow
      change 18446744073709551615 < hi.toNat at hbelow
      have := hi.toNat_lt
      omega
    · exact hlast
  have hbin := (List.getElem?_eq_some_iff.mp hget).1
  rw [dummy, List.length_replicate, histoDim_binningFunction hlen] at hbin
  refine ⟨hlen, ?_⟩
  omega

end Configured

end Binning

open Binning

/-- No ticket is lost just when every configured feature has edges enough and no bin wraps. -/
theorem insertElements_loses_nothing {α : Type} {L : Libm α} (hL : L.Lawful) (timescale maxNrBins : UInt32) (flag0 : Bool)
    (features : List (String × UInt32)) (ts : List TicketMsg) :
    let config := Binning.configure L timescale maxNrBins flag0 features
    LosesNothing config ts ↔
      (∀ p, (features.find? fun q => q.1 = p.1) = some p → Enough L p.2 maxNrBins.toUInt16 flag0) ∧
        ∀ f info, config.featInfoMap.find? f = some info → ∀ i, ((countedValues flag0 f ts).countP fun v => binOf v info.edges = i) < 2 ^ 32 := by
  intro config
  -- a configured feature is the first one of its name
  have hfeature : ∀ f info, config.featInfoMap.find? f = some info → ∃ p, (features.find? fun q => q.1 = p.1) = some p ∧
      info = Binning.binningFunction L p.2.toUInt64 maxNrBins.toUInt16 flag0 := by
    intro f info hfind
    rw [find?_configure] at hfind
    obtain ⟨p, hp, rfl⟩ := Option.map_eq_some_iff.mp hfind
    have hname : p.1 = f := by simpa using List.find?_some hp
    exact ⟨p, by rw [hname]; exact hp, rfl⟩
  have hof : (∀ p, (features.find? fun q => q.1 = p.1) = some p → Enough L p.2 maxNrBins.toUInt16 flag0) →
      (∀ f info, config.featInfoMap.find? f = some info → Binned flag0 info ∧
        (2 ≤ info.edges.length ∧ info.edges.length ≤ 2 ^ 16) ∧ info.edges.Pairwise (· < ·)) := by
    intro henough f info hfind
    obtain ⟨p, hp, rfl⟩ := hfeature f info hfind
    obtain ⟨hlen, hle⟩ := (enough_iff hL p.2 _ flag0).mp (henough p hp)
    exact ⟨binned hL _ _ _, ⟨hlen, hle⟩, pairwise_edges hL _ _ _⟩
  have hsums : (∀ p, (features.find? fun q => q.1 = p.1) = some p → Enough L p.2 maxNrBins.toUInt16 flag0) →
      ∃ ht, fill config ts = .ok ht ∧ Holds config ht fun f info => entryOf flag0 f info ts := fun henough =>
    fill_ok (fun f info hfind => (hof henough f info hfind).1) (fun feat info hfind => Or.inr (hof henough feat.1 info hfind).2.1) ts
  refine ⟨fun h => ?_, fun ⟨henough, hfits⟩ => ⟨fun ht E hht hsized t => ?_, ?_⟩⟩
  · have henough : ∀ p, (features.find? fun q => q.1 = p.1) = some p → Enough L p.2 maxNrBins.toUInt16 flag0 :=
      fun p hp => (enough_iff hL p.2 _ flag0).mpr (length_edges_of_losesNothing h hp)
    refine ⟨henough, fun f info hfind => ?_⟩
    obtain ⟨hbinned, hlen, -⟩ := hof henough f info hfind
    obtain ⟨ht, hfill, hentries⟩ := h.sums
    obtain ⟨ht', hfill', hht'⟩ := hsums henough
    obtain rfl : ht = ht' := Except.ok.inj (hfill.symm.trans hfill')
    obtain ⟨entry, hentry, hsum⟩ := hentries f info hfind
    rw [hht' f, hfind, Option.map_some] at hentry
    obtain rfl := Option.some.inj hentry
    exact (binSum_eq_iff hbinned hlen.1 hlen.2 ts).mp hsum
  · obtain ⟨ht', hinsert, hht'⟩ := insertElements_ticket (fun f info hfind => (hof henough f info hfind).1) (t := t)
      (fun feat _ info hfind => Or.inr (hof henough feat.1 info hfind).2.1) hht hsized
    refine ⟨ht', _, hinsert, hht', fun f info hfind => ?_⟩
    obtain ⟨hbinned, hlen, hsorted⟩ := hof henough f info hfind
    exact countsOnce_countTicket hbinned hlen.1 hlen.2 hsorted (hsized f info hfind) t
  · obtain ⟨ht, hfill, hht⟩ := hsums henough
    refine ⟨ht, hfill, fun f info hfind => ?_⟩
    obtain ⟨hbinned, hlen, -⟩ := hof henough f info hfind
    refine ⟨entryOf flag0 f info ts, by rw [hht f, hfind]; rfl, ?_⟩
    exact (binSum_eq_iff hbinned hlen.1 hlen.2 ts).mpr (hfits f info hfind)

/-- Whole numbers in the place of `double`, exact where the results are whole. -/
def integral : Libm Int where
  ofInt := id
  add := (· + ·)
  div := (· / ·)
  pow x y := x ^ y.toNat
  log x := Nat.log2 x.toNat
  le x y := x ≤ y
  ceil := id
  floor x := UInt64.ofNat (min x.toNat (2 ^ 64 - 1))

/-- A `libm` on whole numbers is lawful. -/
theorem lawful_integral : integral.Lawful where
  le_trans x y z hxy hyz := by
    simp only [integral, decide_eq_true_eq] at hxy hyz ⊢
    exact hxy.trans hyz
  le_total x y := by
    simp only [integral, Bool.or_eq_true, decide_eq_true_eq]
    exact le_total x y
  floor_mono x y hxy := by
    simp only [integral, decide_eq_true_eq] at hxy ⊢
    rw [UInt64.le_iff_toNat_le, UInt64.toNat_ofNat', UInt64.toNat_ofNat']
    omega
  floor_zero := rfl
  floor_one := rfl
  pow_zero x := by simp [integral]

/-- The edges 0, 1 and 2 for the maximum 2, of which the first is removed. -/
theorem insertElements_loses_nothing_two :
    LosesNothing (Binning.configure integral 1 2 true [("f", 2)]) [(TicketMsg.new 60 1).addFeature "f" 2] := by
  have hbins : uniqueFloor integral (binsf integral (firstVars integral 2 2).b 2) = [0, 1, 2] := by
    simp [uniqueFloor, binsf, firstVars, integral, List.range_succ, List.mergeSort_of_pairwise]
  refine (insertElements_loses_nothing lawful_integral 1 2 true [("f", 2)] [(TicketMsg.new 60 1).addFeature "f" 2]).mpr
    ⟨fun p hp => ?_, fun f info _ i => ?_⟩
  · obtain rfl : p = ("f", 2) := by simpa using List.mem_of_find?_eq_some hp
    refine ⟨by decide, by decide, fun hnot => absurd ?_ hnot⟩
    have hscarto : (firstVars integral 2 2).scarto = 0 := congrArg (scartoOf 2) hbins
    change (loop integral 2 2 (firstVars integral 2 2)).cont ≤ maxIter
    rw [loop, if_neg fun h => h.1 hscarto]
    exact Nat.zero_le _
  · refine lt_of_le_of_lt (List.countP_le_length.trans ?_) (by decide : 1 < 2 ^ 32)
    exact (List.length_filter_le _ _).trans (List.length_filterMap_le _ _)

/-- The maximum 0 has an edge and no bin, a single class with zero filtering as well; without an edge the vector is left. -/
theorem insertElements_no_bin :
    ¬LosesNothing (Binning.configure integral 1 80 false [("f", 0)]) [(TicketMsg.new 60 1).addFeature "f" 0] ∧
      ¬LosesNothing (Binning.configure integral 1 80 true [("f", 1)]) [(TicketMsg.new 60 1).addFeature "f" 1] ∧
        fill (Binning.configure integral 1 80 true [("f", 0)]) [(TicketMsg.new 60 1).addFeature "f" 1] = .error .outOfBounds := by
  refine ⟨fun h => ?_, fun h => ?_, ?_⟩
  · obtain ⟨hlen, -⟩ := length_edges_of_losesNothing h (p := ("f", 0)) rfl
    simp [Binning.binningFunction] at hlen
  · have hlen := (enough_iff lawful_integral 1 80 true).mpr (length_edges_of_losesNothing h (p := ("f", 1)) rfl)
    exact absurd hlen.wanted (by decide)
  · rfl

end Blockmon.StatAD
