import Blockmon.Lemmas.HistoCalc

/-!
# The series of histograms

From the first ticket on, each configured feature has one histogram for every interval, without a gap, and every ticket is counted in the
earliest of them that has not been sent and does not end before the ticket. For a feature without a bin this fails: with the maximum 0 and
zero filtering there are no edges either, and the loop over them leaves the vector.
-/

namespace Blockmon.StatAD

namespace HistoCalc

/-- The intervals of the tickets. -/
def slots (config : Config) (t0 : Nat) (ts : List TicketMsg) : List (Nat × TicketMsg) :=
  Series.assigned t0 (60 * config.timescale.toNat) (fun t => t.timestamp.toNat) 0 ts

/-- The number of intervals that the tickets close. -/
def closedBy (config : Config) (t0 : Nat) (ts : List TicketMsg) : Nat :=
  Series.closed t0 (60 * config.timescale.toNat) (fun t => t.timestamp.toNat) 0 ts

/-- The histogram of a feature in an interval. -/
def histogramOf (config : Config) (t0 : Nat) (ts : List TicketMsg) (i : Nat) (f : String) (info : FeatInfo) : HistoEntry :=
  entryOf config.flag0 f info (Series.bucket (slots config t0 ts) i)

section Run

variable {config : Config} {t0 : Nat} {ts : List TicketMsg} {t : TicketMsg}

/-- The last ticket has the last slot. -/
theorem slots_concat (config : Config) (t0 : Nat) (ts : List TicketMsg) (t : TicketMsg) :
    slots config t0 (ts ++ [t]) = slots config t0 ts ++ [(closedBy config t0 (ts ++ [t]), t)] := by
  rw [slots, Series.assigned_concat, closedBy, Series.closed_concat]
  rfl

/-- The last ticket is counted in the open interval. -/
theorem histogramOf_concat_self (config : Config) (t0 : Nat) (ts : List TicketMsg) (t : TicketMsg) (f : String) (info : FeatInfo) :
    histogramOf config t0 (ts ++ [t]) (closedBy config t0 (ts ++ [t])) f info =
      countTicket config.flag0 f info (histogramOf config t0 ts (closedBy config t0 (ts ++ [t])) f info) t := by
  rw [histogramOf, slots_concat, Series.bucket_concat_self, entryOf, List.foldl_concat]
  rfl

/-- The closed intervals do not change. -/
theorem histogramOf_concat_of_ne (ts : List TicketMsg) (t : TicketMsg) {i : Nat} (hi : i ≠ closedBy config t0 (ts ++ [t])) :
    histogramOf config t0 (ts ++ [t]) i = histogramOf config t0 ts i := by
  funext f info
  rw [histogramOf, slots_concat, Series.bucket_concat_of_ne hi.symm]
  rfl

/-- An interval after the open one has no tickets yet. -/
theorem histogramOf_of_lt {i : Nat} (hi : closedBy config t0 ts < i) : histogramOf config t0 ts i = fun _ info => dummy info := by
  funext f info
  have hle := Series.fst_le_closed t0 (60 * config.timescale.toNat) (fun t : TicketMsg => t.timestamp.toNat) 0 ts
  rw [histogramOf, slots, Series.bucket_of_lt hle hi]
  rfl

/-- The histograms have their sizes. -/
theorem sized_histogramOf (config : Config) (t0 : Nat) (ts : List TicketMsg) (i : Nat) : Sized config (histogramOf config t0 ts i) :=
  fun _ _ _ => length_entryOf _ _

/-- A signalling ticket adds nothing. -/
theorem countTicket_signalling (ht : t.Signalling) (flag0 : Bool) (f : String) (info : FeatInfo) (entry : HistoEntry) :
    countTicket flag0 f info entry t = entry := by
  have hnil : t.featurePairs.entries = [] := List.length_eq_zero_iff.mp ht.2
  simp [countTicket, OrdMap.find?, hnil]

/-- The block after the tickets `ts`, and what it has sent. -/
structure Reached (config : Config) (t0 : Nat) (ts : List TicketMsg) (b : HistoCalc) (out : List HistoMsg) : Prop where
  kept : b.config = config
  time : b.currentAggTime.toNat = t0 + closedBy config t0 ts * (60 * config.timescale.toNat)
  table : Holds config b.histoHt (histogramOf config t0 ts (closedBy config t0 ts))
  sent : ∀ f, (out.filter fun m => m.featureID = f) =
    series config t0 (60 * config.timescale.toNat) (histogramOf config t0 ts) f 0 (closedBy config t0 ts)

/-- A series depends on its intervals only. -/
theorem series_congr {step n len : Nat} {E E' : Nat → String → FeatInfo → HistoEntry}
    (h : ∀ i, n ≤ i → i < n + len → E i = E' i) (f : String) :
    series config t0 step E f n len = series config t0 step E' f n len := by
  rw [series, series]
  refine List.flatMap_congr fun i hi => ?_
  rw [List.mem_range'_1] at hi
  rw [h i hi.1 hi.2]

/-- A series in two parts. -/
theorem series_append (step : Nat) (E : Nat → String → FeatInfo → HistoEntry) (f : String) (n len : Nat) :
    series config t0 step E f 0 n ++ series config t0 step E f n len = series config t0 step E f 0 (n + len) := by
  have hrange := @List.range'_append 0 n len 1
  rw [Nat.one_mul, Nat.zero_add] at hrange
  rw [series, series, series, ← List.flatMap_append, hrange]

/-- The start is set once. -/
theorem start_eq {b : HistoCalc} (h : b.currentAggTime ≠ 0) (timeNow : UInt64) : b.start timeNow = b := if_neg h

/-- The number of the closed intervals grows. -/
theorem closedBy_le (config : Config) (t0 : Nat) (ts : List TicketMsg) (t : TicketMsg) :
    closedBy config t0 ts ≤ closedBy config t0 (ts ++ [t]) := by
  rw [closedBy, closedBy, Series.closed_concat]
  exact Series.le_slot _ _ _ _

/-- The first ticket sets the time that the series begins at. -/
theorem reached_start (config : Config) (t : TicketMsg) : Reached config t.timestamp.toNat [] ((new config).start t.timestamp) [] := by
  refine ⟨rfl, ?_, holds_dummies config, fun f => rfl⟩
  change t.timestamp.toNat = t.timestamp.toNat + 0 * _
  rw [Nat.zero_mul, Nat.add_zero]

/-- The first ticket sets the start. -/
theorem receiveMsg_new (order : VisitOrder (String × HistoEntry)) (config : Config) (ht : 1 ≤ t.timestamp.toNat)
    (fuel : Nat) : receiveMsg order fuel (new config) t = receiveMsg order fuel ((new config).start t.timestamp) t := by
  have hne : ((new config).start t.timestamp).currentAggTime ≠ 0 := by
    intro h
    have hzero : t.timestamp = 0 := h
    rw [hzero] at ht
    exact absurd ht (by decide)
  rw [receiveMsg, receiveMsg, start_eq hne]

variable (order : VisitOrder (String × HistoEntry)) (hsound : Config.Sound config) (hscale : 1 ≤ config.timescale.toNat)
  (hscale' : 60 * config.timescale.toNat < 2 ^ 32) (ht0 : 1 ≤ t0)

include hsound hscale hscale' ht0

/-- One more ticket. -/
theorem reached_receiveMsg {b : HistoCalc} {out : List HistoMsg} (hb : Reached config t0 ts b out)
    (hbin : ∀ feat ∈ t.featurePairs.entries, Binnable config feat)
    (hwrap : t0 + closedBy config t0 (ts ++ [t]) * (60 * config.timescale.toNat) < 2 ^ 64) :
    ∃ b' out', Fuel.Returns (fun fuel => receiveMsg order fuel b t) (b', out') ∧ Reached config t0 (ts ++ [t]) b' (out ++ out') := by
  have hle := closedBy_le config t0 ts t
  have hslot : Series.slot t0 (60 * config.timescale.toNat) (closedBy config t0 ts) t.timestamp.toNat = closedBy config t0 (ts ++ [t]) :=
    (Series.closed_concat _ _ _ _ _ _).symm
  have hd : closedBy config t0 ts + (closedBy config t0 (ts ++ [t]) - closedBy config t0 ts) = closedBy config t0 (ts ++ [t]) :=
    Nat.add_sub_cancel' hle
  have hstarted : b.currentAggTime ≠ 0 := by
    intro h
    have htime := hb.time
    rw [h] at htime
    simp at htime
    omega
  obtain ⟨b', out', hfill, hconfig, htime, htable, hsent⟩ := fillHoles_ok order hscale hscale' rfl hwrap _ hd hslot
    (fun i hi => histogramOf_of_lt hi) hb.kept hb.time hb.table
  -- what has been sent does not change any more
  have hsent' : ∀ f, ((out ++ out').filter fun m => m.featureID = f) =
      series config t0 (60 * config.timescale.toNat) (histogramOf config t0 (ts ++ [t])) f 0 (closedBy config t0 (ts ++ [t])) := by
    intro f
    rw [List.filter_append, hb.sent f, hsent f, series_append, hd]
    refine series_congr (fun i _ hi => ?_) f
    exact (histogramOf_concat_of_ne ts t (by omega)).symm
  by_cases hsignal : t.Signalling
  · refine ⟨b', out', ⟨closedBy config t0 (ts ++ [t]) - closedBy config t0 ts + 1, fun fuel hfuel => ?_⟩, hconfig, htime, fun f => ?_, hsent'⟩
    · dsimp only
      rw [receiveMsg, start_eq hstarted, Exn.except_bind_of_ok (hfill fuel hfuel), if_pos hsignal]
    · rw [htable f]
      congr 1
      funext info
      rw [histogramOf_concat_self, countTicket_signalling hsignal]
  · obtain ⟨ht', hinsert, hht'⟩ := insertElements_ticket hsound hbin htable (sized_histogramOf config t0 ts _)
    rw [← hconfig] at hinsert
    refine ⟨{ config := b'.config, currentAggTime := b'.currentAggTime, histoHt := ht' }, out',
      ⟨closedBy config t0 (ts ++ [t]) - closedBy config t0 ts + 1, fun fuel hfuel => ?_⟩, hconfig, htime,
      fun f => ?_, hsent'⟩
    · dsimp only
      rw [receiveMsg, start_eq hstarted, Exn.except_bind_of_ok (hfill fuel hfuel), if_neg hsignal, Exn.except_bind_of_ok hinsert]
    · rw [hht' f]
      congr 1
      funext info
      rw [histogramOf_concat_self]

/-- Tickets lead from one reached state to another. -/
theorem reached_receiveMsgs (ts : List TicketMsg) {ts' : List TicketMsg} (hbin : ∀ t ∈ ts', ∀ feat ∈ t.featurePairs.entries, Binnable config feat)
    (hwrap : ∀ p ∈ slots config t0 (ts ++ ts'), t0 + p.1 * (60 * config.timescale.toNat) < 2 ^ 64) {b : HistoCalc} {out : List HistoMsg}
    (hb : Reached config t0 ts b out) :
    ∃ b' out', Fuel.Returns (fun fuel => receiveMsgs order fuel ts' b) (b', out') ∧ Reached config t0 (ts ++ ts') b' (out ++ out') := by
  induction ts' generalizing ts b out with
  | nil =>
    rw [List.append_nil]
    exact ⟨b, [], Fuel.returns_const _ rfl, by rw [List.append_nil]; exact hb⟩
  | cons t ts' ih =>
    obtain ⟨hfirst, hbin⟩ := List.forall_mem_cons.mp hbin
    rw [List.append_cons] at hwrap ⊢
    have hwrap' : t0 + closedBy config t0 (ts ++ [t]) * (60 * config.timescale.toNat) < 2 ^ 64 := by
      refine hwrap (closedBy config t0 (ts ++ [t]), t) ?_
      rw [slots, Series.assigned_append]
      refine List.mem_append_left _ ?_
      rw [← slots, slots_concat]
      exact List.mem_append_right _ (List.mem_singleton.mpr rfl)
    obtain ⟨b', out', hret, hb'⟩ := reached_receiveMsg order hsound hscale hscale' ht0 hb hfirst hwrap'
    obtain ⟨b'', out'', hret', hb''⟩ := ih _ hbin hwrap hb'
    refine ⟨b'', out' ++ out'', hret.bind (hret'.bind (Fuel.returns_const _ rfl)), ?_⟩
    rw [← List.append_assoc]
    exact hb''

end Run

end HistoCalc

open HistoCalc

/-- For all tickets in any visit order: the block sends, for each feature, the histograms of the closed intervals one after the other, empty ones
included. -/
theorem histoCalc_series (order : VisitOrder (String × HistoEntry)) (search : Search) (maxNrBins : UInt32) (flag0 : Bool)
    (features : List (String × UInt32)) {timescale : UInt32} (hscale : 1 ≤ timescale.toNat) (hscale' : 60 * timescale.toNat < 2 ^ 32)
    {t : TicketMsg} {ts : List TicketMsg} (htimes : ∀ t' ∈ t :: ts, 1 ≤ t'.timestamp.toNat)
    (hwrap : ∀ p ∈ slots (configure search timescale maxNrBins flag0 features) t.timestamp.toNat (t :: ts),
      t.timestamp.toNat + p.1 * (60 * timescale.toNat) < 2 ^ 64)
    (hbin : ∀ t' ∈ t :: ts, ∀ feat ∈ t'.featurePairs.entries, Binnable (configure search timescale maxNrBins flag0 features) feat) :
    let config := configure search timescale maxNrBins flag0 features
    let t0 := t.timestamp.toNat
    let step := 60 * timescale.toNat
    (∃ b out, Fuel.Returns (fun fuel => receiveMsgs order fuel (t :: ts) (HistoCalc.new config)) (b, out) ∧
      (∀ f info, config.featInfoMap.find? f = some info →
        (out.filter fun m => m.featureID = f) = (List.range (closedBy config t0 (t :: ts))).map (fun i =>
            message (UInt64.ofNat (t0 + i * step)) f (histogramOf config t0 (t :: ts) i f info)) ∧
          b.histoHt.find? f = some (histogramOf config t0 (t :: ts) (closedBy config t0 (t :: ts)) f info)) ∧
      ∀ f, config.featInfoMap.find? f = none → (out.filter fun m => m.featureID = f) = []) ∧
    (∀ before t' after, t :: ts = before ++ t' :: after → ∃ k, (slots config t0 (t :: ts))[before.length]? = some (k, t') ∧
      IsLeast {k | closedBy config t0 before ≤ k ∧ t'.timestamp.toNat ≤ t0 + k * step} k) ∧
    ∀ t' ∈ t :: ts, ∀ f value info, t'.featurePairs.find? f = some value → config.featInfoMap.find? f = some info →
      ¬(flag0 = true ∧ value = 0) → InBin info.edges value (binOf value info.edges) := by
  intro config t0 step
  have hsound : Config.Sound config := fun f info hfind => binned_featInfoMap hfind
  have hstart := htimes t List.mem_cons_self
  refine ⟨?_, ?_, ?_⟩
  · obtain ⟨b, out, hret, hb⟩ := reached_receiveMsgs order hsound hscale hscale' hstart [] hbin hwrap (reached_start config t)
    refine ⟨b, out, ?_, fun f info hinfo => ⟨?_, ?_⟩, fun f hnone => ?_⟩
    · obtain ⟨n, hn⟩ := hret
      refine ⟨n, fun fuel hfuel => ?_⟩
      have hn := hn fuel hfuel
      dsimp only at hn ⊢
      rw [← hn, receiveMsgs, receiveMsgs, receiveMsg_new order config hstart]
    · rw [← List.nil_append out, hb.sent f, series, hinfo, List.range_eq_range', List.map_eq_flatMap]
      rfl
    · rw [hb.table f, hinfo]
      rfl
    · rw [← List.nil_append out, hb.sent f, series, hnone]
      exact List.flatMap_eq_nil_iff.mpr fun i hi => rfl
  · intro before t' after hsplit
    rw [hsplit]
    exact ⟨_, Series.getElem?_assigned _ _ _ 0 before after t', Series.isLeast_slot (by omega) _ _ _⟩
  · intro t' ht' f value info hvalue hinfo hcounted
    have hbinned := hsound f info hinfo
    have hfound := hbin t' ht' (f, value) (OrdMap.find?_eq_some.mp hvalue) info hinfo
    have hlen : 2 ≤ info.edges.length := (hfound.resolve_left fun h => hcounted ⟨h.1, h.2.1⟩).1
    obtain ⟨lo, hlo, hle⟩ := hbinned.low hlen
    exact inBin_binOf hlen hlo (hle value hcounted)

/-- The edges 0, 1 and 2 for every feature. -/
def twoBins : Search where
  bins := fun _ _ => [0, 1, 2]
  sorted := by simp
  zero := by simp
  one := by simp

/-- Two intervals are closed by a ticket that comes after them. -/
theorem histoCalc_series_two :
    ∃ b out, Fuel.Returns (fun fuel => receiveMsgs .listed fuel [(TicketMsg.new 60 1).addFeature "f" 2, TicketMsg.new 121 0]
        (HistoCalc.new (configure twoBins 1 80 true [("f", 2)]))) (b, out) ∧
      (out.filter fun m => m.featureID = "f").map (fun m => m.timestamp) = [60, 120] := by
  have hinfo : (configure twoBins 1 80 true [("f", 2)]).featInfoMap.find? "f" = some { edges := [1, 2], histoDim := 1 } := by
    simp [configure, featInfoMap, OrdMap.find?_insert, binningFunction, twoBins]
  have hbin : ∀ t ∈ [(TicketMsg.new 60 1).addFeature "f" 2, TicketMsg.new 121 0], ∀ feat ∈ t.featurePairs.entries,
      Binnable (configure twoBins 1 80 true [("f", 2)]) feat := by
    intro t ht feat hfeat info hfind
    rcases List.mem_cons.mp ht with rfl | ht
    · obtain rfl : feat = ("f", 2) := List.mem_singleton.mp hfeat
      rw [hinfo] at hfind
      obtain rfl := Option.some.inj hfind
      exact Or.inr (by decide)
    · obtain rfl := List.mem_singleton.mp ht
      exact absurd hfeat List.not_mem_nil
  obtain ⟨⟨b, out, hret, hout, -⟩, -⟩ := histoCalc_series .listed twoBins 80 true [("f", 2)]
    (by decide) (by decide) (by decide)
    (by decide) hbin
  refine ⟨b, out, hret, ?_⟩
  have hclosed : closedBy (configure twoBins 1 80 true [("f", 2)]) 60 [(TicketMsg.new 60 1).addFeature "f" 2, TicketMsg.new 121 0] = 2 := by
    simp [closedBy, Series.closed, Series.slot, configure, TicketMsg.addFeature, TicketMsg.new]
  have hsent := (hout "f" _ hinfo).1
  change _ = List.map _ (List.range (closedBy _ 60 _)) at hsent
  rw [hsent, hclosed]
  rfl

/-- A feature with the maximum 0: with zero filtering the vector is left, and without it the value is not counted. -/
theorem histoCalc_no_bins :
    (∀ fuel, receiveMsgs .listed (fuel + 1) [(TicketMsg.new 1 1).addFeature "f" 0]
      (HistoCalc.new (configure twoBins 1 80 true [("f", 0)])) = .error .outOfBounds) ∧
    (receiveMsgs .listed 1 [(TicketMsg.new 1 1).addFeature "f" 0] (HistoCalc.new (configure twoBins 1 80 false [("f", 0)]))).map
      (fun r => (r.1.histoHt.find? "f").map fun entry => entry.uniqueUsersMap.entries) = .ok (some []) := by
  constructor
  · intro fuel
    rfl
  · simp [receiveMsgs, receiveMsg, fillHoles, HistoCalc.new, start, TicketMsg.addFeature, TicketMsg.new, OrdMap.insert, OrdMap.assign,
      OrdMap.find?, OrdMap.empty, TicketMsg.Signalling, TicketMsg.getExtractedFeatures, insertElements, insertElement, insertDummyElements,
      configure, featInfoMap, binningFunction, getBinForCount, binLoop, Exn.except_bind_of_ok, Except.map,
      dummy]

end Blockmon.StatAD
