import Blockmon.HistoCalc
import Blockmon.Lib.Fuel
import Blockmon.Lib.Series
import Mathlib.Data.List.Induction

/-!
# Histograms

The bin of a value, what a ticket adds to the histogram of a feature, and what the loop of `_receive_msg` leaves: the messages of the
histograms that it closes and a table of empty ones.
-/

namespace Blockmon.StatAD

/-! ## The bin of a value -/

/-- The first bin whose upper edge is above the value, or the last one. -/
def binOf (v : UInt64) : List UInt64 → Nat
  | _ :: hi :: next :: rest => if v < hi then 0 else binOf v (hi :: next :: rest) + 1
  | _ => 0

/-- The value lies between the edges of the bin, or above them if it is the last one. -/
def InBin (edges : List UInt64) (v : UInt64) (i : Nat) : Prop :=
  ∃ lo hi, edges[i]? = some lo ∧ edges[i + 1]? = some hi ∧ lo ≤ v ∧ (v < hi ∨ i + 2 = edges.length)

/-- The bin of a value that is not below the first edge. -/
theorem inBin_binOf {edges : List UInt64} {v lo : UInt64} (hlen : 2 ≤ edges.length) (hlo : edges[0]? = some lo) (hv : lo ≤ v) :
    InBin edges v (binOf v edges) := by
  induction edges generalizing lo with
  | nil => simp at hlen
  | cons e edges ih =>
    obtain rfl : e = lo := by simpa using hlo
    rcases edges with _ | ⟨hi, _ | ⟨next, rest⟩⟩
    · simp at hlen
    · exact ⟨e, hi, rfl, rfl, hv, Or.inr rfl⟩
    · rw [binOf]
      by_cases hhi : v < hi
      · rw [if_pos hhi]
        exact ⟨e, hi, rfl, rfl, hv, Or.inl hhi⟩
      · rw [if_neg hhi]
        obtain ⟨lo', hi', h1, h2, h3, h4⟩ := ih (by simp) rfl (UInt64.not_lt.mp hhi)
        refine ⟨lo', hi', by simpa using h1, by simpa using h2, h3, h4.imp id fun h => ?_⟩
        simp at h ⊢
        omega

/-- The bin is inside of the histogram. -/
theorem binOf_lt {edges : List UInt64} {v lo : UInt64} (hlen : 2 ≤ edges.length) (hlo : edges[0]? = some lo) (hv : lo ≤ v) :
    binOf v edges + 1 < edges.length := by
  obtain ⟨-, hi, -, hhi, -⟩ := inBin_binOf hlen hlo hv
  exact (List.getElem?_eq_some_iff.mp hhi).1

namespace HistoCalc

/-- An edge that is there is read. -/
theorem edge_ok {bEd : List UInt64} {i : Nat} {e : UInt64} (h : bEd[i]? = some e) : edge bEd i = .ok e := by
  rw [edge, h]

/-- The loop ends at the bin of the value. -/
theorem binLoop_ok {count : UInt64} {bEd : List UInt64} (passes : Nat) {i : Nat} {lo : UInt64} (hpasses : passes + i + 1 = bEd.length)
    (hi : i + 2 ≤ bEd.length) (hlo : bEd[i]? = some lo) (hcount : lo ≤ count) :
    binLoop count bEd passes i = .ok (UInt32.ofNat (i + binOf count (bEd.drop i))) := by
  induction passes generalizing i lo with
  | zero => omega
  | succ passes ih =>
    obtain ⟨hlt, hget⟩ := List.getElem?_eq_some_iff.mp hlo
    have hhi : bEd[i + 1]? = some bEd[i + 1] := List.getElem?_eq_getElem (by omega)
    have hdrop : bEd.drop i = lo :: bEd[i + 1] :: bEd.drop (i + 2) := by
      rw [List.drop_eq_getElem_cons hlt, hget, List.drop_eq_getElem_cons (by omega : i + 1 < bEd.length)]
    rw [binLoop, Exn.except_bind_of_ok (edge_ok hlo), Exn.except_bind_of_ok (edge_ok hhi), hdrop]
    by_cases hin : count < bEd[i + 1]
    · -- the value lies in this bin
      rw [if_pos ⟨hcount, hin⟩]
      cases bEd.drop (i + 2) <;> simp [binOf, hin]
    · have hge : bEd[i + 1] ≤ count := UInt64.not_lt.mp hin
      rw [if_neg fun h => hin h.2]
      by_cases hlast : i + 2 = bEd.length
      · have hnil : bEd.drop (i + 2) = [] := List.drop_eq_nil_of_le (by omega)
        rw [if_pos ⟨hlast, hge⟩, hnil]
        rfl
      · have hnext : bEd.drop (i + 2) = bEd[i + 2] :: bEd.drop (i + 3) := List.drop_eq_getElem_cons (by omega)
        have hdrop' : bEd.drop (i + 1) = bEd[i + 1] :: bEd.drop (i + 2) := List.drop_eq_getElem_cons (by omega)
        rw [if_neg fun h => hlast h.1, ih (by omega) (by omega) hhi hge, hdrop', hnext, binOf, if_neg hin, Nat.add_assoc i 1,
          Nat.add_comm 1]

variable {flag0 : Bool} {info : FeatInfo}

/-- What is known of the edges of a feature. -/
structure Binned (flag0 : Bool) (info : FeatInfo) : Prop where
  dim : 1 ≤ info.edges.length → flag0 = true ∨ 2 ≤ info.edges.length → info.histoDim.toNat = (info.edges.length - 1) % 2 ^ 16
  low : 2 ≤ info.edges.length → ∃ lo, info.edges[0]? = some lo ∧ ∀ v, ¬(flag0 = true ∧ v = 0) → lo ≤ v

/-- As many bins as the 16 bits of their number can count. -/
theorem Binned.histoDim_add_one (hinfo : Binned flag0 info) (hlen : 2 ≤ info.edges.length) (hle : info.edges.length ≤ 2 ^ 16) :
    info.histoDim.toNat + 1 = info.edges.length := by
  have hdim := hinfo.dim (Nat.le_of_succ_le hlen) (Or.inr hlen)
  omega

/-- The source finds the bin of a value, in 16 bits. -/
theorem getBinForCount_ok (hinfo : Binned flag0 info) {v : UInt64} (hv : ¬(flag0 = true ∧ v = 0)) (hlen : 2 ≤ info.edges.length)
    (hle' : info.edges.length ≤ 2 ^ 16) : getBinForCount flag0 v info.edges = .ok (UInt32.ofNat (binOf v info.edges)) := by
  obtain ⟨lo, hlo, hle⟩ := hinfo.low hlen
  have hsize : (UInt64.ofNat info.edges.length - 1).toNat = info.edges.length - 1 := by
    have hof : (UInt64.ofNat info.edges.length).toNat = info.edges.length := UInt64.toNat_ofNat_of_lt' (show info.edges.length < 2 ^ 64 by omega)
    rw [UInt64.toNat_sub_of_le _ _ (by rw [UInt64.le_iff_toNat_le, hof]; exact Nat.le_of_succ_le hlen), hof]
    rfl
  rw [getBinForCount, if_neg hv, hsize, binLoop_ok (info.edges.length - 1) (by omega) (by omega) hlo (hle v hv), Nat.zero_add, List.drop_zero]

/-- Zero filtering: the index is too large. -/
theorem getBinForCount_zero (hinfo : Binned flag0 info) (hflag : flag0 = true) (hedges : info.edges ≠ [])
    (hle : 20 * info.edges.length < 2 ^ 32) : ∃ i, getBinForCount flag0 0 info.edges = .ok i ∧ info.histoDim.toUInt32 < i := by
  have hlen : 1 ≤ info.edges.length := List.length_pos_iff.mpr hedges
  have hdim := hinfo.dim hlen (Or.inl hflag)
  refine ⟨UInt32.ofNat (20 * info.edges.length), by rw [getBinForCount, if_pos ⟨hflag, rfl⟩], ?_⟩
  have hof : (UInt32.ofNat (20 * info.edges.length)).toNat = 20 * info.edges.length :=
    UInt32.toNat_ofNat_of_lt' hle
  rw [UInt32.lt_iff_toNat_lt, hof, UInt16.toNat_toUInt32]
  omega

/-- The edges that are found, and the number of the bins between them. -/
def featInfoOf (bins : List UInt64) (flag0 : Bool) : FeatInfo :=
  if flag0 then { edges := bins.tail, histoDim := UInt16.ofNat bins.length - 1 - 1 }
  else { edges := bins, histoDim := UInt16.ofNat bins.length - 1 }

/-- There is one bin less than edges. -/
theorem histoDim_featInfoOf {bins : List UInt64} (hlen : 1 ≤ (featInfoOf bins flag0).edges.length) :
    (featInfoOf bins flag0).histoDim.toNat = ((featInfoOf bins flag0).edges.length - 1) % 2 ^ 16 := by
  have hone : (1 : UInt16).toNat = 1 := rfl
  cases flag0 with
  | false =>
    change 1 ≤ bins.length at hlen
    change (UInt16.ofNat bins.length - 1).toNat = (bins.length - 1) % 2 ^ 16
    rw [UInt16.toNat_sub, UInt16.toNat_ofNat', hone]
    omega
  | true =>
    change 1 ≤ bins.tail.length at hlen
    change (UInt16.ofNat bins.length - 1 - 1).toNat = (bins.tail.length - 1) % 2 ^ 16
    rw [List.length_tail] at hlen ⊢
    rw [UInt16.toNat_sub, UInt16.toNat_sub, UInt16.toNat_ofNat', hone]
    omega

/-- A binning function begins with its zero. -/
theorem binned_featInfoOf {bins : List UInt64} (hzero : bins[0]? = some 0) (hone : 2 ≤ bins.length → bins[1]? = some 1) :
    Binned flag0 (featInfoOf bins flag0) := by
  refine ⟨fun hlen _ => histoDim_featInfoOf hlen, fun hlen => ?_⟩
  · cases flag0 with
    | false => exact ⟨0, hzero, fun _ _ => UInt64.zero_le⟩
    | true =>
      change 2 ≤ bins.tail.length at hlen
      rw [List.length_tail] at hlen
      have hfirst := hone (by omega)
      refine ⟨1, by rw [← hfirst]; exact List.getElem?_tail, fun v hv => ?_⟩
      have hne : v ≠ 0 := fun h => hv ⟨rfl, h⟩
      rw [UInt64.le_iff_toNat_le]
      have hnat : v.toNat ≠ 0 := fun h => hne (UInt64.toNat_inj.mp h)
      exact Nat.one_le_iff_ne_zero.mpr hnat

/-- Without a maximum there are no bins. -/
theorem binned_zero (flag0 : Bool) :
    Binned flag0 (if flag0 = false then { edges := [0], histoDim := 1 } else { edges := [], histoDim := 0 }) := by
  cases flag0 <;> exact ⟨by simp, by simp⟩

/-- The binning function is binned, whatever the search finds. -/
theorem binned_binningFunction (search : Search) (maxData : UInt64) (n : UInt16) (flag0 : Bool) :
    Binned flag0 (binningFunction search maxData n flag0) := by
  by_cases hmax : maxData = 0
  · rw [binningFunction, if_pos hmax, hmax]
    exact binned_zero flag0
  · have hof : binningFunction search maxData n flag0 = featInfoOf (search.bins maxData n) flag0 := by rw [binningFunction, if_neg hmax, featInfoOf]
    rw [hof]
    exact binned_featInfoOf (search.zero maxData n) (search.one maxData n)

/-- So is every configured feature. -/
theorem binned_featInfoMap {search : Search} {maxNrBins : UInt32} {features : List (String × UInt32)} {f : String}
    (hfind : (featInfoMap search maxNrBins flag0 features).find? f = some info) : Binned flag0 info := by
  rw [featInfoMap, OrdMap.find?_foldl_insert, OrdMap.find?_empty, Option.none_or] at hfind
  obtain ⟨feature, -, rfl⟩ := Option.map_eq_some_iff.mp hfind
  exact binned_binningFunction search _ _ _

/-! ## What a ticket adds -/

/-- A value that is counted in its bin. -/
def count (entry : HistoEntry) (bin : Nat) (user : UInt32) (value : UInt64) : HistoEntry where
  uniqueUsersMap := entry.uniqueUsersMap.insert user user
  histogram := entry.histogram.modify bin (· + 1)
  totalVal := entry.totalVal + value

/-- A zero that is filtered is not counted. -/
def countValue (flag0 : Bool) (info : FeatInfo) (user : UInt32) (entry : HistoEntry) (value : UInt64) : HistoEntry :=
  if flag0 = true ∧ value = 0 then entry else count entry (binOf value info.edges) user value

/-- The value of the feature that a ticket carries, if it does. -/
def countTicket (flag0 : Bool) (f : String) (info : FeatInfo) (entry : HistoEntry) (t : TicketMsg) : HistoEntry :=
  match t.featurePairs.find? f with
  | none => entry
  | some value => countValue flag0 info t.userID entry value

/-- The histogram of the feature over some tickets. -/
def entryOf (flag0 : Bool) (f : String) (info : FeatInfo) (ts : List TicketMsg) : HistoEntry :=
  ts.foldl (countTicket flag0 f info) (dummy info)

/-- A value changes no number of bins. -/
theorem length_countValue (user : UInt32) (entry : HistoEntry) (value : UInt64) :
    (countValue flag0 info user entry value).histogram.length = entry.histogram.length := by
  rw [countValue]
  split
  · rfl
  · exact List.length_modify _ _ _

/-- A ticket changes no number of bins. -/
theorem length_countTicket (f : String) (entry : HistoEntry) (t : TicketMsg) :
    (countTicket flag0 f info entry t).histogram.length = entry.histogram.length := by
  rw [countTicket]
  split
  · rfl
  · exact length_countValue _ _ _

/-- An entry has the bins of its feature. -/
theorem length_entryOf (f : String) (ts : List TicketMsg) : (entryOf flag0 f info ts).histogram.length = info.histoDim.toNat := by
  induction ts using List.reverseRecOn with
  | nil => exact List.length_replicate
  | append_singleton ts t ih =>
    rw [entryOf, List.foldl_concat, length_countTicket]
    exact ih

/-! ## One ticket -/

variable {config : Config}

/-- The values of a feature that the code has edges for: two at least, and no more than it can number the bins of. A zero that is filtered
needs an edge only, and an index past the bins that 32 bits hold. -/
def Binnable (config : Config) (feat : String × UInt64) : Prop :=
  ∀ info, config.featInfoMap.find? feat.1 = some info →
    (config.flag0 = true ∧ feat.2 = 0 ∧ info.edges ≠ [] ∧ 20 * info.edges.length < 2 ^ 32) ∨
      (2 ≤ info.edges.length ∧ info.edges.length ≤ 2 ^ 16)

/-- The table has the entries `E` for the features of the configuration, and no others. -/
def Holds (config : Config) (ht : OrdMap String HistoEntry) (E : String → FeatInfo → HistoEntry) : Prop :=
  ∀ f, ht.find? f = (config.featInfoMap.find? f).map (E f)

/-- Each entry has the bins of its feature. -/
def Sized (config : Config) (E : String → FeatInfo → HistoEntry) : Prop :=
  ∀ f info, config.featInfoMap.find? f = some info → (E f info).histogram.length = info.histoDim.toNat

/-- The features of the configuration have the edges of the binning. -/
def Config.Sound (config : Config) : Prop := ∀ f info, config.featInfoMap.find? f = some info → Binned config.flag0 info

variable {ht : OrdMap String HistoEntry} {E : String → FeatInfo → HistoEntry} (user : UInt32)

/-- A value of a ticket is counted. -/
theorem insertElement_ok (hconfig : Config.Sound config) (hht : Holds config ht E) (hsized : Sized config E) {feat : String × UInt64}
    (hbin : Binnable config feat) : ∃ ht', insertElement config user ht feat = .ok ht' ∧
      Holds config ht' fun f info => if f = feat.1 then countValue config.flag0 info user (E f info) feat.2 else E f info := by
  obtain ⟨f, value⟩ := feat
  rw [insertElement, hht f]
  dsimp only
  cases hinfo : config.featInfoMap.find? f with
  | none =>
    refine ⟨ht, rfl, fun f' => ?_⟩
    rw [hht f']
    by_cases hf : f' = f
    · rw [hf, hinfo]
      rfl
    · simp only [hf, if_false]
  | some info =>
    have hbinned := hconfig f info hinfo
    have hlen := hsized f info hinfo
    dsimp only [Option.map_some]
    by_cases hzero : config.flag0 = true ∧ value = 0
    · obtain ⟨hflag, rfl⟩ := hzero
      have hedges : info.edges ≠ [] ∧ 20 * info.edges.length < 2 ^ 32 := by
        rcases hbin info hinfo with ⟨-, -, h⟩ | ⟨htwo, hle⟩
        · exact h
        · exact ⟨List.length_pos_iff.mp (Nat.lt_of_lt_of_le Nat.zero_lt_two htwo), by omega⟩
      obtain ⟨i, hindex, hi⟩ := getBinForCount_zero hbinned hflag hedges.1 hedges.2
      refine ⟨ht, ?_, fun f' => ?_⟩
      · rw [Exn.except_bind_of_ok hindex, if_pos hi]
      · simp [hht f', countValue, hflag]
    · obtain ⟨hedges, hle'⟩ := (hbin info hinfo).resolve_left fun h => hzero ⟨h.1, h.2.1⟩
      obtain ⟨lo, hlo, hle⟩ := hbinned.low hedges
      have hlt := binOf_lt hedges hlo (hle value hzero)
      have hdim := hbinned.histoDim_add_one hedges hle'
      have hof : (UInt32.ofNat (binOf value info.edges)).toNat = binOf value info.edges :=
        UInt32.toNat_ofNat_of_lt' (show binOf value info.edges < 2 ^ 32 by omega)
      have hvalid : ¬info.histoDim.toUInt32 < UInt32.ofNat (binOf value info.edges) := by
        rw [UInt32.lt_iff_toNat_lt, hof, UInt16.toNat_toUInt32]
        omega
      have hget : binOf value info.edges < (E f info).histogram.length := by omega
      rw [Exn.except_bind_of_ok (getBinForCount_ok hbinned hzero hedges hle'), if_neg hvalid, hof, List.getElem?_eq_getElem hget]
      refine ⟨_, rfl, fun f' => ?_⟩
      rw [OrdMap.find?_assign]
      by_cases hf : f' = f
      · simp [hf, hinfo, countValue, hzero, count, List.modify_eq_set, hget]
      · simp [hf, hht f']

/-- All values of a ticket are counted. -/
theorem insertElements_ok (hconfig : Config.Sound config) {feats : List (String × UInt64)} (hnodup : (feats.map Prod.fst).Nodup)
    (hbin : ∀ feat ∈ feats, Binnable config feat) (hht : Holds config ht E) (hsized : Sized config E) :
    ∃ ht', insertElements config user feats ht = .ok ht' ∧ Holds config ht' fun f info =>
      match feats.find? fun feat => feat.1 = f with
      | none => E f info
      | some feat => countValue config.flag0 info user (E f info) feat.2 := by
  induction feats generalizing ht E with
  | nil => exact ⟨ht, rfl, hht⟩
  | cons feat feats ih =>
    obtain ⟨hnotMem, hnodup⟩ := List.nodup_cons.mp hnodup
    obtain ⟨hfirst, hbin⟩ := List.forall_mem_cons.mp hbin
    obtain ⟨ht', hinsert, hht'⟩ := insertElement_ok user hconfig hht hsized hfirst
    have hsized' : Sized config fun f info => if f = feat.1 then countValue config.flag0 info user (E f info) feat.2 else E f info := by
      intro f info hinfo
      dsimp only
      split
      · rw [length_countValue]
        exact hsized f info hinfo
      · exact hsized f info hinfo
    obtain ⟨ht'', hinserts, hht''⟩ := ih hnodup hbin hht' hsized'
    refine ⟨ht'', by rw [insertElements, Exn.except_bind_of_ok hinsert]; exact hinserts, fun f => ?_⟩
    rw [hht'' f]
    congr 1
    funext info
    by_cases hf : f = feat.1
    · -- no later feature has this name
      have hnone : feats.find? (fun feat' => decide (feat'.1 = f)) = none := by
        rw [List.find?_eq_none]
        intro feat' hmem heq
        exact hnotMem (List.mem_map.mpr ⟨feat', hmem, (of_decide_eq_true heq).trans hf⟩)
      subst hf
      simp [hnone]
    · simp [Ne.symm hf, hf]

/-- The values of a ticket. -/
theorem insertElements_ticket (hconfig : Config.Sound config) {t : TicketMsg} (hbin : ∀ feat ∈ t.featurePairs.entries, Binnable config feat)
    (hht : Holds config ht E) (hsized : Sized config E) : ∃ ht', insertElements config t.userID t.featurePairs.entries ht = .ok ht' ∧
      Holds config ht' fun f info => countTicket config.flag0 f info (E f info) t := by
  have hnodup : (t.featurePairs.entries.map Prod.fst).Nodup := t.featurePairs.sorted.imp fun h => h.ne
  obtain ⟨ht', hinsert, hht'⟩ := insertElements_ok t.userID hconfig hnodup hbin hht hsized
  refine ⟨ht', hinsert, fun f => ?_⟩
  rw [hht' f]
  congr 1
  funext info
  simp only [countTicket, OrdMap.find?]
  cases t.featurePairs.entries.find? fun e => decide (e.1 = f) <;> rfl

/-! ## Closing the intervals -/

/-- The message with an entry. -/
def message (timestamp : UInt64) (f : String) (entry : HistoEntry) : HistoMsg where
  timestamp := timestamp
  featureID := f
  nrUniqueUsers := UInt64.ofNat entry.uniqueUsersMap.entries.length
  histogram := entry.histogram
  totalValue := entry.totalVal

/-- The dummy elements have counted nothing. -/
theorem holds_dummies (config : Config) : Holds config (insertDummyElements config OrdMap.empty) fun _ info => dummy info := by
  intro f
  rw [insertDummyElements, OrdMap.find?_foldl_insert, OrdMap.find?_empty, Option.none_or, OrdMap.find?, Option.map_map]
  rfl

variable (order : VisitOrder (String × HistoEntry))

/-- One message for each entry of the table, in whatever order. -/
theorem filter_emptyHashTable (hht : Holds config ht E) (timestamp : UInt64) (f : String) :
    ((emptyHashTable order timestamp ht).1.filter fun m => m.featureID = f) =
      ((config.featInfoMap.find? f).map fun info => message timestamp f (E f info)).toList := by
  have hentries : ((order.visit ht.entries).filter fun e => e.1 = f).Perm ((ht.find? f).toList.map fun entry => (f, entry)) := by
    rw [← OrdMap.filter_key]
    exact (order.perm ht.entries).filter _
  rw [emptyHashTable, List.filter_map]
  change (((order.visit ht.entries).filter fun e => e.1 = f).map fun e => message timestamp e.1 e.2) = _
  rw [hht f] at hentries
  cases hinfo : config.featInfoMap.find? f with
  | none =>
    rw [hinfo] at hentries
    rw [hentries.eq_nil]
    rfl
  | some info =>
    rw [hinfo] at hentries
    rw [List.perm_singleton.mp hentries]
    rfl

/-- The messages of a feature for the intervals from `n` on. -/
def series (config : Config) (t0 step : Nat) (E : Nat → String → FeatInfo → HistoEntry) (f : String) (n len : Nat) : List HistoMsg :=
  (List.range' n len).flatMap fun i =>
    ((config.featInfoMap.find? f).map fun info => message (UInt64.ofNat (t0 + i * step)) f (E i f info)).toList

/-- The loop closes the intervals before that of the ticket. -/
theorem fillHoles_ok {t0 step : Nat} (hscale : 1 ≤ config.timescale.toNat) (hscale' : 60 * config.timescale.toNat < 2 ^ 32)
    (hstep : step = 60 * config.timescale.toNat) {E : Nat → String → FeatInfo → HistoEntry} {timeNow : UInt64} {k : Nat}
    (hwrap : t0 + k * step < 2 ^ 64) (d : Nat) {n : Nat} (hk : n + d = k) (hslot : Series.slot t0 step n timeNow.toNat = k)
    (hdummy : ∀ i, n < i → E i = fun _ info => dummy info) {b : HistoCalc} (hconfig : b.config = config)
    (htime : b.currentAggTime.toNat = t0 + n * step) (hht : Holds config b.histoHt (E n)) :
    ∃ b' out, (∀ fuel, d < fuel → fillHoles order timeNow fuel b = .ok (b', out)) ∧ b'.config = config ∧
      b'.currentAggTime.toNat = t0 + k * step ∧ Holds config b'.histoHt (E k) ∧
        ∀ f, (out.filter fun m => m.featureID = f) = series config t0 step E f n d := by
  have hpos : 0 < step := by omega
  induction d generalizing n b with
  | zero =>
    obtain rfl : n = k := hk
    have hle := (Series.isLeast_slot hpos t0 n timeNow.toNat).1.2
    rw [hslot] at hle
    refine ⟨b, [], fun fuel hfuel => ?_, hconfig, htime, hht, fun f => rfl⟩
    obtain ⟨fuel, rfl⟩ := Nat.exists_eq_succ_of_ne_zero (Nat.ne_of_gt hfuel)
    rw [fillHoles, if_neg]
    rw [UInt64.lt_iff_toNat_lt, htime]
    omega
  | succ d ih =>
    have hlt : t0 + n * step < timeNow.toNat := by
      by_contra hle
      have heq := Series.slot_of_le hpos (Nat.not_lt.mp hle)
      omega
    have hmul : t0 + (n + 1) * step ≤ t0 + k * step := Nat.add_le_add_left (Nat.mul_le_mul_right step (by omega)) t0
    have hmul' : (n + 1) * step = n * step + step := Nat.succ_mul n step
    have hinc : (b.config.timescale * 60).toUInt64.toNat = step := by
      rw [hconfig, UInt32.toNat_toUInt64, UInt32.toNat_mul]
      change config.timescale.toNat * 60 % 2 ^ 32 = step
      rw [Nat.mod_eq_of_lt (by omega), hstep, Nat.mul_comm]
    have hnext : (b.currentAggTime + (b.config.timescale * 60).toUInt64).toNat = t0 + (n + 1) * step := by
      rw [UInt64.toNat_add, htime, hinc, Nat.mod_eq_of_lt (by omega)]
      omega
    have hht' : Holds config (insertDummyElements b.config (emptyHashTable order b.currentAggTime b.histoHt).2) (E (n + 1)) := by
      rw [hdummy (n + 1) (Nat.lt_succ_self n), hconfig]
      exact holds_dummies config
    rw [Series.slot_of_lt hpos hlt] at hslot
    obtain ⟨b', out, hrun, hconfig', htime', hht'', hout⟩ := ih (b := {
      config := b.config
      currentAggTime := b.currentAggTime + (b.config.timescale * 60).toUInt64
      histoHt := insertDummyElements b.config (emptyHashTable order b.currentAggTime b.histoHt).2 })
      (by omega) hslot (fun i hi => hdummy i (Nat.lt_of_succ_lt hi)) hconfig hnext hht'
    have hpass : b.currentAggTime < timeNow := by
      rw [UInt64.lt_iff_toNat_lt, htime]
      exact hlt
    have htimestamp : b.currentAggTime = UInt64.ofNat (t0 + n * step) := by rw [← htime, UInt64.ofNat_toNat]
    refine ⟨b', (emptyHashTable order b.currentAggTime b.histoHt).1 ++ out, fun fuel hfuel => ?_, hconfig', htime', hht'', fun f => ?_⟩
    · obtain ⟨fuel, rfl⟩ := Nat.exists_eq_succ_of_ne_zero (Nat.ne_of_gt (Nat.lt_of_le_of_lt (Nat.zero_le _) hfuel))
      rw [fillHoles, if_pos hpass, Exn.except_bind_of_ok (hrun fuel (Nat.lt_of_succ_lt_succ hfuel))]
    · rw [List.filter_append, filter_emptyHashTable order hht, hout f, htimestamp, series, series, List.range'_succ, List.flatMap_cons]

end HistoCalc

end Blockmon.StatAD
