import Blockmon.Binning
import Blockmon.Lemmas.HistoCalc

/-!
# The edges that are found

Whatever base the search comes to, the edges are the floors of 0 and of its powers: they begin with 0 and 1 and are strictly increasing. If the
loop ends before its passes are used up, there is one edge more than classes are wanted.
-/

namespace Blockmon.StatAD

open HistoCalc

variable {α : Type}

/-- Numbers in a total order, so none that is not a number; 0 and 1 are exact. -/
structure Libm.Lawful (L : Libm α) : Prop where
  le_trans : ∀ x y z, L.le x y = true → L.le y z = true → L.le x z = true
  le_total : ∀ x y, (L.le x y || L.le y x) = true
  floor_mono : ∀ x y, L.le x y = true → L.floor x ≤ L.floor y
  floor_zero : L.floor (L.ofInt 0) = 0
  floor_one : L.floor (L.ofInt 1) = 1
  pow_zero : ∀ b, L.pow b (L.ofInt 0) = L.ofInt 1

namespace Binning

variable {L : Libm α}

/-! ## Rounding down -/

/-- The floors of a sorted array are sorted. -/
theorem pairwise_map_floor (hL : L.Lawful) (array : List α) : ((array.mergeSort L.le).map L.floor).Pairwise (· ≤ ·) := by
  rw [List.pairwise_map]
  exact (List.pairwise_mergeSort hL.le_trans hL.le_total array).imp fun {x y} => hL.floor_mono x y

/-- `unique_floor` is the sorted floors without doubles. -/
theorem uniqueFloor_eq (hL : L.Lawful) (array : List α) : uniqueFloor L array = ((array.mergeSort L.le).map L.floor).dedup :=
  (pairwise_map_floor hL array).destutter_eq_dedup

/-- The values of `unique_floor`. -/
theorem mem_uniqueFloor (hL : L.Lawful) {array : List α} {v : UInt64} : v ∈ uniqueFloor L array ↔ ∃ x ∈ array, L.floor x = v := by
  rw [uniqueFloor_eq hL, List.mem_dedup, List.mem_map]
  simp only [List.mem_mergeSort]

/-- The values of `unique_floor` increase. -/
theorem pairwise_uniqueFloor (hL : L.Lawful) (array : List α) : (uniqueFloor L array).Pairwise (· < ·) := by
  rw [uniqueFloor_eq hL]
  have hsorted := (pairwise_map_floor hL array).sublist (List.dedup_sublist _)
  refine (hsorted.and (List.nodup_dedup _)).imp ?_
  rintro v w ⟨hle, hne⟩
  exact UInt64.lt_of_le_of_ne hle hne

/-- Edges that begin with 0 and 1. -/
structure Edges (bins : List UInt64) : Prop where
  sorted : bins.Pairwise (· < ·)
  zero : bins[0]? = some 0
  one : 2 ≤ bins.length → bins[1]? = some 1

/-- Numbers in strict order that have 0 begin with it, and if they have 1 it is the next. -/
theorem edges_of_mem {bins : List UInt64} (hsorted : bins.Pairwise (· < ·)) (hzero : 0 ∈ bins) (hone : 2 ≤ bins.length → 1 ∈ bins) :
    Edges bins := by
  rcases bins with _ | ⟨v, bins⟩
  · cases hzero
  obtain ⟨hv, hrest⟩ := List.pairwise_cons.mp hsorted
  have hv0 : v = 0 := by
    rcases List.mem_cons.mp hzero with h | h
    · exact h.symm
    · exact absurd (hv 0 h) UInt64.not_lt_zero
  subst hv0
  refine ⟨hsorted, rfl, fun hlen => ?_⟩
  rcases bins with _ | ⟨w, bins⟩
  · simp at hlen
  have hw : (0 : UInt64) < w := hv w List.mem_cons_self
  have hmem : (1 : UInt64) ∈ w :: bins := by simpa using hone hlen
  rcases List.mem_cons.mp hmem with h | h
  · rw [h]
    rfl
  · -- nothing is between 0 and 1
    have hlt := (List.pairwise_cons.mp hrest).1 1 h
    rw [UInt64.lt_iff_toNat_lt] at hw hlt
    change w.toNat < 1 at hlt
    omega

/-- The values of `unique_floor` are edges. -/
theorem edges_uniqueFloor (hL : L.Lawful) (b : α) (n : Nat) : Edges (uniqueFloor L (binsf L b n)) := by
  refine edges_of_mem (pairwise_uniqueFloor hL _) ?_ fun hlen => ?_
  · exact (mem_uniqueFloor hL).mpr ⟨L.ofInt 0, List.mem_cons_self, hL.floor_zero⟩
  · rcases n with _ | n
    · simp [uniqueFloor, binsf] at hlen
    · refine (mem_uniqueFloor hL).mpr ⟨L.pow b (L.ofInt 0), ?_, by rw [hL.pow_zero, hL.floor_one]⟩
      exact List.mem_cons_of_mem _ (List.mem_map.mpr ⟨0, List.mem_range.mpr n.succ_pos, rfl⟩)

/-! ## The loop -/

/-- The edges of a pass are those of its base. -/
structure Vars.Ok (L : Libm α) (NNC : Nat) (s : Vars α) : Prop where
  scarto : s.scarto = scartoOf NNC s.bins
  bins : ∃ b n, s.bins = uniqueFloor L (binsf L b n)

/-- The loop begins in order. -/
theorem ok_firstVars (maxData : UInt64) (NNC : Nat) : Vars.Ok L NNC (firstVars L maxData NNC) := ⟨rfl, _, _, rfl⟩

/-- A pass keeps the order. -/
theorem ok_pass (maxData : UInt64) (NNC : Nat) (s : Vars α) : Vars.Ok L NNC (pass L maxData NNC s) := ⟨rfl, _, _, rfl⟩

/-- The loop ends in order, and without a rest if it ends in time. -/
theorem ok_loop (maxData : UInt64) (NNC : Nat) {s : Vars α} (h : Vars.Ok L NNC s) :
    Vars.Ok L NNC (loop L maxData NNC s) ∧ ((loop L maxData NNC s).cont ≤ maxIter → (loop L maxData NNC s).scarto = 0) := by
  fun_induction loop L maxData NNC s with
  | case1 s hgoes ih => exact ih (ok_pass maxData NNC s)
  | case2 s hstops => exact ⟨h, fun hcont => by_contra fun hscarto => hstops ⟨hscarto, hcont⟩⟩

/-- The last variables are in order. -/
theorem ok_lastVars (maxData : UInt64) (nClassMax : UInt16) : Vars.Ok L (wanted maxData nClassMax).toNat (lastVars L maxData nClassMax) :=
  (ok_loop maxData _ (ok_firstVars maxData _)).1

/-- What is found are edges. -/
theorem edges_found (hL : L.Lawful) (maxData : UInt64) (nClassMax : UInt16) : Edges (found L maxData nClassMax) := by
  rw [found]
  split
  · exact edges_uniqueFloor hL _ _
  · obtain ⟨b, n, hbins⟩ := (ok_lastVars (L := L) maxData nClassMax).bins
    rw [hbins]
    exact edges_uniqueFloor hL b n

/-- The search has found the number of classes that is wanted. -/
def Converges (L : Libm α) (maxData : UInt64) (nClassMax : UInt16) : Prop := (lastVars L maxData nClassMax).cont ≤ maxIter

/-- Where the loop converges the wanted number of edges is found. -/
theorem length_found {maxData : UInt64} {nClassMax : UInt16} (h : Converges L maxData nClassMax) :
    (found L maxData nClassMax).length = (wanted maxData nClassMax).toNat + 1 := by
  have hscarto := (ok_loop maxData _ (ok_firstVars (L := L) maxData (wanted maxData nClassMax).toNat)).2 h
  have hlast := (ok_lastVars (L := L) maxData nClassMax).scarto
  rw [lastVars] at hlast
  rw [hscarto, scartoOf] at hlast
  rw [found, if_neg (Nat.not_lt.mpr h), lastVars]
  omega

/-- The maxima that `_configure` reads fit `long long`. -/
theorem toNat_wanted (maxVal : UInt32) (nClassMax : UInt16) : (wanted maxVal.toUInt64 nClassMax).toNat = min nClassMax.toNat maxVal.toNat := by
  have hmax : maxVal.toUInt64.toInt64.toInt = maxVal.toNat := by
    change maxVal.toUInt64.toBitVec.toInt = _
    rw [BitVec.toInt_eq_toNat_of_lt]
    · exact congrArg Nat.cast (UInt32.toNat_toUInt64 maxVal)
    · have hlt := maxVal.toNat_lt
      change 2 * maxVal.toUInt64.toNat < 2 ^ 64
      rw [UInt32.toNat_toUInt64]
      omega
  have hmin := nClassMax.toNat_lt
  have hnat : (min (nClassMax.toNat : Int) maxVal.toNat % 2 ^ 16).toNat = min nClassMax.toNat maxVal.toNat := by omega
  rw [wanted, hmax, UInt16.ofInt, hnat, UInt16.toNat_ofNat', Nat.mod_eq_of_lt (by omega)]

/-- No class or one is found at once. -/
theorem converges_of_wanted_le (hL : L.Lawful) {maxData : UInt64} {nClassMax : UInt16} (h : (wanted maxData nClassMax).toNat ≤ 1) :
    Converges L maxData nClassMax := by
  have hlen : (uniqueFloor L (binsf L (firstVars L maxData (wanted maxData nClassMax).toNat).b (wanted maxData nClassMax).toNat)).length =
      (wanted maxData nClassMax).toNat + 1 := by
    rcases Nat.le_one_iff_eq_zero_or_eq_one.mp h with hn | hn <;> rw [hn]
    · simp [uniqueFloor, binsf]
    · have hperm : (uniqueFloor L (binsf L (firstVars L maxData 1).b 1)).Perm [0, 1] := by
        refine (List.perm_ext_iff_of_nodup ((pairwise_uniqueFloor hL _).imp fun h => UInt64.ne_of_lt h) (by decide)).mpr fun v => ?_
        rw [mem_uniqueFloor hL]
        simp [binsf, List.range_succ, hL.floor_zero, hL.pow_zero, hL.floor_one, eq_comm]
      exact hperm.length_eq
  have hscarto : (firstVars L maxData (wanted maxData nClassMax).toNat).scarto = 0 := by
    rw [(ok_firstVars maxData _).scarto, scartoOf]
    have hbins : (firstVars L maxData (wanted maxData nClassMax).toNat).bins =
      uniqueFloor L (binsf L (firstVars L maxData (wanted maxData nClassMax).toNat).b (wanted maxData nClassMax).toNat) := rfl
    rw [hbins, hlen]
    simp
  rw [Converges, lastVars, loop, if_neg fun h => h.1 hscarto]
  exact Nat.zero_le _

/-! ## The bins of a feature -/

/-- The binning function is made of the edges that are found. -/
theorem binningFunction_eq {maxData : UInt64} (hmax : maxData ≠ 0) (nClassMax : UInt16) (flag0 : Bool) :
    binningFunction L maxData nClassMax flag0 = featInfoOf (found L maxData nClassMax) flag0 := by
  rw [binningFunction, if_neg hmax, featInfoOf]

/-- Without zeros there is one edge less. -/
theorem length_edges_featInfoOf (bins : List UInt64) (flag0 : Bool) : (featInfoOf bins flag0).edges.length = bins.length - flag0.toNat := by
  cases flag0 with
  | false => rfl
  | true => exact List.length_tail

/-- The edges increase. -/
theorem pairwise_edges (hL : L.Lawful) (maxData : UInt64) (nClassMax : UInt16) (flag0 : Bool) :
    (binningFunction L maxData nClassMax flag0).edges.Pairwise (· < ·) := by
  by_cases hmax : maxData = 0
  · rw [binningFunction, if_pos hmax]
    cases flag0 <;> simp
  · have hfound := edges_found hL maxData nClassMax
    rw [binningFunction_eq hmax]
    cases flag0 with
    | false => exact hfound.sorted
    | true => exact hfound.sorted.sublist (List.tail_sublist _)

/-- The number of the bins, in 16 bits. -/
theorem histoDim_binningFunction {maxData : UInt64} {nClassMax : UInt16} {flag0 : Bool}
    (hlen : 2 ≤ (binningFunction L maxData nClassMax flag0).edges.length) : (binningFunction L maxData nClassMax flag0).histoDim.toNat =
      ((binningFunction L maxData nClassMax flag0).edges.length - 1) % 2 ^ 16 := by
  by_cases hmax : maxData = 0
  · rw [binningFunction, if_pos hmax] at hlen
    cases flag0 <;> simp at hlen
  · rw [binningFunction_eq hmax] at hlen ⊢
    exact histoDim_featInfoOf (Nat.le_of_succ_le hlen)

/-- This is a search as the block takes it to be. -/
def search (hL : L.Lawful) : Search where
  bins := found L
  sorted max n := (edges_found hL max n).sorted
  zero max n := (edges_found hL max n).zero
  one max n := (edges_found hL max n).one

/-- The configuration with the search is the configuration. -/
theorem configure_search (hL : L.Lawful) (timescale maxNrBins : UInt32) (flag0 : Bool) (features : List (String × UInt32)) :
    StatAD.configure (search hL) timescale maxNrBins flag0 features = configure L timescale maxNrBins flag0 features := rfl

/-- What is known of the edges of a search is so of these. -/
theorem binned (hL : L.Lawful) (maxData : UInt64) (nClassMax : UInt16) (flag0 : Bool) :
    Binned flag0 (binningFunction L maxData nClassMax flag0) := binned_binningFunction (search hL) maxData nClassMax flag0

/-- The binning function of a configured feature. -/
theorem find?_configure (timescale maxNrBins : UInt32) (flag0 : Bool) (features : List (String × UInt32)) (f : String) :
    (configure L timescale maxNrBins flag0 features).featInfoMap.find? f =
      (features.find? fun p => p.1 = f).map fun p => binningFunction L p.2.toUInt64 maxNrBins.toUInt16 flag0 := by
  rw [configure, OrdMap.find?_foldl_insert (fun p : String × UInt32 => p.1), OrdMap.find?_empty, Option.none_or]

end Binning

end Blockmon.StatAD
