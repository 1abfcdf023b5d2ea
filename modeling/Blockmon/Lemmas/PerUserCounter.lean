import Blockmon.PerUserCounter
import Mathlib.Data.Nat.ModEq
import Mathlib.Algebra.BigOperators.Group.List.Basic

/-!
# What the per-user block does with a ticket

A ticket is dropped, closes the interval or goes into the table. The value of a feature of a user is counted over a list of tickets by `total`,
and in the table by `held`; both are numbers, and a merged value is their sum modulo 2^64.
-/

namespace Blockmon.StatAD

namespace PerUserCounter

/-- The ticket ends the interval. -/
def Closes (b : PerUserCounter) (t : TicketMsg) : Prop :=
  t.Signalling ∧ if b.inTimescale = 0 then b.currentAggTime ≤ t.timestamp else b.currentAggTime < t.timestamp

instance (b : PerUserCounter) (t : TicketMsg) : Decidable (b.Closes t) := inferInstanceAs (Decidable (_ ∧ _))

/-- A signalling ticket at the aggregation time goes into the table like any other, if the input timescale is not 0. -/
theorem receiveMsg_cases (order : VisitOrder (UInt32 × FeaturesMap)) (b : PerUserCounter) (t : TicketMsg) :
    (t.Signalling ∧ t.timestamp < b.currentAggTime ∧ b.receiveMsg order t = (b, [])) ∨
      (b.Closes t ∧ b.receiveMsg order t = b.closeInterval order t.timestamp) ∨
        ((t.Signalling → b.inTimescale ≠ 0 ∧ t.timestamp = b.currentAggTime) ∧ ¬b.Closes t ∧ b.receiveMsg order t = b.insertTicket t) := by
  rw [receiveMsg]
  by_cases hsignal : t.Signalling
  · rcases Nat.lt_trichotomy t.timestamp.toNat b.currentAggTime.toNat with hlt | heq | hgt
    · left
      have hlt : t.timestamp < b.currentAggTime := UInt64.lt_iff_toNat_lt.mpr hlt
      exact ⟨hsignal, hlt, if_pos ⟨hlt, hsignal⟩⟩
    · have heq : t.timestamp = b.currentAggTime := UInt64.toNat_inj.mp heq
      by_cases hin : b.inTimescale = 0
      · right; left
        refine ⟨⟨hsignal, ?_⟩, ?_⟩
        · simp [hin, heq]
        · simp [hin, heq, hsignal]
      · right; right
        refine ⟨fun _ => ⟨hin, heq⟩, fun h => ?_, ?_⟩
        · have hlt := h.2
          rw [if_neg hin, heq] at hlt
          exact UInt64.lt_irrefl _ hlt
        · simp [hin, heq]
    · right; left
      have hgt : b.currentAggTime < t.timestamp := UInt64.lt_iff_toNat_lt.mpr hgt
      have hnlt : ¬t.timestamp < b.currentAggTime := UInt64.lt_asymm hgt
      refine ⟨⟨hsignal, ?_⟩, ?_⟩
      · simp [UInt64.le_of_lt hgt, hgt]
      · simp [hnlt, hgt, UInt64.le_of_lt hgt, hsignal]
  · right; right
    refine ⟨fun h => absurd h hsignal, fun h => hsignal h.1, ?_⟩
    simp [hsignal]

/-! ## Values -/

/-- The value of a feature. -/
def featureValue (f : String) (feats : FeaturesMap) : Nat := ((feats.find? f).getD 0).toNat

/-- The values of a feature summed over the tickets of a user. -/
def total (u : UInt32) (f : String) (ts : List TicketMsg) : Nat :=
  ((ts.filter fun t => t.userID = u).map fun t => featureValue f t.featurePairs).sum

/-- The value of the feature in the user's entry. -/
def held (u : UInt32) (f : String) (ht : OrdMap UInt32 FeaturesMap) : Nat := ((ht.find? u).map (featureValue f)).getD 0

variable (u : UInt32) (f : String)

@[simp] theorem total_nil : total u f [] = 0 := rfl

@[simp] theorem total_append (ts ts' : List TicketMsg) : total u f (ts ++ ts') = total u f ts + total u f ts' := by
  simp [total]

/-- The total of one ticket. -/
theorem total_singleton (t : TicketMsg) : total u f [t] = if t.userID = u then featureValue f t.featurePairs else 0 := by
  by_cases h : t.userID = u <;> simp [total, h]

/-- Without features there is no value. -/
theorem featureValue_of_entries_nil {feats : FeaturesMap} (h : feats.entries = []) : featureValue f feats = 0 := by
  simp [featureValue, OrdMap.find?, h]

/-- A ticket that signals has no values. -/
theorem total_signalling {t : TicketMsg} (ht : t.Signalling) : total u f [t] = 0 := by
  rw [total_singleton, featureValue_of_entries_nil f (List.length_eq_zero_iff.mp ht.2), ite_self]

@[simp] theorem held_empty : held u f OrdMap.empty = 0 := rfl

/-- The entries that are sent are those of the table. -/
theorem total_emptyHashTable (order : VisitOrder (UInt32 × FeaturesMap)) (currAggTime : UInt64) (ht : OrdMap UInt32 FeaturesMap) :
    total u f (emptyHashTable order currAggTime ht).1 = held u f ht := by
  have hperm : ((order.visit ht.entries).filter fun e => e.1 = u).Perm ((ht.find? u).toList.map fun feats => (u, feats)) := by
    rw [← OrdMap.filter_key]
    exact (order.perm ht.entries).filter _
  rw [total, emptyHashTable, List.filter_map, List.map_map]
  have hsum := (hperm.map fun e => featureValue f e.2).sum_eq
  change (((order.visit ht.entries).filter fun e => e.1 = u).map fun e => featureValue f e.2).sum = _
  rw [hsum, held]
  cases ht.find? u <;> simp

/-- A feature is added modulo `2^64`. -/
theorem featureValue_addFeature (feats : FeaturesMap) (feat : String × UInt64) :
    featureValue f (addFeature feats feat) ≡ featureValue f feats + (if feat.1 = f then feat.2.toNat else 0) [MOD 2 ^ 64] := by
  rw [addFeature]
  by_cases hf : feat.1 = f
  · subst hf
    rw [if_pos rfl]
    cases hfind : feats.find? feat.1 with
    | none => simp [featureValue, OrdMap.find?_insert, hfind, Nat.ModEq]
    | some value => simp [featureValue, OrdMap.find?_assign, hfind, Nat.ModEq]
  · rw [if_neg hf, Nat.add_zero]
    cases feats.find? feat.1 <;> simp [featureValue, OrdMap.find?_insert, OrdMap.find?_assign, Ne.symm hf, Nat.ModEq]

/-- Features are added modulo `2^64`. -/
theorem featureValue_foldl (feats : FeaturesMap) (es : List (String × UInt64)) :
    featureValue f (es.foldl addFeature feats) ≡ featureValue f feats + ((es.filter fun e => e.1 = f).map fun e => e.2.toNat).sum [MOD 2 ^ 64] := by
  induction es generalizing feats with
  | nil => exact Nat.ModEq.refl _
  | cons e es ih =>
    refine (ih _).trans (((featureValue_addFeature f feats e).add_right _).trans ?_)
    by_cases hf : e.1 = f
    · simp [hf, Nat.add_assoc, Nat.ModEq]
    · simp [hf, Nat.ModEq]

/-- A feature has one value. -/
theorem sum_filter_key (feats : FeaturesMap) : ((feats.entries.filter fun e => e.1 = f).map fun e => e.2.toNat).sum = featureValue f feats := by
  rw [OrdMap.filter_key, featureValue]
  cases feats.find? f <;> simp

/-- A ticket that goes into the table adds its values to the user's. -/
theorem held_insertElement (ht : OrdMap UInt32 FeaturesMap) (t : TicketMsg) :
    held u f (insertElementInHashTable ht t) ≡ held u f ht + total u f [t] [MOD 2 ^ 64] := by
  rw [total_singleton, insertElementInHashTable]
  by_cases hu : t.userID = u
  · subst hu
    rw [if_pos rfl]
    cases hfind : ht.find? t.userID with
    | none => simp [held, OrdMap.find?_insert, hfind, Nat.ModEq]
    | some feats =>
      have hmerge := featureValue_foldl f feats t.featurePairs.entries
      rw [sum_filter_key] at hmerge
      simpa [held, OrdMap.find?_assign, hfind] using hmerge
  · rw [if_neg hu, Nat.add_zero]
    cases ht.find? t.userID <;> simp [held, OrdMap.find?_insert, OrdMap.find?_assign, Ne.symm hu, Nat.ModEq]

end PerUserCounter

end Blockmon.StatAD
