import Blockmon.Lemmas.PerUserCounter

/-!
# Conservation of the counts

Nothing that comes in is lost or counted twice: for each user and feature, what has been sent and what is in the table is what has been
received, modulo 2^64.
-/

namespace Blockmon.StatAD

namespace PerUserCounter

variable (order : VisitOrder (UInt32 × FeaturesMap)) (u : UInt32) (f : String)

/-- One ticket, on each of the three paths. -/
theorem conserved_receiveMsg (b : PerUserCounter) (t : TicketMsg) :
    total u f (b.receiveMsg order t).2 + held u f (b.receiveMsg order t).1.ticketsHt ≡ held u f b.ticketsHt + total u f [t] [MOD 2 ^ 64] := by
  rcases receiveMsg_cases order b t with ⟨hsignal, -, heq⟩ | ⟨⟨hsignal, -⟩, heq⟩ | ⟨-, -, heq⟩
  · rw [heq, total_nil, total_signalling u f hsignal, Nat.zero_add, Nat.add_zero]
  · rw [heq, closeInterval]
    dsimp only
    have hnew : total u f [TicketMsg.new (b.nextAggTime t.timestamp) 0] = 0 := total_signalling u f ⟨rfl, rfl⟩
    rw [total_append, total_emptyHashTable, hnew, total_signalling u f hsignal]
    rfl
  · rw [heq, insertTicket, total_nil, Nat.zero_add]
    exact held_insertElement u f b.ticketsHt t

/-- Tickets conserve what a user has of a feature, modulo `2^64`. -/
theorem conserved_receiveMsgs (b : PerUserCounter) (ts : List TicketMsg) :
    total u f (receiveMsgs order ts b).2 + held u f (receiveMsgs order ts b).1.ticketsHt ≡ held u f b.ticketsHt + total u f ts [MOD 2 ^ 64] := by
  induction ts generalizing b with
  | nil => rw [receiveMsgs, total_nil, Nat.zero_add, Nat.add_zero]
  | cons t ts ih =>
    have hstep := conserved_receiveMsg order u f b t
    have hrest := ih (b.receiveMsg order t).1
    have hcons : total u f (t :: ts) = total u f [t] + total u f ts := total_append u f [t] ts
    rw [receiveMsgs, total_append, hcons, Nat.add_assoc]
    calc
      _ ≡ total u f (b.receiveMsg order t).2 + (held u f (b.receiveMsg order t).1.ticketsHt + total u f ts) [MOD 2 ^ 64] := hrest.add_left _
      _ ≡ held u f b.ticketsHt + total u f [t] + total u f ts [MOD 2 ^ 64] := by
        rw [← Nat.add_assoc]
        exact hstep.add_right _
      _ ≡ held u f b.ticketsHt + (total u f [t] + total u f ts) [MOD 2 ^ 64] := by rw [Nat.add_assoc]

end PerUserCounter

open PerUserCounter

/-- What was sent of a user's feature and what is held of it come to what was received, modulo 2^64, whatever the tickets and whatever
order the table is read in. -/
theorem perUserCounter_conserves (order : VisitOrder (UInt32 × FeaturesMap)) (inTimescale outTimescale : UInt32) (ts : List TicketMsg)
    (u : UInt32) (f : String) :
    total u f (receiveMsgs order ts (PerUserCounter.new inTimescale outTimescale)).2 +
        held u f (receiveMsgs order ts (PerUserCounter.new inTimescale outTimescale)).1.ticketsHt ≡ total u f ts [MOD 2 ^ 64] := by
  have h := conserved_receiveMsgs order u f (PerUserCounter.new inTimescale outTimescale) ts
  rw [PerUserCounter.new, held_empty, Nat.zero_add] at h
  exact h

end Blockmon.StatAD

/-!
## The signalling tickets of the per-user block

The block closes an interval with the tickets of its users and one signalling ticket, at the next multiple of the output timescale. With an input
timescale other than 0 a signalling ticket at the aggregation time itself is neither dropped nor closes the interval: it makes an empty entry for
the user 0, which is sent like a signal when the interval is closed.
-/

namespace Blockmon.StatAD

/-! ## The intervals of the tickets -/

/-- What is received in an interval, the time of it and the time that the next one has. -/
structure Interval where
  aggTime : Nat
  tickets : List TicketMsg
  next : Nat

/-- A signalling ticket that is not before the interval's time, or after it for tickets of another block. -/
def Ends (inTimescale : UInt32) (aggTime : Nat) (t : TicketMsg) : Prop :=
  t.Signalling ∧ if inTimescale = 0 then aggTime ≤ t.timestamp.toNat else aggTime < t.timestamp.toNat

instance (inTimescale : UInt32) (aggTime : Nat) (t : TicketMsg) : Decidable (Ends inTimescale aggTime t) := inferInstanceAs (Decidable (_ ∧ _))

/-- The first multiple of the timescale that is after the ticket. -/
def nextMultiple (outTimescale : UInt32) (t : TicketMsg) : Nat :=
  (t.timestamp.toNat / (60 * outTimescale.toNat) + 1) * (60 * outTimescale.toNat)

/-- The intervals that the tickets end. -/
def intervals (inTimescale outTimescale : UInt32) : Nat → List TicketMsg → List TicketMsg → List Interval
  | _, _, [] => []
  | aggTime, pending, t :: ts =>
    if Ends inTimescale aggTime t then
      { aggTime := aggTime, tickets := pending, next := nextMultiple outTimescale t } ::
        intervals inTimescale outTimescale (nextMultiple outTimescale t) [] ts
    else intervals inTimescale outTimescale aggTime (pending ++ [t]) ts

/-- The tickets that report an interval: the values of its users, and the signal behind them. -/
def Reports (seg : List TicketMsg) (i : Interval) : Prop :=
  ∃ tickets signal, seg = tickets ++ [signal] ∧ (signal.Signalling ∧ signal.timestamp.toNat = i.next) ∧
    (∀ t ∈ tickets, t.timestamp.toNat = i.aggTime ∧ ¬t.Signalling) ∧
      ∀ u f, PerUserCounter.total u f tickets ≡ PerUserCounter.total u f i.tickets [MOD 2 ^ 64]

namespace PerUserCounter

variable (order : VisitOrder (UInt32 × FeaturesMap))

/-- No signalling ticket makes an entry, and neither the interval nor the time that it ends at wraps around. -/
def Regular (b : PerUserCounter) (t : TicketMsg) : Prop :=
  (t.Signalling → b.inTimescale ≠ 0 → t.timestamp = b.currentAggTime → (b.ticketsHt.find? 0).isSome) ∧
    (b.Closes t → 60 * b.outTimescale.toNat < 2 ^ 32 ∧ nextMultiple b.outTimescale t < 2 ^ 64)

/-- Every ticket finds the block in such a state. -/
def RegularRun : List TicketMsg → PerUserCounter → Prop
  | [], _ => True
  | t :: ts, b => b.Regular t ∧ RegularRun ts (b.receiveMsg order t).1

instance (b : PerUserCounter) (t : TicketMsg) : Decidable (b.Regular t) := inferInstanceAs (Decidable ((_ → _ → _ → _) ∧ (_ → _)))

instance decidableRegularRun : ∀ ts b, Decidable (RegularRun order ts b)
  | [], _ => isTrue trivial
  | t :: ts, b => @instDecidableAnd (b.Regular t) _ _ (decidableRegularRun ts (b.receiveMsg order t).1)

/-! ## The entry of the user 0 -/

/-- An entry of the user 0 has features. -/
def Named (b : PerUserCounter) : Prop := ∀ feats, b.ticketsHt.find? 0 = some feats → feats.entries ≠ []

/-- A feature that is added is there. -/
theorem addFeature_ne_nil (feats : FeaturesMap) (feat : String × UInt64) : (addFeature feats feat).entries ≠ [] := by
  have hfind : ∃ value, (addFeature feats feat).find? feat.1 = some value := by
    rw [addFeature]
    cases hold : feats.find? feat.1 <;> simp [OrdMap.find?_insert, OrdMap.find?_assign, hold]
  obtain ⟨value, hvalue⟩ := hfind
  exact List.ne_nil_of_mem (OrdMap.find?_eq_some.mp hvalue)

/-- So are the features that were there before. -/
theorem foldl_addFeature_ne_nil {feats : FeaturesMap} (h : feats.entries ≠ []) (es : List (String × UInt64)) :
    (es.foldl addFeature feats).entries ≠ [] := by
  induction es generalizing feats with
  | nil => exact h
  | cons e es ih => exact ih (addFeature_ne_nil feats e)

/-- A ticket leaves the users with features. -/
theorem named_insertTicket {b : PerUserCounter} (hb : b.Named) {t : TicketMsg} (ht : t.Signalling → (b.ticketsHt.find? 0).isSome) :
    (b.insertTicket t).1.Named := by
  intro feats hfind
  change (insertElementInHashTable b.ticketsHt t).find? 0 = some feats at hfind
  rw [insertElementInHashTable] at hfind
  by_cases hu : t.userID = 0
  · rw [hu] at hfind
    cases hold : b.ticketsHt.find? 0 with
    | none =>
      rw [hold] at hfind
      have heq : t.featurePairs = feats := by simpa [OrdMap.find?_insert, hold] using hfind
      rintro hnil
      rw [← heq] at hnil
      have hsome := ht ⟨hu, List.length_eq_zero_iff.mpr hnil⟩
      simp [hold] at hsome
    | some old =>
      rw [hold] at hfind
      have heq : t.featurePairs.entries.foldl addFeature old = feats := by simpa [OrdMap.find?_assign] using hfind
      rw [← heq]
      exact foldl_addFeature_ne_nil (hb old hold) _
  · refine hb feats ?_
    cases hold : b.ticketsHt.find? t.userID <;> simpa [hold, OrdMap.find?_insert, OrdMap.find?_assign, Ne.symm hu] using hfind

/-- Then no ticket of the table is a signal. -/
theorem not_signalling_of_named {b : PerUserCounter} (hb : b.Named) :
    ∀ t ∈ (emptyHashTable order b.currentAggTime b.ticketsHt).1, t.timestamp = b.currentAggTime ∧ ¬t.Signalling := by
  intro t ht
  obtain ⟨e, he, rfl⟩ := List.mem_map.mp ht
  refine ⟨rfl, fun hsignal => ?_⟩
  have hmem : e ∈ b.ticketsHt.entries := (order.perm _).mem_iff.mp he
  have hu : e.1 = 0 := hsignal.1
  refine hb e.2 ?_ (List.length_eq_zero_iff.mp hsignal.2)
  rw [← hu]
  exact OrdMap.find?_eq_some.mpr hmem

/-! ## Runs -/

section Run

variable {b : PerUserCounter} {t : TicketMsg}

/-- The block closes an interval just when the ticket is at or behind its end. -/
theorem closes_iff : b.Closes t ↔ Ends b.inTimescale b.currentAggTime.toNat t := by
  rw [Closes, Ends]
  simp only [UInt64.le_iff_toNat_le, UInt64.lt_iff_toNat_lt]

/-- The end of the next interval, as long as nothing wraps. -/
theorem toNat_nextAggTime (hpos : 1 ≤ b.outTimescale.toNat) (hout : 60 * b.outTimescale.toNat < 2 ^ 32)
    (hwrap : nextMultiple b.outTimescale t < 2 ^ 64) : (b.nextAggTime t.timestamp).toNat = nextMultiple b.outTimescale t := by
  have hstep : (60 * b.outTimescale).toUInt64.toNat = 60 * b.outTimescale.toNat := by
    rw [UInt32.toNat_toUInt64, UInt32.toNat_mul]
    exact Nat.mod_eq_of_lt hout
  rw [nextMultiple] at hwrap ⊢
  have hle : t.timestamp.toNat / (60 * b.outTimescale.toNat) + 1 ≤
      (t.timestamp.toNat / (60 * b.outTimescale.toNat) + 1) * (60 * b.outTimescale.toNat) := Nat.le_mul_of_pos_right _ (by omega)
  rw [nextAggTime, UInt64.toNat_mul, UInt64.toNat_add, UInt64.toNat_div, hstep]
  change (t.timestamp.toNat / (60 * b.outTimescale.toNat) + 1) % 2 ^ 64 * (60 * b.outTimescale.toNat) % 2 ^ 64 = _
  have hinner : (t.timestamp.toNat / (60 * b.outTimescale.toNat) + 1) % 2 ^ 64 = t.timestamp.toNat / (60 * b.outTimescale.toNat) + 1 :=
    Nat.mod_eq_of_lt (Nat.lt_of_le_of_lt hle hwrap)
  rw [hinner, Nat.mod_eq_of_lt hwrap]

/-- The next multiple is later than the ticket. -/
theorem lt_nextMultiple (outTimescale : UInt32) (hpos : 1 ≤ outTimescale.toNat) (t : TicketMsg) :
    t.timestamp.toNat < nextMultiple outTimescale t := by
  rw [nextMultiple, Nat.mul_comm]
  exact Nat.lt_mul_div_succ _ (by omega)

/-- Each interval ends later than the one before. -/
theorem next_intervals {inTimescale outTimescale : UInt32} (hpos : 1 ≤ outTimescale.toNat) (aggTime : Nat) (pending ts : List TicketMsg) :
    (∀ i ∈ intervals inTimescale outTimescale aggTime pending ts, aggTime < i.next ∧ i.aggTime < i.next ∧ 60 * outTimescale.toNat ∣ i.next) ∧
      ((intervals inTimescale outTimescale aggTime pending ts).map Interval.next).Pairwise (· < ·) := by
  induction ts generalizing aggTime pending with
  | nil => exact ⟨fun i hi => absurd hi List.not_mem_nil, .nil⟩
  | cons t ts ih =>
    rw [intervals]
    by_cases hends : Ends inTimescale aggTime t
    · have hle : aggTime ≤ t.timestamp.toNat := by
        have hend := hends.2
        split at hend <;> omega
      have hlt := Nat.lt_of_le_of_lt hle (lt_nextMultiple outTimescale hpos t)
      obtain ⟨hnext, hpairwise⟩ := ih (nextMultiple outTimescale t) []
      rw [if_pos hends]
      refine ⟨List.forall_mem_cons.mpr ⟨⟨hlt, hlt, Dvd.intro_left _ rfl⟩, fun i hi => ?_⟩, ?_⟩
      · obtain ⟨hi₁, hi₂⟩ := hnext i hi
        exact ⟨hlt.trans hi₁, hi₂⟩
      · rw [List.map_cons, List.pairwise_cons]
        refine ⟨fun n hn => ?_, hpairwise⟩
        obtain ⟨i, hi, rfl⟩ := List.mem_map.mp hn
        exact (hnext i hi).1
    · rw [if_neg hends]
      exact ih aggTime (pending ++ [t])

/-- The only signals are those that end the intervals. -/
theorem filter_signalling {segs : List (List TicketMsg)} {is : List Interval} (h : List.Forall₂ Reports segs is) :
    ((segs.flatten.filter fun t => t.Signalling).map fun t => t.timestamp.toNat) = is.map Interval.next := by
  induction h with
  | nil => rfl
  | @cons seg i segs is hseg _ ih =>
    obtain ⟨tickets, signal, rfl, ⟨hsignal, hnext⟩, htickets, -⟩ := hseg
    have hnone : (tickets.filter fun t => t.Signalling) = [] := by
      rw [List.filter_eq_nil_iff]
      exact fun t ht h => (htickets t ht).2 (of_decide_eq_true h)
    rw [List.flatten_cons, List.filter_append, List.map_append, ih, List.filter_append, hnone]
    simp [hsignal, hnext]

/-- The tickets that end an interval report it, when its values are in the table. -/
theorem reports_closeInterval {pending : List TicketMsg} {next : Nat} (hb : b.Named) (hnext : (b.nextAggTime t.timestamp).toNat = next)
    (hheld : ∀ u f, held u f b.ticketsHt ≡ total u f pending [MOD 2 ^ 64]) :
    Reports (b.closeInterval order t.timestamp).2 { aggTime := b.currentAggTime.toNat, tickets := pending, next := next } := by
  refine ⟨(emptyHashTable order b.currentAggTime b.ticketsHt).1, _, rfl, ⟨⟨rfl, rfl⟩, hnext⟩, fun t' ht' => ?_, fun u f => ?_⟩
  · obtain ⟨htime, hnotSignal⟩ := not_signalling_of_named order hb t' ht'
    exact ⟨congrArg UInt64.toNat htime, hnotSignal⟩
  · rw [total_emptyHashTable]
    exact hheld u f

variable {inTimescale outTimescale : UInt32} (hpos : 1 ≤ outTimescale.toNat)

include hpos

/-- The tickets that are sent report the intervals one after the other. -/
theorem reports_receiveMsgs {ts : List TicketMsg} (hin : b.inTimescale = inTimescale) (hscale : b.outTimescale = outTimescale) (hb : b.Named)
    (hts : RegularRun order ts b) {pending : List TicketMsg} (hheld : ∀ u f, held u f b.ticketsHt ≡ total u f pending [MOD 2 ^ 64]) :
    ∃ segs, (receiveMsgs order ts b).2 = segs.flatten ∧
      List.Forall₂ Reports segs (intervals inTimescale outTimescale b.currentAggTime.toNat pending ts) := by
  induction ts generalizing b pending with
  | nil => exact ⟨[], rfl, .nil⟩
  | cons t ts ih =>
    obtain ⟨⟨hentry, hwrap⟩, hts⟩ := hts
    rw [receiveMsgs, intervals]
    have hpending : ∀ u f, (t.Signalling → total u f (pending ++ [t]) = total u f pending) := by
      intro u f hsignal
      rw [total_append, total_signalling u f hsignal, Nat.add_zero]
    rcases receiveMsg_cases order b t with ⟨hsignal, hlt, heq⟩ | ⟨hcloses, heq⟩ | ⟨hinsert, hnot, heq⟩
    · have hnot : ¬Ends inTimescale b.currentAggTime.toNat t := by
        rintro ⟨-, hend⟩
        rw [UInt64.lt_iff_toNat_lt] at hlt
        split at hend <;> omega
      rw [heq] at hts ⊢
      rw [if_neg hnot]
      exact ih hin hscale hb hts fun u f => by rw [hpending u f hsignal]; exact hheld u f
    · have hends : Ends inTimescale b.currentAggTime.toNat t := hin ▸ closes_iff.mp hcloses
      have hnext : (b.nextAggTime t.timestamp).toNat = nextMultiple outTimescale t := by
        subst hscale
        exact toNat_nextAggTime hpos (hwrap hcloses).1 (hwrap hcloses).2
      rw [heq] at hts ⊢
      rw [if_pos hends]
      have hreports := reports_closeInterval order hb hnext hheld
      have hnamed : (b.closeInterval order t.timestamp).1.Named := fun feats hfind => by cases hfind
      have hempty : ∀ u f, held u f (b.closeInterval order t.timestamp).1.ticketsHt ≡ total u f [] [MOD 2 ^ 64] := fun u f => Nat.ModEq.refl 0
      obtain ⟨segs, hsent, hsegs⟩ := ih (b := (b.closeInterval order t.timestamp).1) hin hscale hnamed hts hempty
      refine ⟨_ :: segs, ?_, .cons hreports ?_⟩
      · rw [hsent]
        rfl
      · rw [← hnext]
        exact hsegs
    · have hnot' : ¬Ends inTimescale b.currentAggTime.toNat t := fun h => hnot (closes_iff.mpr (hin ▸ h))
      rw [heq] at hts ⊢
      rw [if_neg hnot']
      have hnamed := named_insertTicket hb fun hsignal => hentry hsignal (hinsert hsignal).1 (hinsert hsignal).2
      refine ih (b := (b.insertTicket t).1) hin hscale hnamed hts fun u f => ?_
      rw [total_append]
      exact (held_insertElement u f b.ticketsHt t).trans ((hheld u f).add_right _)

end Run

end PerUserCounter

open PerUserCounter

/-- In every regular run the tickets that are sent report the intervals one after the other, each with
one signal behind its users, and the times of the signals are increasing multiples of the output timescale. -/
theorem perUserCounter_signals (order : VisitOrder (UInt32 × FeaturesMap)) (inTimescale : UInt32) {outTimescale : UInt32}
    (hpos : 1 ≤ outTimescale.toNat) {ts : List TicketMsg} (hts : RegularRun order ts (PerUserCounter.new inTimescale outTimescale)) :
    let sent := (receiveMsgs order ts (PerUserCounter.new inTimescale outTimescale)).2
    let is := intervals inTimescale outTimescale 0 [] ts
    (∃ segs, sent = segs.flatten ∧ List.Forall₂ Reports segs is) ∧
      ((sent.filter fun t => t.Signalling).map fun t => t.timestamp.toNat) = is.map Interval.next ∧
      (∀ i ∈ is, i.aggTime < i.next ∧ 60 * outTimescale.toNat ∣ i.next) ∧ (is.map Interval.next).Pairwise (· < ·) := by
  intro sent is
  have hnamed : (PerUserCounter.new inTimescale outTimescale).Named := fun feats hfind => by cases hfind
  have hempty : ∀ u f, held u f (PerUserCounter.new inTimescale outTimescale).ticketsHt ≡ total u f [] [MOD 2 ^ 64] := fun u f => Nat.ModEq.refl 0
  obtain ⟨segs, hsent, hsegs⟩ := reports_receiveMsgs order hpos rfl rfl hnamed hts hempty
  obtain ⟨hnext, hpairwise⟩ := next_intervals hpos 0 [] ts
  refine ⟨⟨segs, hsent, hsegs⟩, ?_, fun i hi => (hnext i hi).2, hpairwise⟩
  change ((receiveMsgs order ts (PerUserCounter.new inTimescale outTimescale)).2.filter _).map _ = _
  rw [hsent]
  exact filter_signalling hsegs

/-- Three tickets, with an end of the interval between them. -/
theorem perUserCounter_signals_one :
    let sent := (receiveMsgs .listed [TicketMsg.new 300 0, TicketMsg.new 400 7, TicketMsg.new 660 0] (PerUserCounter.new 1 5)).2
    ((sent.filter fun t => t.Signalling).map fun t => t.timestamp.toNat) =
      (intervals 1 5 0 [] [TicketMsg.new 300 0, TicketMsg.new 400 7, TicketMsg.new 660 0]).map Interval.next :=
  (perUserCounter_signals .listed 1 (by decide) (by decide)).2.1

/-- A signalling ticket at the aggregation time 600: the two intervals that are closed are reported by three signals, two of them at 600. -/
theorem perUserCounter_third_signal :
    let sent := (receiveMsgs .listed [TicketMsg.new 300 0, TicketMsg.new 600 0, TicketMsg.new 660 0] (PerUserCounter.new 1 5)).2
    ((sent.filter fun t => t.Signalling).map fun t => t.timestamp.toNat) = [600, 600, 900] ∧
      (intervals 1 5 0 [] [TicketMsg.new 300 0, TicketMsg.new 600 0, TicketMsg.new 660 0]).length = 2 := by
  decide

end Blockmon.StatAD
