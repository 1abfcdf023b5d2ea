import Mathlib.Data.List.Count
import Blockmon.Lemmas.TimerThread

/-!
# The ledger of the timers

Every timer that was created is in one place or was dropped; what was delivered was put back or dropped, except for what the threads
still have in hand. `Ledger` is kept by every effect, with the places `loc` of the timers.
-/

namespace Blockmon

open TimerLog TimerConfig

variable {ι β : Type}

/-- A thread has delivered the timer and not yet put it back or dropped it. -/
def TimerConfig.Owed (c : TimerConfig ι β) (x : TimerId) : Prop := ∃ i, x ∈ c.owes i

/-- Where the timers are, and how often each was delivered, put back and dropped. -/
structure Ledger (c : TimerConfig ι β) (loc : TimerId → Option (Place ι)) : Prop where
  placed : Tokens.Placed c.held loc
  uids : (created c.log).map TimerId.uid = List.range c.nextUid
  known : ∀ x, loc x ≠ none → x ∈ created c.log
  gone : ∀ x ∈ created c.log, loc x = none ↔ x ∈ dropped c.log
  dropped_nodup : (dropped c.log).Nodup
  dropped_oneShot : ∀ x ∈ dropped c.log, x ∈ created c.log ∧ x.kind = .oneShot
  reinserted_periodic : ∀ x ∈ reinserted c.log, x.kind ≠ .oneShot
  owed : ∀ x, c.Owed x → (delivered c.log).count x = (reinserted c.log).count x + (dropped c.log).count x + 1
  settled : ∀ x, ¬c.Owed x → (delivered c.log).count x = (reinserted c.log).count x + (dropped c.log).count x

/-- At the start there are no timers. -/
theorem ledger_new : Ledger (TimerConfig.new : TimerConfig ι β) fun _ => none := by
  have hheld : ∀ p, (TimerConfig.new : TimerConfig ι β).held p = [] := by
    intro p
    cases p with
    | queue => rfl
    | heap => rfl
    | hand i => rfl
  refine ⟨⟨fun p => ?_, fun p x => ?_⟩, rfl, fun x h => absurd rfl h, ?_, List.nodup_nil, ?_, ?_, ?_, fun x _ => rfl⟩
  · rw [hheld]
    exact List.nodup_nil
  · rw [hheld]
    exact iff_of_false List.not_mem_nil nofun
  · exact fun x hx => by cases hx
  · exact fun x hx => by cases hx
  · exact fun x hx => by cases hx
  · rintro x ⟨i, hi⟩
    cases hi

section

variable {c c' : TimerConfig ι β} {loc : TimerId → Option (Place ι)} {x : TimerId} {i : ι}

/-- A timer that is owed is in the hand. -/
theorem mem_held_of_owes (h : x ∈ c.owes i) : x ∈ c.held (.hand i) := by
  obtain ⟨t, ht, rfl⟩ := List.mem_map.mp h
  refine List.mem_map.mpr ⟨t, ?_, rfl⟩
  cases hpc : c.threads i with
  | schedLock t' k | schedPush t' k =>
    rw [hpc] at ht
    exact List.mem_cons_of_mem _ ht
  | schedUnlock k =>
    rw [hpc] at ht
    exact ht
  | handling e | renew e | relock e ttmp | insert e ttmp =>
    rw [hpc] at ht
    exact ht
  | _ =>
    rw [hpc] at ht
    cases ht

/-- Only the thread that holds a timer can owe it. -/
theorem Ledger.owed_iff (h : Ledger c loc) (hx : x ∈ c.held (.hand i)) : c.Owed x ↔ x ∈ c.owes i := by
  constructor
  · rintro ⟨j, hj⟩
    have hji : Place.hand j = Place.hand i := h.placed.unique hx (mem_held_of_owes hj)
    cases hji
    exact hj
  · exact fun hi => ⟨i, hi⟩

/-- A timer in a place was created and not dropped. -/
theorem Ledger.not_dropped (h : Ledger c loc) {p : Place ι} (hx : x ∈ c.held p) : x ∈ created c.log ∧ x ∉ dropped c.log := by
  have hloc := (h.placed.mem_iff p x).mp hx
  have hcreated := h.known x (by rw [hloc]; exact nofun)
  refine ⟨hcreated, fun hdropped => ?_⟩
  rw [(h.gone x hcreated).mpr hdropped] at hloc
  cases hloc

/-! ## The effects -/

section Books

variable {e : TimerEvent ι} (hlog : c'.log = c.log ++ [e])

include hlog

/-- The timers made, with one more event. -/
theorem created_of_log : created c'.log = created c.log ++ created [e] := by rw [hlog, created, List.filterMap_append]; rfl

/-- The deliveries, with one more event. -/
theorem delivered_of_log : delivered c'.log = delivered c.log ++ delivered [e] := by rw [hlog, delivered, List.filterMap_append]; rfl

/-- The timers put back, with one more event. -/
theorem reinserted_of_log : reinserted c'.log = reinserted c.log ++ reinserted [e] := by rw [hlog, reinserted, List.filterMap_append]; rfl

/-- The timers dropped, with one more event. -/
theorem dropped_of_log : dropped c'.log = dropped c.log ++ dropped [e] := by rw [hlog, dropped, List.filterMap_append]; rfl

end Books

/-- A timer that is put somewhere else or nowhere is none of the unknown ones. -/
theorem Ledger.known_update (h : Ledger c loc) (hx : x ∈ created c.log) {o : Option (Place ι)} {y : TimerId} (hy : Function.update loc x o y ≠ none) :
    y ∈ created c.log := by
  by_cases hyx : y = x
  · exact hyx ▸ hx
  · rw [Function.update_of_ne hyx] at hy
    exact h.known y hy

/-- The timers that are owed, when only thread `i` changed what it owes. -/
theorem owed_congr (h : ∀ j, c'.owes j = c.owes j) (x : TimerId) : c'.Owed x ↔ c.Owed x := by
  unfold TimerConfig.Owed
  simp only [h]

/-- What one thread does not owe. -/
theorem owed_of_ne {y : TimerId} (hi : y ∈ c'.owes i ↔ y ∈ c.owes i) (h : ∀ j, j ≠ i → c'.owes j = c.owes j) : c'.Owed y ↔ c.Owed y := by
  refine exists_congr fun j => ?_
  by_cases hj : j = i
  · subst hj
    exact hi
  · rw [h j hj]

/-- A step that adds nothing about timers to the history, and moves none or moves one. -/
theorem Ledger.of_placed {loc' : TimerId → Option (Place ι)} (h : Ledger c loc)
    (hlog : c'.log = c.log ∨ ∃ i msg, c'.log = c.log ++ [.threw i msg]) (huid : c'.nextUid = c.nextUid)
    (howes : ∀ i, c'.owes i = c.owes i) (hplaced : Tokens.Placed c'.held loc') (hloc : ∀ y, loc' y = none ↔ loc y = none) :
    Ledger c' loc' := by
  have hbooks : created c'.log = created c.log ∧ delivered c'.log = delivered c.log ∧ reinserted c'.log = reinserted c.log ∧
      dropped c'.log = dropped c.log := by
    rcases hlog with hlog | ⟨j, msg, hlog⟩
    · rw [hlog]
      exact ⟨rfl, rfl, rfl, rfl⟩
    · exact ⟨(created_of_log hlog).trans (List.append_nil _), (delivered_of_log hlog).trans (List.append_nil _),
        (reinserted_of_log hlog).trans (List.append_nil _), (dropped_of_log hlog).trans (List.append_nil _)⟩
  obtain ⟨hcreated, hdelivered, hreinserted, hdropped⟩ := hbooks
  refine ⟨hplaced, ?_, fun y hy => ?_, fun y hy => ?_, ?_, fun y hy => ?_, fun y hy => ?_, fun y hy => ?_, fun y hy => ?_⟩
  · rw [hcreated, huid]
    exact h.uids
  · rw [hcreated]
    exact h.known y fun hnone => hy ((hloc y).mpr hnone)
  · rw [hcreated] at hy
    rw [hdropped, hloc]
    exact h.gone y hy
  · rw [hdropped]
    exact h.dropped_nodup
  · rw [hdropped] at hy
    rw [hcreated]
    exact h.dropped_oneShot y hy
  · rw [hreinserted] at hy
    exact h.reinserted_periodic y hy
  · rw [hdelivered, hreinserted, hdropped]
    exact h.owed y ((owed_congr howes y).mp hy)
  · rw [hdelivered, hreinserted, hdropped]
    exact h.settled y fun ho => hy ((owed_congr howes y).mpr ho)

/-- A timer is created. -/
theorem Ledger.create {kind : TimerKind} [DecidableEq ι] (h : Ledger c loc) (hlog : c'.log = c.log ++ [.created i ⟨c.nextUid, kind⟩])
    (huid : c'.nextUid = c.nextUid + 1) (hput : (c'.held (.hand i)).Perm (⟨c.nextUid, kind⟩ :: c.held (.hand i)))
    (hother : ∀ p, p ≠ .hand i → (c'.held p).Perm (c.held p)) (howes : ∀ i, c'.owes i = c.owes i) :
    Ledger c' (Function.update loc ⟨c.nextUid, kind⟩ (some (.hand i))) := by
  have hfresh : (⟨c.nextUid, kind⟩ : TimerId) ∉ created c.log := by
    intro hmem
    have huid : c.nextUid ∈ (created c.log).map TimerId.uid := List.mem_map.mpr ⟨_, hmem, rfl⟩
    rw [h.uids, List.mem_range] at huid
    exact Nat.lt_irrefl _ huid
  have hnone : loc ⟨c.nextUid, kind⟩ = none := by
    by_contra hsome
    exact hfresh (h.known _ hsome)
  have hcreated : created c'.log = created c.log ++ [⟨c.nextUid, kind⟩] := created_of_log hlog
  have hdelivered : delivered c'.log = delivered c.log := (delivered_of_log hlog).trans (List.append_nil _)
  have hreinserted : reinserted c'.log = reinserted c.log := (reinserted_of_log hlog).trans (List.append_nil _)
  have hdropped : dropped c'.log = dropped c.log := (dropped_of_log hlog).trans (List.append_nil _)
  refine ⟨h.placed.put hnone hput hother, ?_, fun y hy => ?_, fun y hy => ?_, ?_, fun y hy => ?_, fun y hy => ?_, fun y hy => ?_,
    fun y hy => ?_⟩
  · rw [hcreated, huid, List.map_append, h.uids, List.range_succ]
    rfl
  · rw [hcreated]
    by_cases hyx : y = ⟨c.nextUid, kind⟩
    · exact List.mem_append_right _ (List.mem_singleton.mpr hyx)
    · rw [Function.update_of_ne hyx] at hy
      exact List.mem_append_left _ (h.known y hy)
  · rw [hcreated, List.mem_append, List.mem_singleton] at hy
    rw [hdropped]
    by_cases hyx : y = ⟨c.nextUid, kind⟩
    · subst hyx
      rw [Function.update_self]
      exact iff_of_false nofun fun hd => hfresh (h.dropped_oneShot _ hd).1
    · rw [Function.update_of_ne hyx]
      exact h.gone y (hy.resolve_right hyx)
  · rw [hdropped]
    exact h.dropped_nodup
  · rw [hdropped] at hy
    rw [hcreated]
    exact ⟨List.mem_append_left _ (h.dropped_oneShot y hy).1, (h.dropped_oneShot y hy).2⟩
  · rw [hreinserted] at hy
    exact h.reinserted_periodic y hy
  · rw [hdelivered, hreinserted, hdropped]
    exact h.owed y ((owed_congr howes y).mp hy)
  · rw [hdelivered, hreinserted, hdropped]
    exact h.settled y fun ho => hy ((owed_congr howes y).mpr ho)

/-- A timer is moved from one place to another. -/
theorem Ledger.moved [DecidableEq ι] {p q : Place ι} (h : Ledger c loc) (hne : q ≠ p) (hlog : c'.log = c.log)
    (huid : c'.nextUid = c.nextUid) (htake : (c.held p).Perm (x :: c'.held p)) (hput : (c'.held q).Perm (x :: c.held q))
    (hother : ∀ r, r ≠ p → r ≠ q → (c'.held r).Perm (c.held r)) (howes : ∀ i, c'.owes i = c.owes i) :
    Ledger c' (Function.update loc x (some q)) := by
  refine h.of_placed (Or.inl hlog) huid howes (h.placed.move hne htake hput hother) fun y => ?_
  by_cases hyx : y = x
  · subst hyx
    rw [Function.update_self, (h.placed.mem_iff p y).mp (htake.mem_iff.mpr List.mem_cons_self)]
    exact iff_of_false nofun nofun
  · rw [Function.update_of_ne hyx]

/-- One more of a timer. -/
theorem count_append_singleton (l : List TimerId) (x y : TimerId) : (l ++ [x]).count y = l.count y + if y = x then 1 else 0 := by
  rw [List.count_append, List.count_singleton]
  by_cases h : y = x
  · simp [h]
  · have h' : ¬x = y := fun e => h e.symm
    simp [h, h']

/-- A timer is delivered. -/
theorem Ledger.deliver (h : Ledger c loc) (hlog : c'.log = c.log ++ [.delivered i x]) (huid : c'.nextUid = c.nextUid)
    (hheld : ∀ p, (c'.held p).Perm (c.held p)) (hx : x ∈ c.held (.hand i)) (hbefore : c.owes i = []) (hafter : c'.owes i = [x])
    (howes : ∀ j, j ≠ i → c'.owes j = c.owes j) : Ledger c' loc := by
  have hcreated : created c'.log = created c.log := (created_of_log hlog).trans (List.append_nil _)
  have hdelivered : delivered c'.log = delivered c.log ++ [x] := delivered_of_log hlog
  have hreinserted : reinserted c'.log = reinserted c.log := (reinserted_of_log hlog).trans (List.append_nil _)
  have hdropped : dropped c'.log = dropped c.log := (dropped_of_log hlog).trans (List.append_nil _)
  have hnot : ¬c.Owed x := by
    rw [h.owed_iff hx, hbefore]
    exact List.not_mem_nil
  have hsame : ∀ {y}, y ≠ x → (c'.Owed y ↔ c.Owed y) := fun hyx => owed_of_ne (by rw [hbefore, hafter]; simp [hyx]) howes
  have hcount : ∀ y, (delivered c'.log).count y = (delivered c.log).count y + if y = x then 1 else 0 := by
    intro y
    rw [hdelivered, count_append_singleton]
  refine ⟨h.placed.congr hheld, by rw [hcreated, huid]; exact h.uids, by rw [hcreated]; exact h.known,
    by rw [hcreated, hdropped]; exact h.gone, by rw [hdropped]; exact h.dropped_nodup,
    by rw [hdropped, hcreated]; exact h.dropped_oneShot, by rw [hreinserted]; exact h.reinserted_periodic, fun y hy => ?_, fun y hy => ?_⟩
  · rw [hreinserted, hdropped, hcount]
    by_cases hyx : y = x
    · rw [if_pos hyx, hyx, h.settled x hnot]
    · rw [if_neg hyx]
      exact h.owed y ((hsame hyx).mp hy)
  · rw [hreinserted, hdropped, hcount]
    by_cases hyx : y = x
    · subst hyx
      exact absurd ⟨i, by rw [hafter]; exact List.mem_singleton_self y⟩ hy
    · rw [if_neg hyx]
      exact h.settled y fun ho => hy ((hsame hyx).mpr ho)

/-- The balance after a thread has put back or dropped the timer that it owed. -/
theorem Ledger.balance (h : Ledger c loc) (hbefore : c.owes i = [x]) (hafter : c'.owes i = [])
    (howes : ∀ j, j ≠ i → c'.owes j = c.owes j) (hdelivered : delivered c'.log = delivered c.log)
    (hback : ∀ y, (reinserted c'.log).count y + (dropped c'.log).count y =
      (reinserted c.log).count y + (dropped c.log).count y + if y = x then 1 else 0) :
    (∀ y, c'.Owed y → (delivered c'.log).count y = (reinserted c'.log).count y + (dropped c'.log).count y + 1) ∧
    ∀ y, ¬c'.Owed y → (delivered c'.log).count y = (reinserted c'.log).count y + (dropped c'.log).count y := by
  have hx : x ∈ c.owes i := by rw [hbefore]; exact List.mem_singleton_self x
  have hsame : ∀ {y}, y ≠ x → (c'.Owed y ↔ c.Owed y) := fun hyx => owed_of_ne (by rw [hbefore, hafter]; simp [hyx]) howes
  have hself : ¬c'.Owed x := by
    rintro ⟨j, hj⟩
    by_cases hji : j = i
    · rw [hji, hafter] at hj
      cases hj
    · rw [howes j hji] at hj
      have hplace := h.placed.unique (mem_held_of_owes hx) (mem_held_of_owes hj)
      exact hji (Place.hand.inj hplace)
  refine ⟨fun y hy => ?_, fun y hy => ?_⟩
  · have hyx : y ≠ x := fun e => hself (e ▸ hy)
    rw [hdelivered, hback y, if_neg hyx]
    exact h.owed y ((hsame hyx).mp hy)
  · rw [hdelivered, hback y]
    by_cases hyx : y = x
    · rw [if_pos hyx, hyx]
      exact h.owed x ⟨i, hx⟩
    · rw [if_neg hyx]
      exact h.settled y fun ho => hy ((hsame hyx).mpr ho)

/-- A periodic timer is put back. -/
theorem Ledger.reinsert [DecidableEq ι] (h : Ledger c loc) (hkind : x.kind ≠ .oneShot) (hlog : c'.log = c.log ++ [.reinserted i x])
    (huid : c'.nextUid = c.nextUid) (htake : (c.held (.hand i)).Perm (x :: c'.held (.hand i)))
    (hput : (c'.held .heap).Perm (x :: c.held .heap)) (hother : ∀ r, r ≠ .hand i → r ≠ .heap → (c'.held r).Perm (c.held r))
    (hbefore : c.owes i = [x]) (hafter : c'.owes i = []) (howes : ∀ j, j ≠ i → c'.owes j = c.owes j) :
    Ledger c' (Function.update loc x (some .heap)) := by
  have hcreated : created c'.log = created c.log := (created_of_log hlog).trans (List.append_nil _)
  have hdelivered : delivered c'.log = delivered c.log := (delivered_of_log hlog).trans (List.append_nil _)
  have hreinserted : reinserted c'.log = reinserted c.log ++ [x] := reinserted_of_log hlog
  have hdropped : dropped c'.log = dropped c.log := (dropped_of_log hlog).trans (List.append_nil _)
  obtain ⟨hx, hnotDropped⟩ := h.not_dropped (htake.mem_iff.mpr List.mem_cons_self)
  obtain ⟨howed, hsettled⟩ := h.balance hbefore hafter howes hdelivered fun y => by
    rw [hreinserted, hdropped, count_append_singleton]
    omega
  refine ⟨h.placed.move (p := .hand i) (q := .heap) nofun htake hput hother, by rw [hcreated, huid]; exact h.uids, fun y hy => ?_, fun y hy => ?_,
    by rw [hdropped]; exact h.dropped_nodup, by rw [hdropped, hcreated]; exact h.dropped_oneShot, fun y hy => ?_, howed, hsettled⟩
  · rw [hcreated]
    exact h.known_update hx hy
  · rw [hdropped]
    by_cases hyx : y = x
    · subst hyx
      rw [Function.update_self]
      exact iff_of_false nofun hnotDropped
    · rw [Function.update_of_ne hyx]
      exact h.gone y (hcreated ▸ hy)
  · rw [hreinserted, List.mem_append, List.mem_singleton] at hy
    rcases hy with hy | rfl
    · exact h.reinserted_periodic y hy
    · exact hkind

/-- A one-shot timer is dropped. -/
theorem Ledger.drop [DecidableEq ι] (h : Ledger c loc) (hkind : x.kind = .oneShot) (hlog : c'.log = c.log ++ [.dropped i x])
    (huid : c'.nextUid = c.nextUid) (htake : (c.held (.hand i)).Perm (x :: c'.held (.hand i)))
    (hother : ∀ r, r ≠ .hand i → (c'.held r).Perm (c.held r)) (hbefore : c.owes i = [x]) (hafter : c'.owes i = [])
    (howes : ∀ j, j ≠ i → c'.owes j = c.owes j) : Ledger c' (Function.update loc x none) := by
  have hcreated : created c'.log = created c.log := (created_of_log hlog).trans (List.append_nil _)
  have hdelivered : delivered c'.log = delivered c.log := (delivered_of_log hlog).trans (List.append_nil _)
  have hreinserted : reinserted c'.log = reinserted c.log := (reinserted_of_log hlog).trans (List.append_nil _)
  have hdropped : dropped c'.log = dropped c.log ++ [x] := dropped_of_log hlog
  obtain ⟨hx, hnotDropped⟩ := h.not_dropped (htake.mem_iff.mpr List.mem_cons_self)
  obtain ⟨howed, hsettled⟩ := h.balance hbefore hafter howes hdelivered fun y => by
    rw [hreinserted, hdropped, count_append_singleton]
    omega
  refine ⟨h.placed.take htake hother, by rw [hcreated, huid]; exact h.uids, fun y hy => ?_, fun y hy => ?_, ?_, fun y hy => ?_,
    by rw [hreinserted]; exact h.reinserted_periodic, howed, hsettled⟩
  · rw [hcreated]
    exact h.known_update hx hy
  · rw [hdropped, List.mem_append, List.mem_singleton]
    by_cases hyx : y = x
    · subst hyx
      rw [Function.update_self]
      exact iff_of_true rfl (Or.inr rfl)
    · rw [Function.update_of_ne hyx, or_iff_left hyx]
      exact h.gone y (hcreated ▸ hy)
  · rw [hdropped]
    exact (List.perm_append_singleton x _).symm.nodup (List.nodup_cons.mpr ⟨hnotDropped, h.dropped_nodup⟩)
  · rw [hdropped, List.mem_append, List.mem_singleton] at hy
    rw [hcreated]
    rcases hy with hy | rfl
    · exact h.dropped_oneShot y hy
    · exact ⟨hx, hkind⟩

/-- Every effect keeps the ledger. -/
theorem TimerEffect.ledger [DecidableEq ι] (he : TimerEffect c c') (h : Ledger c loc) : ∃ loc', Ledger c' loc' := by
  cases he with
  | quiet hlog huid hheld howes => exact ⟨loc, h.of_placed hlog huid howes (h.placed.congr hheld) fun _ => Iff.rfl⟩
  | created i kind hlog huid hput hother howes => exact ⟨_, h.create hlog huid hput hother howes⟩
  | moved x p q hne hlog huid htake hput hother howes => exact ⟨_, h.moved hne hlog huid htake hput hother howes⟩
  | delivered i x hlog huid hheld hx hbefore hafter howes => exact ⟨_, h.deliver hlog huid hheld hx hbefore hafter howes⟩
  | reinserted i x hkind hlog huid htake hput hother hbefore hafter howes =>
    exact ⟨_, h.reinsert hkind hlog huid htake hput hother hbefore hafter howes⟩
  | dropped i x hkind hlog huid htake hother hbefore hafter howes =>
    exact ⟨_, h.drop hkind hlog huid htake hother hbefore hafter howes⟩

end

end Blockmon
