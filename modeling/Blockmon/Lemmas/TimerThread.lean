import Mathlib.Data.List.Perm.Basic
import Blockmon.Lemmas.TimerSteps
import Blockmon.Lib.Tokens

/-!
# What a step does to the timers

`TimerEffect c c'` lists what a step can do to the places of the timers and to the history; `timerStep_effect` says that every step
does one of these, provided that the threads about to put a timer back hold what `next_time` left (`Renewed`).
-/

namespace Blockmon

open TimerLog TimerConfig

variable {ι β : Type}

/-- What a step can do. -/
inductive TimerEffect (c c' : TimerConfig ι β) : Prop where
  | quiet (hlog : c'.log = c.log ∨ ∃ i msg, c'.log = c.log ++ [.threw i msg]) (huid : c'.nextUid = c.nextUid)
      (hheld : ∀ p, (c'.held p).Perm (c.held p)) (howes : ∀ i, c'.owes i = c.owes i)
  | created (i : ι) (kind : TimerKind) (hlog : c'.log = c.log ++ [.created i ⟨c.nextUid, kind⟩]) (huid : c'.nextUid = c.nextUid + 1)
      (hput : (c'.held (.hand i)).Perm (⟨c.nextUid, kind⟩ :: c.held (.hand i)))
      (hother : ∀ p, p ≠ .hand i → (c'.held p).Perm (c.held p)) (howes : ∀ i, c'.owes i = c.owes i)
  | moved (x : TimerId) (p q : Place ι) (hne : q ≠ p) (hlog : c'.log = c.log) (huid : c'.nextUid = c.nextUid)
      (htake : (c.held p).Perm (x :: c'.held p)) (hput : (c'.held q).Perm (x :: c.held q))
      (hother : ∀ r, r ≠ p → r ≠ q → (c'.held r).Perm (c.held r)) (howes : ∀ i, c'.owes i = c.owes i)
  | delivered (i : ι) (x : TimerId) (hlog : c'.log = c.log ++ [.delivered i x]) (huid : c'.nextUid = c.nextUid)
      (hheld : ∀ p, (c'.held p).Perm (c.held p)) (hx : x ∈ c.held (.hand i)) (hbefore : c.owes i = []) (hafter : c'.owes i = [x])
      (howes : ∀ j, j ≠ i → c'.owes j = c.owes j)
  | reinserted (i : ι) (x : TimerId) (hkind : x.kind ≠ .oneShot) (hlog : c'.log = c.log ++ [.reinserted i x])
      (huid : c'.nextUid = c.nextUid) (htake : (c.held (.hand i)).Perm (x :: c'.held (.hand i)))
      (hput : (c'.held .heap).Perm (x :: c.held .heap)) (hother : ∀ r, r ≠ .hand i → r ≠ .heap → (c'.held r).Perm (c.held r))
      (hbefore : c.owes i = [x]) (hafter : c'.owes i = []) (howes : ∀ j, j ≠ i → c'.owes j = c.owes j)
  | dropped (i : ι) (x : TimerId) (hkind : x.kind = .oneShot) (hlog : c'.log = c.log ++ [.dropped i x])
      (huid : c'.nextUid = c.nextUid) (htake : (c.held (.hand i)).Perm (x :: c'.held (.hand i)))
      (hother : ∀ r, r ≠ .hand i → (c'.held r).Perm (c.held r)) (hbefore : c.owes i = [x]) (hafter : c'.owes i = [])
      (howes : ∀ j, j ≠ i → c'.owes j = c.owes j)

/-- A thread about to put a timer back holds a timer with another time point exactly if the timer is periodic. -/
def Renewed : TimerPc β → Prop
  | .relock e ttmp | .insert e ttmp => e.timer.time = ttmp ↔ e.timer.id.kind = .oneShot
  | _ => True

section

variable [DecidableEq ι] {c c' : TimerConfig ι β} {i : ι} {pc : TimerPc β}

/-- What the moved thread has in its hand. -/
theorem held_hand_of_update (h : c'.threads = Function.update c.threads i pc) : c'.held (.hand i) = pc.hand.map Timer.id := by
  rw [held, h, Function.update_self]

/-- What the other threads have in their hands. -/
theorem held_hand_of_ne (h : c'.threads = Function.update c.threads i pc) {j : ι} (hj : j ≠ i) :
    c'.held (.hand j) = c.held (.hand j) := by
  rw [held, h, Function.update_of_ne hj]
  rfl

/-- What the moved thread owes. -/
theorem owes_of_update (h : c'.threads = Function.update c.threads i pc) : c'.owes i = pc.owing.map Timer.id := by
  rw [owes, h, Function.update_self]

/-- What the other threads owe. -/
theorem owes_of_ne (h : c'.threads = Function.update c.threads i pc) {j : ι} (hj : j ≠ i) : c'.owes j = c.owes j := by
  rw [owes, h, Function.update_of_ne hj]
  rfl

/-- A move that owes the same. -/
theorem owes_of_eq (h : c'.threads = Function.update c.threads i pc) (hi : pc.owing.map Timer.id = c.owes i) (j : ι) :
    c'.owes j = c.owes j := by
  by_cases hj : j = i
  · subst hj
    rw [owes_of_update h, hi]
  · exact owes_of_ne h hj

/-- The places other than the hands of the thread that moves. -/
theorem held_of_ne (h : c'.threads = Function.update c.threads i pc) (hq : c'.queue = c.queue) (hh : c'.heap = c.heap)
    {p : Place ι} (hp : p ≠ .hand i) : c'.held p = c.held p := by
  cases p with
  | queue => rw [held, hq]; rfl
  | heap => rw [held, hh]; rfl
  | hand j => exact held_hand_of_ne h fun e => hp (e ▸ rfl)

/-- A thread moves on and holds the same timers. -/
theorem effect_goto {pc₀ : TimerPc β} (hpc : c.threads i = pc₀)
    (hlog : c'.log = c.log ∨ ∃ i msg, c'.log = c.log ++ [.threw i msg]) (huid : c'.nextUid = c.nextUid)
    (hq : c'.queue = c.queue) (hh : c'.heap = c.heap) (ht : c'.threads = Function.update c.threads i pc)
    (hhand : pc.hand.map Timer.id = pc₀.hand.map Timer.id) (howing : pc.owing.map Timer.id = pc₀.owing.map Timer.id) :
    TimerEffect c c' := by
  refine .quiet hlog huid (fun p => ?_) (owes_of_eq ht (by rw [owes, hpc, howing]))
  by_cases hp : p = .hand i
  · subst hp
    rw [held_hand_of_update ht, hhand, held, hpc]
  · rw [held_of_ne ht hq hh hp]

omit [DecidableEq ι] in
/-- A change of the settings only. -/
theorem effect_settings (hlog : c'.log = c.log ∨ ∃ i msg, c'.log = c.log ++ [.threw i msg]) (huid : c'.nextUid = c.nextUid)
    (hq : c'.queue = c.queue) (hh : c'.heap = c.heap) (ht : c'.threads = c.threads) : TimerEffect c c' := by
  refine .quiet hlog huid (fun p => ?_) fun j => by rw [owes, ht]; rfl
  cases p with
  | queue => rw [held, hq]; rfl
  | heap => rw [held, hh]; rfl
  | hand j => rw [held, ht]; rfl

omit [DecidableEq ι] in
/-- A clock that is set is read. -/
theorem getBMTime_ok (h : c.clockSource ≠ .UNSET) (wall : ustime) : ∃ now, c.getBMTime wall = .ok now := by
  unfold getBMTime
  cases hsrc : c.clockSource with
  | WALL => exact ⟨_, rfl⟩
  | PACKET => exact ⟨_, rfl⟩
  | UNSET => exact absurd hsrc h

/-- `next_time` keeps the object. -/
theorem nextTime_id {t t' : Timer β} {clock : Except String ustime} (h : t.nextTime clock = .ok t') : t'.id = t.id := by
  unfold Timer.nextTime at h
  split at h
  · cases h
    rfl
  · split at h <;> cases h
    rfl

/-- A time that is read gives a next one. -/
theorem nextTime_ok (t : Timer β) (now : ustime) : ∃ t', t.nextTime (.ok now) = .ok t' := by
  unfold Timer.nextTime
  split
  · exact ⟨_, rfl⟩
  · exact ⟨_, rfl⟩

/-- The timers of the heap after one is removed. -/
theorem perm_eraseIdx {α : Type} {l : List α} {n : Nat} {a : α} (h : l[n]? = some a) : l.Perm (a :: l.eraseIdx n) := by
  obtain ⟨hlt, rfl⟩ := List.getElem?_eq_some_iff.mp h
  exact (List.getElem_cons_eraseIdx_perm hlt).symm

/-- The timers of the queue after the last is removed. -/
theorem perm_dropLast {α : Type} {l : List α} {a : α} (h : l.getLast? = some a) : l.Perm (a :: l.dropLast) := by
  have hl : l.dropLast ++ [a] = l := List.dropLast_append_getLast? a h
  exact (hl ▸ List.perm_append_singleton a l.dropLast : l.Perm _)

omit [DecidableEq ι] in
/-- The timer in a hand, by the place of the thread. -/
theorem held_hand_of_pc {pc₀ : TimerPc β} (hpc : c.threads i = pc₀) : c.held (.hand i) = pc₀.hand.map Timer.id := by
  rw [held, hpc]

omit [DecidableEq ι] in
/-- The timer that is owed, by the place of the thread. -/
theorem owes_of_pc {pc₀ : TimerPc β} (hpc : c.threads i = pc₀) : c.owes i = pc₀.owing.map Timer.id := by
  rw [owes, hpc]

/-- `schedule_timer` puts the timer into the queue. -/
theorem effect_schedPush {t : Timer β} {k : Option (Expiry β)} (hpc : c.threads i = .schedPush t k) :
    TimerEffect c ({ c with queue := c.queue ++ [t] }.goto i (.schedUnlock k)) := by
  have hqueue : ({ c with queue := c.queue ++ [t] }.goto i (.schedUnlock k)).held .queue = c.held .queue ++ [t.id] := List.map_append ..
  refine .moved t.id (.hand i) .queue nofun rfl rfl ?_ ?_ (fun r h1 h2 => ?_) (owes_of_eq rfl (owes_of_pc hpc).symm)
  · rw [held_hand_of_pc hpc, held_hand_of_update rfl]
    exact List.Perm.refl _
  · rw [hqueue]
    exact List.perm_append_singleton t.id _
  · cases r with
    | queue => exact absurd rfl h2
    | heap => exact List.Perm.refl _
    | hand j => exact .of_eq (held_hand_of_ne rfl fun e => h1 (congrArg Place.hand e))

omit [DecidableEq ι] in
/-- The loop of the timer thread moves the last timer of the queue to the heap. -/
theorem effect_move {t : Timer β} (hlast : c.queue.getLast? = some t) :
    TimerEffect c { c with queue := c.queue.dropLast, heap := t :: c.heap } := by
  refine .moved t.id .queue .heap nofun rfl rfl ((perm_dropLast hlast).map Timer.id) (List.Perm.refl _) (fun r h1 h2 => ?_)
    fun _ => rfl
  cases r with
  | queue => exact absurd rfl h1
  | heap => exact absurd rfl h2
  | hand j => exact List.Perm.refl _

/-- `process_timer_events` removes a timer from the heap. -/
theorem effect_take {pick : Nat} {t : Timer β} {tnow : ustime} {caller : Caller} (hpc : c.threads i = .procTest tnow caller)
    (hpick : c.heap[pick]? = some t) : TimerEffect c ({ c with heap := c.heap.eraseIdx pick }.goto i (.taken ⟨t, tnow, caller⟩)) := by
  refine .moved t.id .heap (.hand i) nofun rfl rfl ((perm_eraseIdx hpick).map Timer.id) ?_ (fun r h1 h2 => ?_)
    (owes_of_eq rfl (owes_of_pc hpc).symm)
  · rw [held_hand_of_update rfl, held_hand_of_pc hpc]
    exact List.Perm.refl _
  · cases r with
    | queue => exact List.Perm.refl _
    | heap => exact absurd rfl h1
    | hand j => exact .of_eq (held_hand_of_ne rfl fun e => h2 (congrArg Place.hand e))

/-- The handler of a timer is called. -/
theorem effect_deliver {e : Expiry β} (hpc : c.threads i = .deliver e) :
    TimerEffect c ((c.goto i (.handling e)).emit (.delivered i e.timer.id)) := by
  have ht : ((c.goto i (.handling e)).emit (.delivered i e.timer.id)).threads = Function.update c.threads i (.handling e) := rfl
  refine .delivered i e.timer.id rfl rfl (fun p => ?_) ?_ (owes_of_pc hpc) (owes_of_update ht) fun j hj => owes_of_ne ht hj
  · by_cases hp : p = .hand i
    · subst hp
      rw [held_hand_of_update ht, held_hand_of_pc hpc]
      exact List.Perm.refl _
    · exact .of_eq (held_of_ne ht rfl rfl hp)
  · rw [held_hand_of_pc hpc]
    exact List.mem_singleton_self _

/-- A timer with another time point is put back into the heap. -/
theorem effect_reinsert {e : Expiry β} {ttmp : ustime} (hpc : c.threads i = .insert e ttmp) (hkind : e.timer.id.kind ≠ .oneShot) :
    TimerEffect c (({ c with heap := e.timer :: c.heap }.goto i (.procTest e.tnow e.caller)).emit (.reinserted i e.timer.id)) := by
  have ht : (({ c with heap := e.timer :: c.heap }.goto i (.procTest e.tnow e.caller)).emit (.reinserted i e.timer.id)).threads =
      Function.update c.threads i (.procTest e.tnow e.caller) := rfl
  refine .reinserted i e.timer.id hkind rfl rfl ?_ (List.Perm.refl _) (fun r h1 h2 => ?_) (owes_of_pc hpc) (owes_of_update ht)
    fun j hj => owes_of_ne ht hj
  · rw [held_hand_of_pc hpc, held_hand_of_update ht]
    exact List.Perm.refl _
  · cases r with
    | queue => exact List.Perm.refl _
    | heap => exact absurd rfl h2
    | hand j => exact .of_eq (held_hand_of_ne rfl fun e => h1 (congrArg Place.hand e))

/-- A timer with the same time point is not put back. -/
theorem effect_drop {e : Expiry β} {ttmp : ustime} (hpc : c.threads i = .insert e ttmp) (hkind : e.timer.id.kind = .oneShot) :
    TimerEffect c ((c.goto i (.procTest e.tnow e.caller)).emit (.dropped i e.timer.id)) := by
  have ht : ((c.goto i (.procTest e.tnow e.caller)).emit (.dropped i e.timer.id)).threads =
      Function.update c.threads i (.procTest e.tnow e.caller) := rfl
  refine .dropped i e.timer.id hkind rfl rfl ?_ (fun r hr => ?_) (owes_of_pc hpc) (owes_of_update ht) fun j hj => owes_of_ne ht hj
  · rw [held_hand_of_pc hpc, held_hand_of_update ht]
    exact List.Perm.refl _
  · exact .of_eq (held_of_ne ht rfl rfl hr)

/-- Every step of a thread has one of the effects. -/
theorem threadStep_effect {wall : ustime} {pick : Nat} (hclock : c.clockSource ≠ .UNSET) (hren : Renewed (c.threads i))
    (hs : c.threadStep i wall pick = some c') : TimerEffect c c' := by
  cases threadStep_cases hs with
  | locks hpc h hfree =>
    cases h <;> exact effect_goto hpc (Or.inl rfl) rfl rfl rfl rfl rfl rfl
  | unlocks hpc h =>
    cases h <;> exact effect_goto hpc (Or.inl rfl) rfl rfl rfl rfl rfl rfl
  | moves hpc h =>
    cases h with
    | renewed e t hnext =>
      have hid := nextTime_id hnext
      exact effect_goto hpc (Or.inl rfl) rfl rfl rfl rfl (congrArg (fun x => [x]) hid) (congrArg (fun x => [x]) hid)
    | _ => exact effect_goto hpc (Or.inl rfl) rfl rfl rfl rfl rfl rfl
  | throws hpc h =>
    cases h with
    | renew e msg hnext =>
      -- the clock can be read, so `next_time` does not throw
      obtain ⟨now, hnow⟩ := getBMTime_ok hclock wall
      obtain ⟨t, ht⟩ := nextTime_ok e.timer now
      rw [hnow, ht] at hnext
      cases hnext
    | _ => exact effect_goto hpc (Or.inr ⟨_, _, rfl⟩) rfl rfl rfl rfl rfl rfl
  | push t k hpc => exact effect_schedPush hpc
  | toHeap t hpc hlast => exact effect_move hlast
  | take pick t tnow caller hpc hpick => exact effect_take hpc hpick
  | deliver e hpc => exact effect_deliver hpc
  | reinsert e ttmp hpc hne =>
    rw [hpc] at hren
    exact effect_reinsert hpc fun hkind => hne (hren.mpr hkind)
  | drop e ttmp hpc heq =>
    rw [hpc] at hren
    exact effect_drop hpc (hren.mp heq)
  | loopEnd hpc hstop => exact effect_goto hpc (Or.inl rfl) rfl rfl rfl rfl rfl rfl
  | stores hpc h =>
    cases h <;> exact effect_goto hpc (Or.inl rfl) rfl rfl rfl rfl rfl rfl

/-- A thread creates a timer and calls `schedule_timer` with it. -/
theorem effect_created {pc₀ : TimerPc β} {t : Timer β} {kind : TimerKind} (hpc : c.threads i = pc₀) (hid : t.id = ⟨c.nextUid, kind⟩)
    (hlog : c'.log = c.log ++ [.created i ⟨c.nextUid, kind⟩]) (huid : c'.nextUid = c.nextUid + 1) (hq : c'.queue = c.queue)
    (hh : c'.heap = c.heap) (ht : c'.threads = Function.update c.threads i pc)
    (hhand : pc.hand = t :: pc₀.hand) (howing : pc.owing = pc₀.owing) : TimerEffect c c' := by
  refine .created i kind hlog huid ?_ (fun p hp => ?_) (owes_of_eq ht (by rw [owes, hpc, howing]))
  · rw [held_hand_of_update ht, hhand, List.map_cons, hid, held, hpc]
  · rw [held_of_ne ht hq hh hp]

/-- A handler that makes a timer. -/
theorem effect_creates {pc₀ : TimerPc β} {k : Option (Expiry β)} (hpc : c.threads i = pc₀) (h : pc₀.Calls k) (kind : TimerKind)
    (owner : β) (time : ustime) : TimerEffect c (c.creates i ⟨⟨c.nextUid, kind⟩, owner, time⟩ k) := by
  cases h <;> exact effect_created hpc (t := ⟨⟨c.nextUid, kind⟩, owner, time⟩) rfl rfl rfl rfl rfl rfl rfl rfl

/-- Every step has one of the effects. -/
theorem timerStep_effect {a : TimerAct ι β} (hclock : c.clockSource ≠ .UNSET) (hren : ∀ i, Renewed (c.threads i))
    (hs : c.step a = some c') : TimerEffect c c' := by
  cases timerStep_cases hs with
  | selectWall | selectPacket | registerTimeWriter | stop => exact effect_settings (Or.inl rfl) rfl rfl rfl rfl
  | setTimerAt hpc h | setPeriodicTimer hpc h => exact effect_creates hpc h _ _ _
  | noClock hnow => exact effect_settings (Or.inr ⟨_, _, rfl⟩) rfl rfl rfl rfl
  | startThrows hpc => exact effect_goto hpc (Or.inr ⟨_, _, rfl⟩) rfl rfl rfl rfl rfl rfl
  | starts hpc _ | timePast hpc => exact effect_goto hpc (Or.inl rfl) rfl rfl rfl rfl rfl rfl
  | thread hs => exact threadStep_effect hclock (hren _) hs

end

end Blockmon
