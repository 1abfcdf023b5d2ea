import Blockmon.Lemmas.TimerControl
import Blockmon.Lemmas.TimerLedger
import Blockmon.TimerThread

/-!
# No timer is lost or duplicated

The statements are about every interleaving of the steps of any number of threads, with any clock readings. A periodic timer is
put back only if `next_time` gave it another time point, so a clock that was set back can make it disappear.
-/

namespace Blockmon

open TimerLog TimerConfig

section

variable {ι β : Type} [DecidableEq ι]

/-- What should hold of the timers in every configuration: no place has a timer twice; a periodic timer is in exactly one place, and
it has been put back as often as it was delivered, up to the delivery that a thread has in hand; a one-shot timer is in exactly one
place until it is gone, it is delivered at most once, and after that it is in no queue or heap. -/
structure Accounted (c : TimerConfig ι β) : Prop where
  nodup : ∀ p, (c.held p).Nodup
  periodic : ∀ x ∈ created c.log, x.kind ≠ .oneShot → (∃! p, x ∈ c.held p) ∧
    (c.Owed x → (delivered c.log).count x = (reinserted c.log).count x + 1) ∧
    (¬c.Owed x → (delivered c.log).count x = (reinserted c.log).count x)
  oneShot : ∀ x ∈ created c.log, x.kind = .oneShot →
    ((∃! p, x ∈ c.held p) ∨ (delivered c.log).count x = 1 ∧ ∀ p, x ∉ c.held p) ∧ (delivered c.log).count x ≤ 1 ∧
    ((delivered c.log).count x = 1 → x ∉ c.held .queue ∧ x ∉ c.held .heap)

omit [DecidableEq ι] in
/-- With a ledger every timer is accounted for. -/
theorem Ledger.accounted {c : TimerConfig ι β} {loc : TimerId → Option (Place ι)} (h : Ledger c loc) : Accounted c := by
  have howedHand : ∀ {x}, c.Owed x → ∃ i, x ∈ c.held (.hand i) := fun ⟨i, hi⟩ => ⟨i, mem_held_of_owes hi⟩
  refine ⟨h.placed.nodup, fun x hx hkind => ?_, fun x hx hkind => ?_⟩
  · have hkept : x ∉ dropped c.log := fun hd => hkind (h.dropped_oneShot x hd).2
    have hzero : (dropped c.log).count x = 0 := List.count_eq_zero.mpr hkept
    refine ⟨h.placed.existsUnique_iff.mpr fun hnone => hkept ((h.gone x hx).mp hnone), fun ho => ?_, fun ho => ?_⟩
    · rw [h.owed x ho, hzero]
    · rw [h.settled x ho, hzero, Nat.add_zero]
  · have hback : (reinserted c.log).count x = 0 := List.count_eq_zero.mpr fun hr => h.reinserted_periodic x hr hkind
    by_cases hd : x ∈ dropped c.log
    · -- the timer is gone
      have hone : (dropped c.log).count x = 1 := List.count_eq_one_of_mem h.dropped_nodup hd
      have hnone := (h.gone x hx).mpr hd
      have hout : ∀ p, x ∉ c.held p := by
        intro p hp
        rw [(h.placed.mem_iff p x).mp hp] at hnone
        cases hnone
      have hcount : (delivered c.log).count x = 1 := by
        rw [h.settled x fun ho => (howedHand ho).elim fun i hi => hout _ hi, hback, hone]
      exact ⟨Or.inr ⟨hcount, hout⟩, by rw [hcount], fun _ => ⟨hout _, hout _⟩⟩
    · have hzero : (dropped c.log).count x = 0 := List.count_eq_zero.mpr hd
      have huniq : ∃! p, x ∈ c.held p := h.placed.existsUnique_iff.mpr fun hnone => hd ((h.gone x hx).mp hnone)
      by_cases ho : c.Owed x
      · obtain ⟨i, hi⟩ := howedHand ho
        have hcount : (delivered c.log).count x = 1 := by rw [h.owed x ho, hback, hzero]
        refine ⟨Or.inl huniq, by rw [hcount], fun _ => ⟨fun hq => ?_, fun hq => ?_⟩⟩
        · exact absurd (h.placed.unique hi hq) nofun
        · exact absurd (h.placed.unique hi hq) nofun
      · have hcount : (delivered c.log).count x = 0 := by rw [h.settled x ho, hback, hzero]
        exact ⟨Or.inl huniq, by rw [hcount]; exact Nat.zero_le 1, fun hc => absurd (hcount.symm.trans hc) nofun⟩

/-- In every interleaving in which `next_time` gives every periodic timer another time point, the clocks are set, exactly the
holder of the spinlock is inside a critical section, and the timers are accounted for. -/
theorem run_orderly_ledger {acts : List (TimerAct ι β)} {c : TimerConfig ι β} (hr : Lts.run step new acts = some c)
    (hren : Lts.Along step (fun c a => c.renews a = true) new acts) : Orderly c ∧ ∃ loc, Ledger c loc := by
  refine Lts.run_inv_of_labels (G := fun _ => True) (I := fun _ c => Orderly c ∧ ∃ loc, Ledger c loc) (fun _ _ _ => trivial) ?_
    ⟨orderly_new, _, ledger_new⟩ trivial hren hr
  rintro as c a c' - ⟨ho, loc, hl⟩ hrenews hs
  exact ⟨timerStep_orderly ho hrenews hs, (timerStep_effect ho.clock ho.renewed hs).ledger hl⟩

/-- No timer is lost or duplicated, in every interleaving of any number of threads in which every renewal of a periodic timer
gives it a time point that differs from the previous one. -/
theorem timers_accounted (acts : List (TimerAct ι β)) (c : TimerConfig ι β) (hr : Lts.run step new acts = some c)
    (hren : Lts.Along step (fun c a => c.renews a = true) new acts) : Accounted c := by
  obtain ⟨-, loc, hl⟩ := run_orderly_ledger hr hren
  exact hl.accounted

end

/-! ## A periodic timer that is delivered by the timer thread -/

/-- The next steps of a thread that reads no wall clock and finds its timer first in the heap. -/
def stepsOf (i : Bool) (n : Nat) : List (TimerAct Bool Unit) := List.replicate n (.thread i 0 0)

/-- The packet source sets the packet clock to 1000; the timer thread sets a timer of period 1000, starts and moves it to the heap;
the packet source sets the clock to 2000; the timer thread delivers the timer, and the packet source ends its call. -/
def deliveryActs : List (TimerAct Bool Unit) :=
  [.selectPacket, .registerTimeWriter, .timePast false 1000] ++ stepsOf false 9 ++ [.setPeriodicTimer true () 1000 0] ++
    stepsOf true 3 ++ [.start true] ++ stepsOf true 5 ++ [.timePast false 2000] ++ stepsOf false 4 ++ stepsOf true 6 ++
    stepsOf false 5

/-- The timer of this run. -/
def packetTimer : TimerId := { uid := 0, kind := .periodic 1000 }

/-- If the clock is not set back, the timer is put back into the heap. -/
theorem timers_accounted_delivery : ∃ c, Lts.run step new (deliveryActs ++ stepsOf true 3) = some c ∧
    delivered c.log = [packetTimer] ∧ reinserted c.log = [packetTimer] ∧ Accounted c := by
  have hrun : (Lts.run step new (deliveryActs ++ stepsOf true 3)).map (fun c =>
      (delivered c.log, reinserted c.log)) = some ([packetTimer], [packetTimer]) := by decide +kernel
  have hren : Lts.Along step (fun c a => c.renews a = true) new (deliveryActs ++ stepsOf true 3) := by decide +kernel
  obtain ⟨c, hc, hres⟩ := Option.map_eq_some_iff.mp hrun
  rw [Prod.mk.injEq] at hres
  exact ⟨c, hc, hres.1, hres.2, timers_accounted _ c hc hren⟩

/-- While the handler of the timer runs, the packet source comes with a packet out of order: the clock is set back to 1000 before
the exception is thrown. `next_time` then gives the timer its old time point, 2000, and it is not put back. -/
def lostTimerActs : List (TimerAct Bool Unit) := deliveryActs ++ [.timePast false 1000] ++ stepsOf false 4 ++ stepsOf true 3

/-- A periodic timer with a positive period disappears. -/
theorem periodic_timer_lost : ¬∀ (acts : List (TimerAct Bool Unit)) (c : TimerConfig Bool Unit), Lts.run step new acts = some c →
    (∀ x ∈ created c.log, x.kind ≠ .periodic 0) → Accounted c := by
  intro hall
  have hrun : (Lts.run step new lostTimerActs).map (fun c => (created c.log, delivered c.log, reinserted c.log, c.owes true,
      c.owes false)) = some ([packetTimer], [packetTimer], [], [], []) := by decide +kernel
  obtain ⟨c, hc, hres⟩ := Option.map_eq_some_iff.mp hrun
  simp only [Prod.mk.injEq] at hres
  obtain ⟨hcreated, hdelivered, hreinserted, htrue, hfalse⟩ := hres
  have hacc := hall lostTimerActs c hc (by rw [hcreated]; decide)
  obtain ⟨-, -, hsettled⟩ := hacc.periodic packetTimer (by rw [hcreated]; exact List.mem_singleton_self _) nofun
  have hnotOwed : ¬c.Owed packetTimer := by
    rintro ⟨i, hi⟩
    cases i with
    | true =>
      rw [htrue] at hi
      cases hi
    | false =>
      rw [hfalse] at hi
      cases hi
  have hcount := hsettled hnotOwed
  rw [hdelivered, hreinserted] at hcount
  exact absurd hcount (by decide)

/-! ## The timers of a block that is destroyed -/

section

variable {ι β : Type} [DecidableEq β]

/-- A call has returned and has removed the timers of the block `b` from the queue and from the heap, and no others. -/
def RemovesExactly (b : β) (c : TimerConfig ι β) (r : EStateM.Result String (TimerConfig ι β) Unit) : Prop :=
  ∃ c', r = .ok () c' ∧ c'.queue.Perm (c.queue.filter (·.owner ≠ b)) ∧ c'.heap.Perm (c.heap.filter (·.owner ≠ b))

/-- With the timer thread stopped, `remove_references` removes exactly the timers of its block if and only if no other block has a
timer in the heap. -/
theorem removeReferences_exact_iff (b : β) (c : TimerConfig ι β) (hstopped : c.running = false) :
    RemovesExactly b c ((removeReferences b).run c) ↔ ∀ t ∈ c.heap, t.owner = b := by
  have hrun : (removeReferences b).run c = .ok () { c with queue := c.queue.filter (·.owner ≠ b), heap := [] } := by
    simp only [removeReferences, EStateM.run_bind, EStateM.run_get, hstopped]
    rfl
  rw [hrun]
  constructor
  · rintro ⟨c', hc', -, hheap⟩ t ht
    cases hc'
    by_contra hne
    have hmem : t ∈ c.heap.filter (·.owner ≠ b) := List.mem_filter.mpr ⟨ht, decide_eq_true hne⟩
    exact List.not_mem_nil (hheap.mem_iff.mpr hmem)
  · intro hall
    refine ⟨_, rfl, List.Perm.refl _, ?_⟩
    have hnil : c.heap.filter (·.owner ≠ b) = [] := by
      rw [List.filter_eq_nil_iff]
      intro t ht
      simp [hall t ht]
    rw [hnil]

end

/-- A heap with one timer of each of two blocks, the timer thread stopped. -/
def twoOwners : TimerConfig Bool Bool :=
  { new with heap := [⟨⟨0, .oneShot⟩, true, 1000⟩, ⟨⟨1, .oneShot⟩, false, 2000⟩], nextUid := 2 }

/-- Destroying one block removes the timer of the other. -/
theorem removeReferences_removes_others : ¬RemovesExactly true twoOwners ((removeReferences true).run twoOwners) := by
  rintro ⟨c', hc', -, hheap⟩
  cases hc'
  exact absurd hheap.length_eq (by decide)

/-- A heap with the timers of one block is emptied, as it should be. -/
theorem removeReferences_exact_own :
    let c : TimerConfig Bool Bool := { new with queue := [⟨⟨1, .oneShot⟩, false, 2000⟩], heap := [⟨⟨0, .oneShot⟩, true, 1000⟩] }
    c.running = false ∧ RemovesExactly true c ((removeReferences true).run c) :=
  ⟨rfl, (removeReferences_exact_iff true _ rfl).mpr (by simp)⟩

end Blockmon

/-!
## The assertion of `process_timer_events`

A thread that has removed a timer holds the lock until it has evaluated the assertion, so the heap is still what the removal left: it
is empty exactly if the timer was the only one, and no timer in it is earlier than the one removed.
-/

namespace Blockmon

open TimerConfig

section

variable {ι β : Type} [DecidableEq ι] {c c' : TimerConfig ι β}

/-- What the threads that have removed a timer hold, and the heap. -/
def Holding (R : Timer β → List (Timer β) → Prop) (c : TimerConfig ι β) : Prop :=
  ∀ i e, c.threads i = .taken e → R e.timer c.heap

/-- The test of the loop: no timer is due, or the first of the heap is removed. -/
theorem procTest_step {i : ι} {wall tnow : ustime} {pick : Nat} {caller : Caller} (hpc : c.threads i = .procTest tnow caller)
    (hs : c.threadStep i wall pick = some c') :
    (c' = c.goto i (.procUnlock caller) ∧ c.topDue tnow = false) ∨
    ∃ t, c.heap[pick]? = some t ∧ isTop c.heap t = true ∧ c.topDue tnow = true ∧
      c'.threads = Function.update c.threads i (.taken ⟨t, tnow, caller⟩) ∧ c'.heap = c.heap.eraseIdx pick := by
  rw [threadStep, hpc] at hs
  dsimp only at hs
  split at hs
  · split at hs <;> cases hs
    rename_i hempty
    refine Or.inl ⟨rfl, ?_⟩
    rw [topDue, List.isEmpty_iff.mp hempty]
    rfl
  · rename_i t hpick
    have hmem : t ∈ c.heap := List.mem_of_getElem? hpick
    split at hs
    · rename_i htop
      split at hs <;> cases hs
      · rename_i hdue
        exact Or.inr ⟨t, hpick, htop, List.any_eq_true.mpr ⟨t, hmem, decide_eq_true hdue⟩, rfl, rfl⟩
      · -- the timer on top is not due, so no other one is
        rename_i hdue
        refine Or.inl ⟨rfl, List.any_eq_false.mpr fun u hu hle => hdue ?_⟩
        exact UInt64.le_trans (of_decide_eq_true (List.all_eq_true.mp htop u hu)) (of_decide_eq_true hle)
    · cases hs

/-- A step of a thread that removes no timer and changes the heap only with the lock in its hands. -/
theorem holding_of_update {R : Timer β → List (Timer β) → Prop} {i : ι} {pc : TimerPc β} (h : Holding R c) (hexcl : Exclusive c)
    (ht : c'.threads = Function.update c.threads i pc) (hpc : ∀ e, pc ≠ .taken e)
    (hheap : c'.heap = c.heap ∨ (c.threads i).critical = true) : Holding R c' := by
  intro j e hj
  have hne : j ≠ i := by
    rintro rfl
    rw [ht, Function.update_self] at hj
    exact hpc e hj
  rw [ht, Function.update_of_ne hne] at hj
  rcases hheap with hheap | hcrit
  · rw [hheap]
    exact h j e hj
  · -- two threads would hold the lock
    have hi := (hexcl i).mp hcrit
    have hjlock := (hexcl j).mp (by rw [hj]; rfl)
    exact absurd (Option.some.inj (hjlock.symm.trans hi)) hne

/-- What holds of the timers in hand is kept by a thread, if it holds of what is taken. -/
theorem threadStep_holding {R : Timer β → List (Timer β) → Prop} {i : ι} {wall : ustime} {pick : Nat} (h : Holding R c)
    (hexcl : Exclusive c)
    (htake : ∀ t tnow caller, c.threads i = .procTest tnow caller → c.topDue tnow = true → c.heap[pick]? = some t →
      isTop c.heap t = true → R t (c.heap.eraseIdx pick))
    (hs : c.threadStep i wall pick = some c') : Holding R c' := by
  by_cases htest : ∃ tnow caller, c.threads i = .procTest tnow caller
  · obtain ⟨tnow, caller, hpc⟩ := htest
    rcases procTest_step hpc hs with ⟨rfl, -⟩ | ⟨t, hpick, htop, hdue, ht, hheap⟩
    · exact holding_of_update h hexcl rfl nofun (Or.inl rfl)
    · intro j e hj
      by_cases hji : j = i
      · subst hji
        rw [ht, Function.update_self] at hj
        cases hj
        rw [hheap]
        exact htake t tnow caller hpc hdue hpick htop
      · -- another thread would hold the lock
        rw [ht, Function.update_of_ne hji] at hj
        have hi := (hexcl i).mp (by rw [hpc]; rfl)
        have hjlock := (hexcl j).mp (by rw [hj]; rfl)
        exact absurd (Option.some.inj (hjlock.symm.trans hi)) hji
  · cases threadStep_cases hs with
    | take pick t tnow caller hpc hpick => exact absurd ⟨tnow, caller, hpc⟩ htest
    | locks hpc hlocks => cases hlocks <;> exact holding_of_update h hexcl rfl nofun (Or.inl rfl)
    | unlocks hpc hunlocks => cases hunlocks <;> exact holding_of_update h hexcl rfl nofun (Or.inl rfl)
    | moves hpc hmoves => cases hmoves <;> exact holding_of_update h hexcl rfl nofun (Or.inl rfl)
    | throws hpc hthrows => exact holding_of_update h hexcl rfl nofun (Or.inl rfl)
    | push t k hpc => exact holding_of_update h hexcl rfl nofun (Or.inl rfl)
    | toHeap t hpc hlast =>
      have hsame : c.threads = Function.update c.threads i .move := by rw [← hpc, Function.update_eq_self]
      exact holding_of_update h hexcl hsame nofun (Or.inr (by rw [hpc]; rfl))
    | reinsert e ttmp hpc hne => exact holding_of_update h hexcl rfl nofun (Or.inr (by rw [hpc]; rfl))
    | deliver e hpc | drop e ttmp hpc heq | loopEnd hpc hstop | stores hpc hstores =>
      exact holding_of_update h hexcl rfl nofun (Or.inl rfl)

/-- The same for every step. -/
theorem timerStep_holding {R : Timer β → List (Timer β) → Prop} {a : TimerAct ι β} (h : Holding R c) (hexcl : Exclusive c)
    (htake : ∀ i wall pick t tnow caller, a = .thread i wall pick → c.threads i = .procTest tnow caller → c.topDue tnow = true →
      c.heap[pick]? = some t → isTop c.heap t = true → R t (c.heap.eraseIdx pick))
    (hs : c.step a = some c') : Holding R c' := by
  cases timerStep_cases hs with
  | selectWall | selectPacket | registerTimeWriter | stop | noClock _ => exact h
  | setTimerAt hpc hcalls | setPeriodicTimer hpc hcalls => exact holding_of_update h hexcl rfl nofun (Or.inl rfl)
  | startThrows hpc | starts hpc _ | timePast hpc => exact holding_of_update h hexcl rfl nofun (Or.inl rfl)
  | thread hs => exact threadStep_holding h hexcl (fun t tnow caller => htake _ _ _ t tnow caller rfl) hs

/-- The heap is not empty and holds no timer that is earlier. -/
def Followed (t : Timer β) (heap : List (Timer β)) : Prop := heap ≠ [] ∧ ∀ u ∈ heap, t.time ≤ u.time

/-- A timer that was on top of a heap with another one. -/
theorem followed_eraseIdx {heap : List (Timer β)} {t : Timer β} {pick : Nat} (hpick : heap[pick]? = some t)
    (htop : isTop heap t = true) (hmore : 2 ≤ heap.length) : Followed t (heap.eraseIdx pick) := by
  obtain ⟨hlt, -⟩ := List.getElem?_eq_some_iff.mp hpick
  refine ⟨fun hnil => ?_, fun u hu => ?_⟩
  · have hlen := congrArg List.length hnil
    rw [List.length_eraseIdx_of_lt hlt, List.length_nil] at hlen
    omega
  · exact of_decide_eq_true (List.all_eq_true.mp htop u (List.mem_of_mem_eraseIdx hu))

omit [DecidableEq ι] in
/-- A timer that is followed is safely looked at. -/
theorem Holding.topSafe (h : Holding Followed c) : TopSafe c := by
  constructor
  · intro i heap hheap
    unfold topCalls at hheap
    split at hheap
    · rename_i tnow caller hpc
      have hmem : c.heap ≠ [] ∧ heap = c.heap := by
        cases hnil : c.heap with
        | nil => simp [hnil] at hheap
        | cons t ts =>
          refine ⟨nofun, ?_⟩
          rw [hnil] at hheap
          split at hheap
          · cases hheap
          · split at hheap <;> simpa using hheap
      rw [hmem.2]
      exact hmem.1
    · rename_i e hpc
      rw [List.mem_singleton] at hheap
      rw [hheap]
      exact (h i e hpc).1
    · cases hheap
  · intro i
    unfold assertHolds
    split
    · rename_i e hpc
      refine List.all_eq_true.mpr fun t ht => ?_
      rw [decide_eq_true ((h i e hpc).2 t ht), Bool.or_true]
    · rfl

/-! ## Runs -/

variable [DecidableEq β]

omit [DecidableEq ι] in
/-- `remove_references` leaves the positions of the threads and the lock. -/
theorem removeReferences_leaves (b : β) (c : TimerConfig ι β) :
    (Exn.leaves ((removeReferences b).run c)).threads = c.threads ∧ (Exn.leaves ((removeReferences b).run c)).lock = c.lock := by
  simp only [removeReferences, EStateM.run_bind, EStateM.run_get]
  cases c.running <;> exact ⟨rfl, rfl⟩

/-- The lock is with one thread, and a removed timer is followed by the others. -/
structure TopInv (c : TimerConfig ι β) : Prop where
  exclusive : Exclusive c
  followed : Holding Followed c

/-- The heap keeps the invariant as long as another timer is there. -/
theorem heapStep_topInv {a : HeapAct ι β} (h : TopInv c) (hmore : c.leavesAnother a = true) (hs : c.heapStep a = some c') :
    TopInv c' := by
  cases a with
  | timers a =>
    refine ⟨timerStep_exclusive h.exclusive hs, timerStep_holding h.followed h.exclusive ?_ hs⟩
    rintro i wall pick t tnow caller rfl hpc hdue hpick htop
    rw [leavesAnother, hpc] at hmore
    simp only [hdue, Bool.not_true, Bool.false_or, decide_eq_true_eq] at hmore
    exact followed_eraseIdx hpick htop hmore
  | removeReferences b =>
    rw [heapStep] at hs
    split at hs <;> cases hs
    rename_i hfree
    obtain ⟨ht, hl⟩ := removeReferences_leaves b c
    have hexcl : Exclusive (Exn.leaves ((removeReferences b).run c)) := h.exclusive.settings ht hl
    refine ⟨hexcl, fun i e hi => ?_⟩
    -- no thread holds the lock
    have hlock := (hexcl i).mp (by rw [hi]; rfl)
    rw [hl, hfree] at hlock
    cases hlock

/-- A removal of the only timer is followed by a look at the top of an empty heap. -/
theorem not_topSafe_of_last {a : HeapAct ι β} (hlast : c.leavesAnother a = false) (hs : c.heapStep a = some c') : ¬TopSafe c' := by
  intro hsafe
  cases a with
  | removeReferences b => cases hlast
  | timers a =>
    cases a with
    | thread i wall pick =>
      unfold leavesAnother at hlast
      dsimp only at hlast
      split at hlast
      · rename_i tnow caller hpc
        simp only [Bool.or_eq_false_iff, Bool.not_eq_false', decide_eq_false_iff_not, not_le] at hlast
        obtain ⟨hdue, hshort⟩ := hlast
        rcases procTest_step hpc hs with ⟨-, hnone⟩ | ⟨t, hpick, -, -, ht, hheap⟩
        · rw [hdue] at hnone
          cases hnone
        · obtain ⟨hlt, -⟩ := List.getElem?_eq_some_iff.mp hpick
          refine hsafe.nonempty i c'.heap ?_ ?_
          · rw [topCalls, ht, Function.update_self]
            exact List.mem_singleton_self _
          · rw [hheap, ← List.length_eq_zero_iff, List.length_eraseIdx_of_lt hlt]
            omega
      · cases hlast
    | _ => cases hlast

/-- In a run, the top of the heap is asked for only when there is one, and the assertion holds, if and only if every timer that is
removed leaves another one in the heap. -/
theorem topSafe_iff (acts : List (HeapAct ι β)) (c : TimerConfig ι β) (hr : Lts.run heapStep new acts = some c) :
    (∀ as c', as <+: acts → Lts.run heapStep new as = some c' → TopSafe c') ↔
      Lts.Along heapStep (fun c a => c.leavesAnother a = true) new acts :=
  Lts.forall_reached_iff (I := TopInv) (fun _ _ _ h hmore hs => heapStep_topInv h hmore hs) (fun _ h => h.followed.topSafe)
    (fun _ _ _ hlast hs => not_topSafe_of_last (Bool.not_eq_true _ ▸ hlast) hs) ⟨exclusive_new, nofun⟩ hr

end

/-! ## One timer, and two -/

/-- The next steps of a thread that finds its timer first in the heap; the clock reads 10. -/
def heapSteps (i : Bool) (n : Nat) : List (HeapAct Bool Unit) := List.replicate n (.timers (.thread i 10 0))

/-- The first thread sets one-shot timers for the times `ts`; the timer thread starts and moves them to the heap. -/
def setTimersActs (ts : List ustime) : List (HeapAct Bool Unit) :=
  ts.flatMap (fun t => .timers (.setTimerAt false () t) :: heapSteps false 3) ++ [.timers (.start true)] ++
    heapSteps true (2 + ts.length + 2)

/-- The timer thread reads the clock, takes the lock and removes the timer that is due, and the heap is empty. -/
theorem top_of_empty_heap : ¬∀ (acts : List (HeapAct Bool Unit)) (c : TimerConfig Bool Unit), Lts.run heapStep new acts = some c →
    TopSafe c := by
  intro hall
  have hrun : (Lts.run heapStep new (setTimersActs [5] ++ heapSteps true 3)).map (fun c => (c.topCalls true).map List.length) =
      some [0] := by decide +kernel
  obtain ⟨c, hc, hcalls⟩ := Option.map_eq_some_iff.mp hrun
  obtain ⟨heap, hheap, hlen⟩ := List.mem_map.mp (hcalls ▸ List.mem_singleton_self 0)
  exact (hall _ c hc).nonempty true heap hheap (List.length_eq_zero_iff.mp hlen)

/-- With a second timer that is due later, the assertion is evaluated on a heap with that timer. -/
theorem topSafe_iff_two_timers : ∃ c, Lts.run heapStep new (setTimersActs [5, 20] ++ heapSteps true 3) = some c ∧
    (c.topCalls true).map (List.map fun t => t.time) = [[20]] ∧
    ∀ as c', as <+: setTimersActs [5, 20] ++ heapSteps true 3 → Lts.run heapStep new as = some c' → TopSafe c' := by
  have hrun : (Lts.run heapStep new (setTimersActs [5, 20] ++ heapSteps true 3)).map (fun c =>
      (c.topCalls true).map (List.map fun t => t.time)) = some [[20]] := by decide +kernel
  have halong : Lts.Along heapStep (fun c a => c.leavesAnother a = true) new (setTimersActs [5, 20] ++ heapSteps true 3) := by
    decide +kernel
  obtain ⟨c, hc, hcalls⟩ := Option.map_eq_some_iff.mp hrun
  exact ⟨c, hc, hcalls, (topSafe_iff _ c hc).mpr halong⟩

end Blockmon
