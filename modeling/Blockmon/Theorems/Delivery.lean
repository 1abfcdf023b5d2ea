import Blockmon.Delivery

/-!
# Every message arrives once

What a thread sends through an output gate comes to the peers of the gate as often as they are linked to it, unless an exception leaves
the delivery, and what comes to a gate is handled by its block in the order in which it came, unless a read of its queue is given up.
When no chain of direct calls leads back to a block, each link keeps the order too.
-/

namespace Blockmon

namespace Delivery

open DeliveryFrame DeliveryEvent DeliveryLog

variable {ι T : Type}

@[simp] theorem stack_emit (s : Delivery ι T) (es : List (DeliveryEvent ι T)) : (s.emit es).stack = s.stack := rfl

@[simp] theorem queue_emit (s : Delivery ι T) (es : List (DeliveryEvent ι T)) : (s.emit es).queue = s.queue := rfl

@[simp] theorem log_emit (s : Delivery ι T) (es : List (DeliveryEvent ι T)) : (s.emit es).log = s.log ++ es := rfl

@[simp] theorem stack_setQueue (s : Delivery ι T) (i : GateRef) (ms : List T) : (s.setQueue i ms).stack = s.stack := rfl

@[simp] theorem log_setQueue (s : Delivery ι T) (i : GateRef) (ms : List T) : (s.setQueue i ms).log = s.log := rfl

/-- The queue of one gate is replaced. -/
@[simp] theorem queue_setQueue (s : Delivery ι T) (i j : GateRef) (ms : List T) :
    (s.setQueue i ms).queue j = if j = i then ms else s.queue j := by
  simp [setQueue, Function.update_apply]

@[simp] theorem stack_setRunning (s : Delivery ι T) (b : Bool) : (s.setRunning b).stack = s.stack := rfl

@[simp] theorem queue_setRunning (s : Delivery ι T) (b : Bool) : (s.setRunning b).queue = s.queue := rfl

@[simp] theorem log_setRunning (s : Delivery ι T) (b : Bool) : (s.setRunning b).log = s.log := rfl

@[simp] theorem running_emit (s : Delivery ι T) (es : List (DeliveryEvent ι T)) : (s.emit es).running = s.running := rfl

@[simp] theorem running_setQueue (s : Delivery ι T) (i : GateRef) (ms : List T) : (s.setQueue i ms).running = s.running := rfl

/-- What was taken in two parts of a log. -/
theorem takenAt_append (l es : List (DeliveryEvent ι T)) (i : GateRef) : takenAt (l ++ es) i = takenAt l i ++ takenAt es i :=
  List.filterMap_append

/-- What was handled in two parts of a log. -/
theorem handledAt_append (l es : List (DeliveryEvent ι T)) (i : GateRef) : handledAt (l ++ es) i = handledAt l i ++ handledAt es i :=
  List.filterMap_append

/-- A message is taken at one gate. -/
theorem takenAt_taken (t : ι) (o i' : GateRef) (m : T) (i : GateRef) :
    takenAt [taken t o i' m] i = if i' = i then [m] else [] := by
  rw [takenAt, List.filterMap_cons]
  split <;> simp_all

/-- A message is handled at one gate. -/
theorem handledAt_handled (i' : GateRef) (m : T) (i : GateRef) :
    handledAt [(handled i' m : DeliveryEvent ι T)] i = if i' = i then [m] else [] := by
  rw [handledAt, List.filterMap_cons]
  split <;> simp_all

/-- A queue keeps its order when the new events of its gate give back what they take, in order. -/
theorem fifo_of_log {s s' : Delivery ι T} {i : GateRef} {es : List (DeliveryEvent ι T)}
    (hi : takenAt s.log i = handledAt s.log i ++ s.queue i) (hlog : s'.log = s.log ++ es)
    (hes : s.queue i ++ takenAt es i = handledAt es i ++ s'.queue i) : takenAt s'.log i = handledAt s'.log i ++ s'.queue i := by
  calc takenAt s'.log i = handledAt s.log i ++ (s.queue i ++ takenAt es i) := by rw [hlog, takenAt_append, hi, List.append_assoc]
    _ = handledAt s'.log i ++ s'.queue i := by rw [hes, hlog, handledAt_append, List.append_assoc]

variable [DecidableEq ι] {N : Network} {s s' : Delivery ι T} {t t' : ι} {o i : GateRef} {m : T}

/-- The stack of one thread is replaced. -/
@[simp] theorem stack_goto (s : Delivery ι T) (t t' : ι) (calls : List (DeliveryFrame T)) :
    (s.goto t calls).stack t' = if t' = t then calls else s.stack t' := by
  simp [goto, Function.update_apply]

@[simp] theorem queue_goto (s : Delivery ι T) (t : ι) (calls : List (DeliveryFrame T)) : (s.goto t calls).queue = s.queue := rfl

@[simp] theorem log_goto (s : Delivery ι T) (t : ι) (calls : List (DeliveryFrame T)) : (s.goto t calls).log = s.log := rfl

@[simp] theorem running_goto (s : Delivery ι T) (t : ι) (calls : List (DeliveryFrame T)) : (s.goto t calls).running = s.running := rfl

/-- What one step does. -/
inductive Stepped (N : Network) (s : Delivery ι T) : Delivery ι T → Prop where
  | called (t : ι) (b : Nat) (hidle : s.stack t = []) : Stepped N s (s.goto t [handler b])
  | dequeued (t : ι) (i : GateRef) (m : T) (ms : List T) (hidle : s.stack t = []) (hqueue : s.queue i = m :: ms) :
    Stepped N s (((s.setQueue i ms).goto t [handler i.block]).emit [handled i m])
  | sending (t : ι) (o : GateRef) (m : T) (calls : List (DeliveryFrame T)) (hstack : s.stack t = handler o.block :: calls) :
    Stepped N s ((s.goto t (deliver o m (N.peers o) :: handler o.block :: calls)).emit [sent t o m])
  | invoking (t : ι) (o i : GateRef) (m : T) (left : List GateRef) (calls : List (DeliveryFrame T))
    (hstack : s.stack t = deliver o m (i :: left) :: calls) (hdirect : N.isDirect i.block = true) :
    Stepped N s ((s.goto t (handler i.block :: deliver o m left :: calls)).emit [taken t o i m, handled i m])
  | queueing (t : ι) (o i : GateRef) (m : T) (left : List GateRef) (calls : List (DeliveryFrame T))
    (hstack : s.stack t = deliver o m (i :: left) :: calls) (hdirect : N.isDirect i.block = false) :
    Stepped N s (((s.setQueue i (s.queue i ++ [m])).goto t (deliver o m left :: calls)).emit [taken t o i m])
  | dropping (t : ι) (o i : GateRef) (m : T) (left : List GateRef) (calls : List (DeliveryFrame T))
    (hstack : s.stack t = deliver o m (i :: left) :: calls) (hdrops : N.drops i = true ∨ s.running = false) :
    Stepped N s ((s.goto t (deliver o m left :: calls)).emit [dropped t o i m])
  | returning (t : ι) (f : DeliveryFrame T) (calls : List (DeliveryFrame T)) (hstack : s.stack t = f :: calls)
    (hdone : ∀ o m i left, f ≠ deliver o m (i :: left)) : Stepped N s (s.goto t calls)
  | aborting (t : ι) (o : GateRef) (m : T) (left : List GateRef) (above calls : List (DeliveryFrame T))
    (hstack : s.stack t = above ++ deliver o m left :: calls) (habove : above = [] ∨ ∃ b, above = [handler b]) :
    Stepped N s ((s.goto t calls).emit [aborted t o m left])
  | abandoning (i : GateRef) (ms : List T) (hdirect : N.isDirect i.block = false) : Stepped N s ((s.setQueue i ms).emit [abandoned i])
  | started : Stepped N s (s.setRunning true)
  | stopping : Stepped N s ((s.setRunning false).emit [stopped])

/-- Every step is one of those of `Stepped`. -/
theorem step_cases {a : DeliveryAct ι T} (h : s.step N a = some s') : Stepped N s s' := by
  cases a with
  | call t b =>
    simp only [step, List.isEmpty_iff] at h
    split at h
    · next hidle =>
      cases h
      exact .called t b hidle
    · cases h
  | dequeue t i =>
    simp only [step, List.isEmpty_iff] at h
    split at h
    · next hidle =>
      obtain ⟨m, hm, rfl⟩ := Option.map_eq_some_iff.mp h
      refine .dequeued t i m _ hidle ?_
      exact List.eq_cons_of_mem_head? hm
    · cases h
  | send t index m =>
    simp only [step] at h
    split at h
    · next b calls hstack =>
      cases h
      exact .sending t { block := b, index := index } m calls hstack
    · cases h
  | receive t room =>
    simp only [step] at h
    split at h
    · next o m i left calls hstack =>
      simp only [receive] at h
      split at h
      · next hdirect =>
        cases h
        exact .invoking t o i m left calls hstack hdirect
      · next hdirect =>
        split at h
        · cases h
          exact .queueing t o i m left calls hstack (by simpa using hdirect)
        · split at h
          · next hdrops =>
            cases h
            exact .dropping t o i m left calls hstack (by simpa using hdrops)
          · cases h
    · cases h
  | ret t =>
    simp only [step] at h
    split at h
    · next b calls hstack =>
      cases h
      exact .returning t _ calls hstack (by simp)
    · next o m calls hstack =>
      cases h
      exact .returning t _ calls hstack (by simp)
    · cases h
  | throw t =>
    simp only [step] at h
    split at h
    · next o m left calls hstack =>
      cases h
      exact .aborting t o m left [] calls hstack (Or.inl rfl)
    · next b o m left calls hstack =>
      cases h
      exact .aborting t o m left [handler b] calls hstack (Or.inr ⟨b, rfl⟩)
    · next b calls _ hstack =>
      cases h
      exact .returning t _ calls hstack (by simp)
    · cases h
  | abandon i ms =>
    simp only [step] at h
    split at h
    · cases h
    · next hdirect =>
      cases h
      exact .abandoning i ms (by simpa using hdirect)
  | start =>
    cases h
    exact .started
  | stop =>
    cases h
    exact .stopping

/-! ## The account of a link -/

/-- The messages of the deliveries through gate `o` that gate `i` did not get yet, the innermost delivery first. -/
def pending (calls : List (DeliveryFrame T)) (o i : GateRef) : List T :=
  calls.flatMap fun | deliver o' m left => if o' = o then List.replicate (left.count i) m else [] | handler _ => []

/-- What came of thread `t` from gate `o` to gate `i`, and what is under way. -/
def account (s : Delivery ι T) (t : ι) (o i : GateRef) : List T := arrived s.log t o i ++ pending (s.stack t) o i

/-- What has to come: each message once for each link of the two gates. -/
def owed (N : Network) (s : Delivery ι T) (t : ι) (o i : GateRef) : List T :=
  (sentBy s.log t o).flatMap fun m => List.replicate ((N.peers o).count i) m

/-- A running handler has nothing to deliver. -/
theorem pending_cons_handler (b : Nat) (calls : List (DeliveryFrame T)) (o i : GateRef) :
    pending (handler b :: calls) o i = pending calls o i := rfl

/-- A call of `deliver` has its message to deliver to the gates that are left. -/
theorem pending_cons_deliver (o' : GateRef) (m : T) (left : List GateRef) (calls : List (DeliveryFrame T)) (o i : GateRef) :
    pending (deliver o' m left :: calls) o i = (if o' = o then List.replicate (left.count i) m else []) ++ pending calls o i := rfl

/-- What has arrived in two parts of a log. -/
theorem arrived_append (l es : List (DeliveryEvent ι T)) (t : ι) (o i : GateRef) :
    arrived (l ++ es) t o i = arrived l t o i ++ arrived es t o i := List.filterMap_append

/-- What was sent in two parts of a log. -/
theorem sentBy_append (l es : List (DeliveryEvent ι T)) (t : ι) (o : GateRef) : sentBy (l ++ es) t o = sentBy l t o ++ sentBy es t o :=
  List.filterMap_append

/-- What was cut off in two parts of a log. -/
theorem cutOff_append (l es : List (DeliveryEvent ι T)) (t : ι) (o i : GateRef) :
    cutOff (l ++ es) t o i = cutOff l t o i ++ cutOff es t o i := List.flatMap_append

/-- A message that is taken has arrived. -/
theorem arrived_cons_taken (t' : ι) (o' i' : GateRef) (m : T) (es : List (DeliveryEvent ι T)) (t : ι) (o i : GateRef) :
    arrived (taken t' o' i' m :: es) t o i = (if t' = t ∧ o' = o ∧ i' = i then [m] else []) ++ arrived es t o i := by
  rw [arrived, List.filterMap_cons]
  split <;> simp_all [arrived]

/-- A message that is dropped has arrived as well. -/
theorem arrived_cons_dropped (t' : ι) (o' i' : GateRef) (m : T) (es : List (DeliveryEvent ι T)) (t : ι) (o i : GateRef) :
    arrived (dropped t' o' i' m :: es) t o i = (if t' = t ∧ o' = o ∧ i' = i then [m] else []) ++ arrived es t o i := by
  rw [arrived, List.filterMap_cons]
  split <;> simp_all [arrived]

/-- A message that comes to a gate is not under way any more. -/
theorem account_receive {t' : ι} {o' i' : GateRef} {left : List GateRef} {calls calls' : List (DeliveryFrame T)}
    {es : List (DeliveryEvent ι T)} (hstack : s.stack t' = deliver o' m (i' :: left) :: calls)
    (hcalls : ∀ o i, pending calls' o i = pending (deliver o' m left :: calls) o i)
    (hstack' : ∀ t, s'.stack t = if t = t' then calls' else s.stack t) (hlog : s'.log = s.log ++ es)
    (hes : ∀ t o i, arrived es t o i = if t' = t ∧ o' = o ∧ i' = i then [m] else []) : account s' t o i = account s t o i := by
  rw [account, account, hstack', hlog, arrived_append, hes]
  by_cases ht : t = t'
  · subst ht
    rw [if_pos rfl, hcalls, hstack, pending_cons_deliver, pending_cons_deliver]
    by_cases ho : o' = o
    · subst ho
      by_cases hi : i' = i
      · subst hi
        simp [List.replicate_succ]
      · simp [hi]
    · simp [ho]
  · simp [ht, Ne.symm ht]

/-- An account that a step leaves alone. -/
def SameAccount (N : Network) (s s' : Delivery ι T) (t : ι) (o i : GateRef) : Prop :=
  account s' t o i = account s t o i ∧ owed N s' t o i = owed N s t o i ∧ cutOff s'.log t o i = cutOff s.log t o i

/-- The account of a link when a message was sent through its gate. -/
def SentAccount (N : Network) (s s' : Delivery ι T) (t : ι) (o i : GateRef) : Prop :=
  ∃ m calls, s.stack t = handler o.block :: calls ∧ cutOff s'.log t o i = cutOff s.log t o i ∧
    account s' t o i = arrived s.log t o i ++ (List.replicate ((N.peers o).count i) m ++ pending (s.stack t) o i) ∧
    owed N s' t o i = owed N s t o i ++ List.replicate ((N.peers o).count i) m

/-- The account of a link when an exception left a delivery through its gate. -/
def CutAccount (N : Network) (s s' : Delivery ι T) (t : ι) (o i : GateRef) : Prop :=
  ∃ m left calls, aborted t o m left ∈ s'.log ∧ owed N s' t o i = owed N s t o i ∧
    cutOff s'.log t o i = cutOff s.log t o i ++ List.replicate (left.count i) m ∧
    account s' t o i = arrived s.log t o i ++ pending calls o i ∧
    account s t o i = arrived s.log t o i ++ (List.replicate (left.count i) m ++ pending calls o i)

/-- What is under way from another thread stays under way. -/
theorem pending_of_ne {calls : List (DeliveryFrame T)} (hstack : ∀ t, s'.stack t = if t = t' then calls else s.stack t) (ht : t ≠ t')
    (o i : GateRef) : pending (s'.stack t) o i = pending (s.stack t) o i := by
  rw [hstack, if_neg ht]

/-- What a thread that moves has under way, when its new calls have the same to deliver. -/
theorem pending_of_goto {calls : List (DeliveryFrame T)} (hstack : ∀ t, s'.stack t = if t = t' then calls else s.stack t)
    (hcalls : pending calls o i = pending (s.stack t') o i) (t : ι) : pending (s'.stack t) o i = pending (s.stack t) o i := by
  by_cases ht : t = t'
  · subst ht
    rw [hstack, if_pos rfl, hcalls]
  · exact pending_of_ne hstack ht o i

/-- What is under way from one gate is the same after a thread has moved that delivers through another one. -/
theorem pending_of_not_link {o' : GateRef} {calls : List (DeliveryFrame T)} (hstack : ∀ t, s'.stack t = if t = t' then calls else s.stack t)
    (hlink : ¬(t' = t ∧ o' = o)) (hcalls : o' ≠ o → pending calls o i = pending (s.stack t') o i) :
    pending (s'.stack t) o i = pending (s.stack t) o i := by
  by_cases ht : t = t'
  · subst ht
    rw [hstack, if_pos rfl, hcalls fun heq => hlink ⟨rfl, heq⟩]
  · exact pending_of_ne hstack ht o i

/-- An account is left alone when nothing under way changes and the new events are not of the link. -/
theorem sameAccount_of_log {es : List (DeliveryEvent ι T)} (hlog : s'.log = s.log ++ es) (harrived : arrived es t o i = [])
    (hsent : sentBy es t o = []) (hcut : cutOff es t o i = []) (hpending : pending (s'.stack t) o i = pending (s.stack t) o i) :
    SameAccount N s s' t o i := by
  refine ⟨?_, ?_, ?_⟩
  · rw [account, account, hlog, arrived_append, harrived, List.append_nil, hpending]
  · rw [owed, owed, hlog, sentBy_append, hsent, List.append_nil]
  · rw [hlog, cutOff_append, hcut, List.append_nil]

/-- A message that comes to a gate leaves the account alone. -/
theorem sameAccount_receive {t' : ι} {o' i' : GateRef} {left : List GateRef} {calls calls' : List (DeliveryFrame T)}
    {es : List (DeliveryEvent ι T)} (hstack : s.stack t' = deliver o' m (i' :: left) :: calls)
    (hcalls : ∀ o i, pending calls' o i = pending (deliver o' m left :: calls) o i)
    (hstack' : ∀ t, s'.stack t = if t = t' then calls' else s.stack t) (hlog : s'.log = s.log ++ es)
    (harrived : ∀ t o i, arrived es t o i = if t' = t ∧ o' = o ∧ i' = i then [m] else []) (hsent : ∀ t o, sentBy es t o = [])
    (hcut : ∀ t o i, cutOff es t o i = []) : SameAccount N s s' t o i := by
  refine ⟨account_receive hstack hcalls hstack' hlog harrived, ?_, ?_⟩
  · rw [owed, owed, hlog, sentBy_append, hsent, List.append_nil]
  · rw [hlog, cutOff_append, hcut, List.append_nil]

/-- The account after a message was sent. -/
theorem account_sending {o' : GateRef} {calls : List (DeliveryFrame T)} (hstack : s.stack t' = handler o'.block :: calls) (m : T)
    (t : ι) (o i : GateRef) :
    let s' := (s.goto t' (deliver o' m (N.peers o') :: handler o'.block :: calls)).emit [sent t' o' m]
    SameAccount N s s' t o i ∨ SentAccount N s s' t o i := by
  intro s'
  by_cases hlink : t' = t ∧ o' = o
  · obtain ⟨rfl, rfl⟩ := hlink
    refine Or.inr ⟨m, calls, hstack, ?_, ?_, ?_⟩
    · rw [log_emit, log_goto, cutOff_append]
      exact List.append_nil _
    · rw [account, stack_emit, stack_goto, if_pos rfl, log_emit, log_goto, arrived_append, pending_cons_deliver, if_pos rfl, hstack]
      exact congrArg (· ++ _) (List.append_nil _)
    · rw [owed, owed, log_emit, log_goto, sentBy_append, List.flatMap_append]
      simp [sentBy]
  · refine Or.inl (sameAccount_of_log (show s'.log = s.log ++ [sent t' o' m] from rfl) rfl ?_ rfl ?_)
    · rw [sentBy, List.filterMap_cons]
      simp [hlink]
    · refine pending_of_not_link (fun t => stack_goto ..) hlink fun ho => ?_
      rw [pending_cons_deliver, if_neg ho, hstack, List.nil_append]

/-- The account after an exception left a delivery. -/
theorem account_aborting {o' : GateRef} {left : List GateRef} {above calls : List (DeliveryFrame T)}
    (hstack : s.stack t' = above ++ deliver o' m left :: calls) (habove : above = [] ∨ ∃ b, above = [handler b]) (t : ι) (o i : GateRef) :
    let s' := (s.goto t' calls).emit [aborted t' o' m left]
    SameAccount N s s' t o i ∨ CutAccount N s s' t o i := by
  intro s'
  -- a handler above the delivery hands nothing over
  have hpending : pending (s.stack t') o i = (if o' = o then List.replicate (left.count i) m else []) ++ pending calls o i := by
    rw [hstack]
    rcases habove with rfl | ⟨b, rfl⟩
    · exact pending_cons_deliver ..
    · exact pending_cons_deliver ..
  by_cases hlink : t' = t ∧ o' = o
  · obtain ⟨rfl, rfl⟩ := hlink
    rw [if_pos rfl] at hpending
    refine Or.inr ⟨m, left, calls, ?_, ?_, ?_, ?_, ?_⟩
    · rw [log_emit]
      exact List.mem_append_right _ (List.mem_singleton_self _)
    · rw [owed, owed, log_emit, log_goto, sentBy_append]
      exact congrArg (List.flatMap _) (List.append_nil _)
    · rw [log_emit, log_goto, cutOff_append]
      simp [cutOff]
    · rw [account, stack_emit, stack_goto, if_pos rfl, log_emit, log_goto, arrived_append]
      exact congrArg (· ++ _) (List.append_nil _)
    · rw [account, hpending]
  · refine Or.inl (sameAccount_of_log (show s'.log = s.log ++ [aborted t' o' m left] from rfl) rfl rfl ?_ ?_)
    · rw [cutOff, List.flatMap_cons]
      simp [hlink]
    · refine pending_of_not_link (fun t => stack_goto ..) hlink fun ho => ?_
      rw [hpending, if_neg ho, List.nil_append]

/-- A step changes the account of a link only when it sends a message through its gate, or when an exception leaves a delivery through
its gate. -/
theorem account_step (h : Stepped N s s') (t : ι) (o i : GateRef) :
    SameAccount N s s' t o i ∨ SentAccount N s s' t o i ∨ CutAccount N s s' t o i := by
  cases h with
  | called t' b hidle =>
    have hcalls : pending [handler b] o i = pending (s.stack t') o i := by rw [hidle]; rfl
    exact Or.inl (sameAccount_of_log (List.append_nil _).symm rfl rfl rfl (pending_of_goto (fun t => stack_goto ..) hcalls t))
  | dequeued t' i' m ms hidle hqueue =>
    have hcalls : pending [handler i'.block] o i = pending (s.stack t') o i := by rw [hidle]; rfl
    exact Or.inl (sameAccount_of_log rfl rfl rfl rfl (pending_of_goto (fun t => stack_goto ..) hcalls t))
  | sending t' o' m calls hstack => exact (account_sending hstack m t o i).imp_right Or.inl
  | invoking t' o' i' m left calls hstack hdirect =>
    refine Or.inl (sameAccount_receive hstack (fun o i => pending_cons_handler ..) (fun t => stack_goto ..) rfl ?_
      (fun _ _ => rfl) fun _ _ _ => rfl)
    intro t o i
    rw [arrived_cons_taken]
    exact List.append_nil _
  | queueing t' o' i' m left calls hstack hdirect =>
    refine Or.inl (sameAccount_receive hstack (fun o i => rfl) (fun t => stack_goto ..) rfl ?_ (fun _ _ => rfl) fun _ _ _ => rfl)
    intro t o i
    rw [arrived_cons_taken]
    exact List.append_nil _
  | dropping t' o' i' m left calls hstack hdrops =>
    refine Or.inl (sameAccount_receive hstack (fun o i => rfl) (fun t => stack_goto ..) rfl ?_ (fun _ _ => rfl) fun _ _ _ => rfl)
    intro t o i
    rw [arrived_cons_dropped]
    exact List.append_nil _
  | returning t' f calls hstack hdone =>
    have hcalls : pending calls o i = pending (s.stack t') o i := by
      rw [hstack]
      cases f with
      | handler b => exact (pending_cons_handler ..).symm
      | deliver o' m left =>
        cases left with
        | nil =>
          rw [pending_cons_deliver, List.count_nil, List.replicate_zero, ite_self, List.nil_append]
        | cons i' left => exact absurd rfl (hdone o' m i' left)
    exact Or.inl (sameAccount_of_log (List.append_nil _).symm rfl rfl rfl (pending_of_goto (fun t => stack_goto ..) hcalls t))
  | aborting t' o' m left above calls hstack habove => exact (account_aborting hstack habove t o i).imp_right Or.inr
  | abandoning i' ms hdirect => exact Or.inl (sameAccount_of_log rfl rfl rfl rfl rfl)
  | started => exact Or.inl ⟨rfl, rfl, rfl⟩
  | stopping => exact Or.inl (sameAccount_of_log rfl rfl rfl rfl rfl)

/-! ## Conservation -/

/-- What holds of the messages in every state. -/
structure Accounts (N : Network) (s : Delivery ι T) : Prop where
  balance : ∀ t o i, (account s t o i ++ cutOff s.log t o i).Perm (owed N s t o i)
  fifo : ∀ i, abandoned i ∉ s.log → takenAt s.log i = handledAt s.log i ++ s.queue i
  direct : ∀ i, N.isDirect i.block = true → s.queue i = []
  running : stopped ∉ s.log → s.running = true
  drops : ∀ i, N.drops i = false → stopped ∉ s.log → droppedAt s.log i = []

/-- A step keeps the balance of what has arrived, is on its way or was cut off and what is owed. -/
theorem balance_step (h : Accounts N s) (hs : Stepped N s s') (t : ι) (o i : GateRef) :
    (account s' t o i ++ cutOff s'.log t o i).Perm (owed N s' t o i) := by
  have hperm := h.balance t o i
  rcases account_step hs t o i with ⟨hacc, howed, hcut⟩ | ⟨m, calls, -, hcut, hacc, howed⟩ | ⟨m, left, calls, -, howed, hcut, hacc, hold⟩
  · rw [hacc, howed, hcut]
    exact hperm
  · -- the new message comes before what was under way
    rw [account] at hperm
    rw [hacc, howed, hcut]
    refine List.Perm.trans ?_ (hperm.append_right _)
    simp only [List.append_assoc]
    refine List.Perm.append_left _ ?_
    rw [← List.append_assoc (pending (s.stack t) o i)]
    exact List.perm_append_comm
  · -- what was under way is cut off
    rw [hold] at hperm
    rw [hacc, howed, hcut]
    refine List.Perm.trans ?_ hperm
    simp only [List.append_assoc]
    refine List.Perm.append_left _ ?_
    rw [← List.append_assoc (pending calls o i)]
    exact List.perm_append_comm

/-- A step only adds to the history. -/
theorem Stepped.log_mem (hs : Stepped N s s') {e : DeliveryEvent ι T} (he : e ∈ s.log) : e ∈ s'.log := by
  cases hs with
  | called | returning | started => exact he
  | _ => exact List.mem_append_left _ he

/-- A step keeps the order of a queue that no thread has abandoned. -/
theorem fifo_step (h : Accounts N s) (hs : Stepped N s s') (i : GateRef) (hlog : abandoned i ∉ s'.log) :
    takenAt s'.log i = handledAt s'.log i ++ s'.queue i := by
  have hi := h.fifo i fun hmem => hlog (hs.log_mem hmem)
  cases hs with
  | called t b hidle => exact hi
  | dequeued t i' m ms hidle hqueue =>
    refine fifo_of_log hi rfl ?_
    rw [handledAt_handled, queue_emit, queue_goto, queue_setQueue]
    by_cases he : i' = i
    · subst he
      rw [if_pos rfl, if_pos rfl, hqueue]
      exact List.append_nil _
    · rw [if_neg he, if_neg (Ne.symm he)]
      exact List.append_nil _
  | sending t o m calls hstack => exact fifo_of_log hi rfl (List.append_nil _)
  | invoking t o i' m left calls hstack hdirect =>
    refine fifo_of_log hi rfl ?_
    show s.queue i ++ takenAt ([taken t o i' m] ++ [handled i' m]) i = handledAt ([taken t o i' m] ++ [handled i' m]) i ++ s.queue i
    rw [takenAt_append, handledAt_append, takenAt_taken, handledAt_handled]
    by_cases he : i' = i
    · subst he
      -- the message is handled at once, and the queue of the gate is empty
      rw [if_pos rfl]
      show s.queue i' ++ [m] = [m] ++ s.queue i'
      rw [h.direct i' hdirect]
      rfl
    · rw [if_neg he]
      exact List.append_nil _
  | queueing t o i' m left calls hstack hdirect =>
    refine fifo_of_log hi rfl ?_
    rw [takenAt_taken, queue_emit, queue_goto, queue_setQueue]
    by_cases he : i' = i
    · subst he
      rw [if_pos rfl, if_pos rfl]
      rfl
    · rw [if_neg he, if_neg (Ne.symm he)]
      exact List.append_nil _
  | dropping t o i' m left calls hstack hdrops => exact fifo_of_log hi rfl (List.append_nil _)
  | returning t f calls hstack hdone => exact hi
  | aborting t o m left above calls hstack habove => exact fifo_of_log hi rfl (List.append_nil _)
  | abandoning i' ms hdirect =>
    have he : i ≠ i' := by
      rintro rfl
      exact hlog (List.mem_append_right _ (List.mem_singleton_self _))
    refine fifo_of_log hi rfl ?_
    rw [queue_emit, queue_setQueue, if_neg he]
    exact List.append_nil _
  | started => exact hi
  | stopping => exact fifo_of_log hi rfl (List.append_nil _)

/-- The gates of direct blocks have no queue. -/
theorem direct_step (h : Accounts N s) (hs : Stepped N s s') {i : GateRef} (hdirect : N.isDirect i.block = true) : s'.queue i = [] := by
  have hi := h.direct i hdirect
  cases hs with
  | dequeued t i' m ms hidle hqueue =>
    by_cases he : i = i'
    · subst he
      rw [hi] at hqueue
      cases hqueue
    · simp [he, hi]
  | queueing t o i' m left calls hstack hindirect =>
    by_cases he : i = i'
    · subst he
      rw [hdirect] at hindirect
      cases hindirect
    · simp [he, hi]
  | abandoning i' ms hindirect =>
    have he : i ≠ i' := by
      rintro rfl
      rw [hdirect] at hindirect
      cases hindirect
    simp [he, hi]
  | _ => exact hi

/-- Only a full queue stops the process. -/
theorem running_step (h : Accounts N s) (hs : Stepped N s s') (hlog : stopped ∉ s'.log) : s'.running = true := by
  cases hs with
  | started => rfl
  | stopping => simp at hlog
  | _ => simpa using h.running (by simpa using hlog)

/-- Nothing is dropped at a gate that does not drop. -/
theorem drops_step (h : Accounts N s) (hs : Stepped N s s') {i : GateRef} (hdrops : N.drops i = false) (hlog : stopped ∉ s'.log) :
    droppedAt s'.log i = [] := by
  cases hs with
  | called t b hidle => exact h.drops i hdrops hlog
  | returning t f calls hstack hdone => exact h.drops i hdrops hlog
  | started => exact h.drops i hdrops hlog
  | stopping => simp at hlog
  | dropping t o i' m left calls hstack hdrops' =>
    have hlog' : stopped ∉ s.log := by simpa using hlog
    by_cases he : i' = i
    · subst he
      simp [hdrops, h.running hlog'] at hdrops'
    · simpa [droppedAt, he] using h.drops i hdrops hlog'
  | _ => simpa [droppedAt] using h.drops i hdrops (by simpa using hlog)

/-- A step keeps the accounts. -/
theorem accounts_step (h : Accounts N s) (hs : Stepped N s s') : Accounts N s' where
  balance := balance_step h hs
  fifo := fifo_step h hs
  direct := fun _ => direct_step h hs
  running := running_step h hs
  drops := fun _ => drops_step h hs

/-- There is nothing to account for at the start. -/
theorem accounts_new : Accounts N (new : Delivery ι T) where
  balance := fun _ _ _ => List.Perm.refl _
  fifo := fun _ _ => rfl
  direct := fun _ _ => rfl
  running := fun _ => rfl
  drops := fun _ _ _ => rfl

/-- Without an exception that leaves a delivery of a thread through a gate nothing is cut off. -/
theorem cutOff_eq_nil {log : List (DeliveryEvent ι T)} (h : ∀ m left, aborted t o m left ∉ log) (i : GateRef) : cutOff log t o i = [] := by
  refine List.flatMap_eq_nil_iff.mpr fun e he => ?_
  cases e with
  | aborted t' o' m left =>
    refine if_neg ?_
    rintro ⟨rfl, rfl⟩
    exact h m left he
  | _ => rfl

/-- Whatever the blocks send and however the threads take turns, no message is lost and none comes twice, but for those of a delivery
that an exception leaves: what a thread sent through an output gate is, once for each link to an input gate, what came there from it,
what it is still handing over and what the deliveries that were cut off had still to hand over, which is nothing as long as no exception
leaves one; as long as no read of its queue is given up, what came to a gate and found room is, in this order, what its block received
and what waits in the queue; and until the pools are stopped only a gate that may drop messages drops some. -/
theorem delivered_once (N : Network) (as : List (DeliveryAct ι T)) (s : Delivery ι T) (hrun : Lts.run (step N) new as = some s) :
    (∀ t o i, (arrived s.log t o i ++ pending (s.stack t) o i ++ cutOff s.log t o i).Perm
        ((sentBy s.log t o).flatMap fun m => List.replicate ((N.peers o).count i) m)) ∧
      (∀ t o i, (∀ m left, aborted t o m left ∉ s.log) → (arrived s.log t o i ++ pending (s.stack t) o i).Perm
        ((sentBy s.log t o).flatMap fun m => List.replicate ((N.peers o).count i) m)) ∧
      (∀ i, abandoned i ∉ s.log → takenAt s.log i = handledAt s.log i ++ s.queue i) ∧
      (∀ i, N.isDirect i.block = true → s.queue i = []) ∧ ∀ i, N.drops i = false → stopped ∉ s.log → droppedAt s.log i = [] := by
  have h : Accounts N s := Lts.run_inv (fun s a s' h hs => accounts_step h (step_cases hs)) accounts_new hrun
  refine ⟨h.balance, fun t o i hnone => ?_, h.fifo, h.direct, h.drops⟩
  have hperm := h.balance t o i
  rw [cutOff_eq_nil hnone, List.append_nil] at hperm
  exact hperm

/-- Block 0 has a link to block 1, which is invoked directly, and to block 2, to which block 1 has a link as well. -/
def chain : Network where
  peers := fun o => if o.block = 0 then [⟨1, 0⟩, ⟨2, 0⟩] else if o.block = 1 then [⟨2, 0⟩] else []
  isDirect := fun b => b = 1
  drops := fun _ => true

/-- Block 0 sends a message, and block 1 throws when it is called with it; block 0 catches this and sends another one, and block 1 sends one
too when it is called with that. -/
def chainRun : List (DeliveryAct Unit Nat) :=
  [.call () 0, .send () 0 7, .receive () true, .throw (), .send () 0 9, .receive () true, .send () 0 8, .receive () true, .ret (), .ret (),
    .receive () true, .ret (), .ret (), .dequeue () ⟨2, 0⟩]

/-- Two blocks in front of a third, of which one handler throws: the message cut off is the one that has not arrived. -/
theorem delivered_once_chain :
    ∃ s, Lts.run (step chain) new chainRun = some s ∧ (arrived s.log () ⟨0, 0⟩ ⟨2, 0⟩ ++ cutOff s.log () ⟨0, 0⟩ ⟨2, 0⟩).Perm [7, 9] ∧
      takenAt s.log ⟨2, 0⟩ = handledAt s.log ⟨2, 0⟩ ++ s.queue ⟨2, 0⟩ ∧ handledAt s.log ⟨2, 0⟩ = [8] ∧ s.queue ⟨2, 0⟩ = [9] := by
  obtain ⟨hbalance, -, hfifo, -⟩ := delivered_once chain chainRun _ rfl
  exact ⟨_, rfl, hbalance () ⟨0, 0⟩ ⟨2, 0⟩, hfifo ⟨2, 0⟩ (by decide), rfl, rfl⟩

/-! ## Order -/

variable {rank : Nat → Nat} {n : Nat} {calls : List (DeliveryFrame T)}

/-- Every link to a block that is invoked directly goes down, so no chain of direct calls leads back to a block. -/
def Descends (N : Network) (rank : Nat → Nat) : Prop := ∀ o i, i ∈ N.peers o → N.isDirect i.block = true → rank i.block < rank o.block

/-- The calls of a thread, the innermost first: a delivery is a call of the block that owns the gate, and calls a block below. -/
inductive Nested (N : Network) (rank : Nat → Nat) : List (DeliveryFrame T) → Prop where
  | idle : Nested N rank []
  | outermost (b : Nat) : Nested N rank [handler b]
  | delivery {o : GateRef} {m : T} {left : List GateRef} {calls : List (DeliveryFrame T)} (hcalls : Nested N rank (handler o.block :: calls))
    (hleft : ∀ i ∈ left, i ∈ N.peers o) : Nested N rank (deliver o m left :: handler o.block :: calls)
  | direct {b : Nat} {o : GateRef} {m : T} {left : List GateRef} {calls : List (DeliveryFrame T)}
    (hcalls : Nested N rank (deliver o m left :: calls)) (hrank : rank b < rank o.block) : Nested N rank (handler b :: deliver o m left :: calls)

/-- The gates that a thread is delivering through. -/
def gates (calls : List (DeliveryFrame T)) : List GateRef := calls.filterMap fun | deliver o _ _ => some o | handler _ => none

/-- The rank of the innermost call. -/
def low (rank : Nat → Nat) : List (DeliveryFrame T) → Nat
  | [] => 0
  | handler b :: _ => rank b
  | deliver o _ _ :: _ => rank o.block

/-- The blocks of the outer deliveries are above the innermost call. -/
theorem Nested.low_lt (h : Nested N rank calls) : ∀ o ∈ gates calls.tail, low rank calls < rank o.block := by
  induction h with
  | idle =>
    intro o ho
    simp [gates] at ho
  | outermost b =>
    intro o ho
    simp [gates] at ho
  | delivery hcalls hleft ih => exact ih
  | @direct b o m left calls hcalls hrank ih =>
    intro o' ho'
    have hmem : o' = o ∨ o' ∈ gates calls := by simpa [gates] using ho'
    rcases hmem with rfl | ho'
    · exact hrank
    · exact Nat.lt_trans hrank (ih o' ho')

/-- A thread is in no more calls than there are ranks, a handler and a delivery for each. -/
theorem Nested.length_le (h : Nested N rank calls) (hn : ∀ b, rank b < n) : calls.length ≤ 2 * n := by
  -- a handler at the top leaves room for a delivery of its block
  have hroom : calls.length + 2 * low rank calls ≤ 2 * n ∧
      ∀ b cs, calls = handler b :: cs → calls.length + 2 * rank b + 1 ≤ 2 * n := by
    induction h with
    | idle => simp [low]
    | outermost b =>
      have hb := hn b
      refine ⟨by simp only [low, List.length_singleton]; omega, ?_⟩
      rintro b' cs heq
      obtain ⟨rfl, rfl⟩ : b = b' ∧ [] = cs := by simpa using heq
      simp only [List.length_singleton]
      omega
    | @delivery o m left calls hcalls hleft ih =>
      have hlen := ih.2 o.block calls rfl
      refine ⟨?_, ?_⟩
      · simp only [low, List.length_cons] at hlen ⊢
        omega
      · rintro b' cs heq
        simp at heq
    | @direct b o m left calls hcalls hrank ih =>
      have hlen := ih.1
      simp only [low, List.length_cons] at hlen
      refine ⟨by simp only [low, List.length_cons]; omega, ?_⟩
      rintro b' cs heq
      obtain ⟨rfl, -⟩ : b = b' ∧ deliver o m left :: calls = cs := by simpa using heq
      simp only [List.length_cons]
      omega
  omega

/-- A delivery goes on to the next peer. -/
theorem Nested.next {o i : GateRef} {left : List GateRef} (h : Nested N rank (deliver o m (i :: left) :: calls)) :
    i ∈ N.peers o ∧ Nested N rank (deliver o m left :: calls) := by
  cases h with
  | delivery hcalls hleft =>
    exact ⟨hleft i (List.mem_cons_self ..), .delivery hcalls fun j hj => hleft j (List.mem_cons_of_mem _ hj)⟩

/-- The innermost call ends. -/
theorem Nested.tail {f : DeliveryFrame T} (h : Nested N rank (f :: calls)) : Nested N rank calls := by
  cases h with
  | outermost b => exact .idle
  | delivery hcalls hleft => exact hcalls
  | direct hcalls hrank => exact hcalls

/-- A step keeps the calls of every thread nested by rank. -/
theorem nested_step (hrank : Descends N rank) (h : ∀ t, Nested N rank (s.stack t)) (hs : Stepped N s s') (t : ι) :
    Nested N rank (s'.stack t) := by
  -- the thread that moves, and the others
  have hother : ∀ {t' : ι} {calls : List (DeliveryFrame T)}, Nested N rank calls → Nested N rank (if t = t' then calls else s.stack t) := by
    intro t' calls hcalls
    split
    · exact hcalls
    · exact h t
  cases hs with
  | called t' b hidle =>
    rw [stack_goto]
    exact hother (.outermost b)
  | dequeued t' i m ms hidle hqueue =>
    rw [stack_emit, stack_goto]
    exact hother (.outermost i.block)
  | sending t' o m calls hstack =>
    rw [stack_emit, stack_goto]
    exact hother (.delivery (hstack ▸ h t') fun _ => id)
  | invoking t' o i m left calls hstack hdirect =>
    rw [stack_emit, stack_goto]
    obtain ⟨hi, hnext⟩ := (hstack ▸ h t' : Nested N rank _).next
    exact hother (.direct hnext (hrank o i hi hdirect))
  | queueing t' o i m left calls hstack hdirect =>
    rw [stack_emit, stack_goto]
    exact hother (hstack ▸ h t' : Nested N rank _).next.2
  | dropping t' o i m left calls hstack hdrops =>
    rw [stack_emit, stack_goto]
    exact hother (hstack ▸ h t' : Nested N rank _).next.2
  | returning t' f calls hstack hdone =>
    rw [stack_goto]
    exact hother (hstack ▸ h t' : Nested N rank _).tail
  | aborting t' o m left above calls hstack habove =>
    rw [stack_emit, stack_goto]
    have hcalls := h t'
    rw [hstack] at hcalls
    rcases habove with rfl | ⟨b, rfl⟩
    · exact hother hcalls.tail
    · exact hother hcalls.tail.tail
  | abandoning i ms hdirect => exact h t
  | started => exact h t
  | stopping => exact h t

/-- Nothing is under way through a gate that no delivery goes through. -/
theorem pending_eq_nil (h : ∀ o' ∈ gates calls, o' ≠ o) : pending calls o i = [] := by
  induction calls with
  | nil => rfl
  | cons f calls ih =>
    cases f with
    | handler b => exact ih h
    | deliver o' m left =>
      rw [pending_cons_deliver, if_neg (h o' (by simp [gates])), List.nil_append]
      refine ih ?_
      intro o'' ho''
      exact h o'' (by simpa [gates] using Or.inr ho'')

/-- What came over a link, and then what is under way, is what was sent, in order, without what an exception cut off. -/
structure InOrder (N : Network) (rank : Nat → Nat) (s : Delivery ι T) : Prop where
  nested : ∀ t, Nested N rank (s.stack t)
  sublist : ∀ t o i, (account s t o i).Sublist (owed N s t o i)
  account : ∀ t o i, (∀ m left, aborted t o m left ∉ s.log) → account s t o i = owed N s t o i

/-- A block that sends is not inside a delivery of its own, so nothing is under way through its gates. -/
theorem InOrder.pending_eq_nil (h : InOrder N rank s) (hstack : s.stack t = handler o.block :: calls) (i : GateRef) :
    pending (s.stack t) o i = [] := by
  refine Delivery.pending_eq_nil fun o' ho' heq => ?_
  have hlow := (h.nested t).low_lt
  rw [hstack] at hlow ho'
  subst heq
  exact Nat.lt_irrefl _ (hlow o' ho')

/-- A step keeps the order of what comes from one gate to another. -/
theorem inOrder_step (hrank : Descends N rank) (h : InOrder N rank s) (hs : Stepped N s s') : InOrder N rank s' where
  nested := nested_step hrank h.nested hs
  sublist := by
    intro t o i
    have hsub := h.sublist t o i
    rcases account_step hs t o i with ⟨hacc, howed, -⟩ | ⟨m, calls, hstack, -, hacc, howed⟩ | ⟨m, left, calls, -, howed, -, hacc, hold⟩
    · rw [hacc, howed]
      exact hsub
    · have hnil := h.pending_eq_nil hstack i
      rw [Delivery.account, hnil, List.append_nil] at hsub
      rw [hacc, howed, hnil, List.append_nil]
      exact hsub.append_right _
    · rw [hold] at hsub
      rw [hacc, howed]
      exact ((List.sublist_append_right _ _).append_left _).trans hsub
  account := by
    intro t o i hnone
    have hacc' := h.account t o i fun m left hmem => hnone m left (hs.log_mem hmem)
    rcases account_step hs t o i with ⟨hacc, howed, -⟩ | ⟨m, calls, hstack, -, hacc, howed⟩ | ⟨m, left, calls, habort, -⟩
    · rw [hacc, howed]
      exact hacc'
    · have hnil := h.pending_eq_nil hstack i
      rw [Delivery.account, hnil, List.append_nil] at hacc'
      rw [hacc, howed, hnil, List.append_nil, hacc']
    · exact absurd habort (hnone m left)

/-- When no chain of direct calls leads back to a block, the links are FIFO: what came from a thread through an output gate to an input
gate, and then what the thread is still handing over, is a subsequence of what it sent, in the order in which it sent it, and all of it as
long as no exception leaves a delivery of the thread through that gate. And the calls of a thread are never nested deeper than twice the
number of ranks. -/
theorem delivered_in_order (N : Network) (rank : Nat → Nat) (hrank : Descends N rank) (as : List (DeliveryAct ι T)) (s : Delivery ι T)
    (hrun : Lts.run (step N) new as = some s) :
    (∀ t o i, (arrived s.log t o i ++ pending (s.stack t) o i).Sublist
        ((sentBy s.log t o).flatMap fun m => List.replicate ((N.peers o).count i) m)) ∧
      (∀ t o i, (∀ m left, aborted t o m left ∉ s.log) → arrived s.log t o i ++ pending (s.stack t) o i =
        (sentBy s.log t o).flatMap fun m => List.replicate ((N.peers o).count i) m) ∧
      ∀ n t, (∀ b, rank b < n) → (s.stack t).length ≤ 2 * n := by
  have hnew : InOrder N rank (new : Delivery ι T) := ⟨fun _ => .idle, fun _ _ _ => List.Sublist.refl _, fun _ _ _ _ => rfl⟩
  have h : InOrder N rank s := Lts.run_inv (fun s a s' h hs => inOrder_step hrank h (step_cases hs)) hnew hrun
  exact ⟨h.sublist, h.account, fun n t hn => (h.nested t).length_le hn⟩

/-- The order in the run of the chain. -/
theorem delivered_in_order_chain :
    ∃ s, Lts.run (step chain) new chainRun = some s ∧
      (arrived s.log () ⟨0, 0⟩ ⟨2, 0⟩ ++ pending (s.stack ()) ⟨0, 0⟩ ⟨2, 0⟩).Sublist [7, 9] ∧
      arrived s.log () ⟨1, 0⟩ ⟨2, 0⟩ ++ pending (s.stack ()) ⟨1, 0⟩ ⟨2, 0⟩ = [8] := by
  have hrank : Descends chain fun b => 2 - b := by
    intro o i hi hdirect
    have hb : i.block = 1 := by simpa [chain] using hdirect
    simp only [chain] at hi
    split at hi
    · next h0 =>
      show 2 - i.block < 2 - o.block
      omega
    · split at hi
      · simp only [List.mem_singleton] at hi
        subst hi
        cases hb
      · cases hi
  have hlog : (Lts.run (step chain) new chainRun).map Delivery.log =
      some [sent () ⟨0, 0⟩ 7, taken () ⟨0, 0⟩ ⟨1, 0⟩ 7, handled ⟨1, 0⟩ 7, aborted () ⟨0, 0⟩ 7 [⟨2, 0⟩], sent () ⟨0, 0⟩ 9,
        taken () ⟨0, 0⟩ ⟨1, 0⟩ 9, handled ⟨1, 0⟩ 9, sent () ⟨1, 0⟩ 8, taken () ⟨1, 0⟩ ⟨2, 0⟩ 8, taken () ⟨0, 0⟩ ⟨2, 0⟩ 9,
        handled ⟨2, 0⟩ 8] := by decide
  obtain ⟨s, hs, hlog⟩ := Option.map_eq_some_iff.mp hlog
  obtain ⟨hsublist, hall, -⟩ := delivered_in_order chain _ hrank chainRun s hs
  have hsent : sentBy s.log () ⟨1, 0⟩ = [8] ∧ sentBy s.log () ⟨0, 0⟩ = [7, 9] := by rw [hlog]; decide
  have h₀ := hsublist () ⟨0, 0⟩ ⟨2, 0⟩
  have h₁ := hall () ⟨1, 0⟩ ⟨2, 0⟩ (by simp [hlog])
  rw [hsent.2] at h₀
  rw [hsent.1] at h₁
  exact ⟨s, hs, h₀, h₁⟩

end Delivery

end Blockmon
