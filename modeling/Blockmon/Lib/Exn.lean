import Mathlib.Data.List.Basic
import Mathlib.Order.Defs.Unbundled
import Mathlib.Algebra.Order.Ring.Int

/-!
# Calls that throw

A call is a command of `EStateM`: it returns or it throws, and it leaves a state in both cases, so that what was done before the
exception stays done. A caller that catches every exception makes one call after the other; `runCalls_inv` is the invariant rule
for such sequences. `forM_throws_iff` says what a loop of calls leaves that catches nothing: everything done before the call that
throws; `forM_ok_inv` is the invariant rule for a loop that returns. `onPart` is a call on a part of the state. The rules for `Keeps`
show, command by command, that what a call leaves is related to what it found; those for `Yields`, that under an invariant of the state
a call has one outcome and keeps the invariant; those for `Takes`, that it has one outcome and takes one invariant to another.
-/

namespace Exn

variable {ε σ α κ : Type}

/-- The state a call leaves, whether it returns or throws. -/
def leaves : EStateM.Result ε σ α → σ
  | .ok _ s => s
  | .error _ s => s

/-- Whether a call returns. -/
def returns : EStateM.Result ε σ α → Bool
  | .ok _ _ => true
  | .error _ _ => false

/-- A call without a value that returns. -/
theorem eq_ok_of_returns {r : EStateM.Result ε σ Unit} (h : returns r = true) : r = .ok () (leaves r) := by
  cases r with
  | ok u s => rfl
  | error e s => cases h

/-- The state after the calls `cs`, with every exception caught. -/
def runCalls (exec : κ → EStateM ε σ α) (s : σ) (cs : List κ) : σ := cs.foldl (fun s c => leaves ((exec c).run s)) s

/-- A property of the first state that every call keeps holds after any sequence of calls. -/
theorem runCalls_inv {exec : κ → EStateM ε σ α} {I : σ → Prop} (h : ∀ s c, I s → I (leaves ((exec c).run s)))
    {s : σ} (hs : I s) (cs : List κ) : I (runCalls exec s cs) := by
  induction cs generalizing s with
  | nil => exact hs
  | cons c cs ih => exact ih (h s c hs)

/-- The value of an outcome, or its exception. -/
theorem run_ofExcept (x : Except ε α) (s : σ) :
    (ofExcept x : EStateM ε σ α).run s =
      match x with
      | .ok a => .ok a s
      | .error e => .error e s := by
  cases x <;> rfl

/-! ## Loops that end at the first exception -/

/-- A loop throws exactly when some call throws after the calls before it have returned; the loop leaves what that call leaves. -/
theorem forM_throws_iff {f : κ → EStateM ε σ PUnit} {ks : List κ} {s s' : σ} {e : ε} :
    (forM ks f).run s = .error e s' ↔
      ∃ before k after m, ks = before ++ k :: after ∧ (forM before f).run s = .ok ⟨⟩ m ∧ (f k).run m = .error e s' := by
  induction ks generalizing s with
  | nil =>
    constructor
    · intro h
      cases h
    · rintro ⟨before, k, after, m, hks, -⟩
      simp at hks
  | cons k ks ih =>
    rw [List.forM_cons, EStateM.run_bind]
    constructor
    · intro h
      cases hk : (f k).run s with
      | error e' m =>
        rw [hk] at h
        cases h
        exact ⟨[], k, ks, s, rfl, rfl, hk⟩
      | ok u m =>
        rw [hk] at h
        obtain ⟨before, k', after, m', rfl, hbefore, he⟩ := ih.mp h
        refine ⟨k :: before, k', after, m', rfl, ?_, he⟩
        rw [List.forM_cons, EStateM.run_bind, hk]
        exact hbefore
    · rintro ⟨before, k', after, m, hks, hbefore, he⟩
      cases before with
      | nil =>
        obtain ⟨rfl, rfl⟩ := List.cons.inj hks
        cases hbefore
        rw [he]
      | cons k₀ before =>
        obtain ⟨rfl, rfl⟩ := List.cons.inj hks
        rw [List.forM_cons, EStateM.run_bind] at hbefore
        cases hk : (f k).run s with
        | error e' m' =>
          rw [hk] at hbefore
          cases hbefore
        | ok u m' =>
          rw [hk] at hbefore
          exact ih.mpr ⟨before, k', after, m, rfl, hbefore, he⟩

/-- The second call runs where the first one has returned. -/
theorem run_bind_of_ok {x : EStateM ε σ α} {β : Type} {f : α → EStateM ε σ β} {s s' : σ} {a : α} (h : x.run s = .ok a s') :
    (x >>= f).run s = (f a).run s' := by
  rw [EStateM.run_bind, h]

/-- An exception of the first call leaves the second one out. -/
theorem run_bind_of_error {x : EStateM ε σ α} {β : Type} {f : α → EStateM ε σ β} {s s' : σ} {e : ε} (h : x.run s = .error e s') :
    (x >>= f).run s = .error e s' := by
  rw [EStateM.run_bind, h]

/-- A sequence of two calls returns when the first returns and the second returns on what the first leaves. -/
theorem bind_eq_ok {x : EStateM ε σ α} {β : Type} {f : α → EStateM ε σ β} {s s' : σ} {b : β} :
    (x >>= f).run s = .ok b s' ↔ ∃ a m, x.run s = .ok a m ∧ (f a).run m = .ok b s' := by
  rw [EStateM.run_bind]
  cases hx : x.run s with
  | ok a m => simp
  | error e m => simp

/-- The same for calls without a state. -/
theorem except_bind_eq_ok {x : Except ε α} {β : Type} {f : α → Except ε β} {b : β} :
    (x >>= f) = .ok b ↔ ∃ a, x = .ok a ∧ f a = .ok b := by
  cases x with
  | error e => exact ⟨nofun, fun ⟨a, ha, _⟩ => nomatch ha⟩
  | ok a => exact ⟨fun h => ⟨a, rfl, h⟩, fun ⟨a', ha, h⟩ => by rw [Except.ok.inj ha]; exact h⟩

/-- The same for calls without a state. -/
theorem except_bind_of_ok {x : Except ε α} {β : Type} {f : α → Except ε β} {a : α} (h : x = .ok a) : (x >>= f) = f a := by
  rw [h]
  rfl

/-- What a sequence of two calls leaves: what the second leaves if the first returns, else what the first leaves. -/
theorem leaves_bind {x : EStateM ε σ α} {β : Type} {f : α → EStateM ε σ β} {s : σ} {P : σ → Prop}
    (hok : ∀ a m, x.run s = .ok a m → P (leaves ((f a).run m))) (herror : ∀ e m, x.run s = .error e m → P m) :
    P (leaves ((x >>= f).run s)) := by
  rw [EStateM.run_bind]
  cases hx : x.run s with
  | ok a m => exact hok a m hx
  | error e m => exact herror e m hx

/-- A check that throws, and the rest of the call. -/
theorem check_eq_ok {c : Prop} [Decidable c] {e : ε} {x : EStateM ε σ α} {s s' : σ} {a : α} :
    (if c then do (throw e : EStateM ε σ PUnit); x else x).run s = .ok a s' ↔ ¬c ∧ x.run s = .ok a s' := by
  by_cases hc : c
  · rw [if_pos hc]
    constructor
    · intro h
      cases h
    · exact fun h => absurd hc h.1
  · rw [if_neg hc]
    exact ⟨fun h => ⟨hc, h⟩, fun h => h.2⟩

/-- The invariant rule for a loop that returns: the invariant speaks of the elements the loop has been through. -/
theorem forM_ok_inv {f : κ → EStateM ε σ PUnit} {I : List κ → σ → Prop}
    (hstep : ∀ done k s s', I done s → (f k).run s = .ok ⟨⟩ s' → I (done ++ [k]) s') {ks : List κ} {s s' : σ} (hs : I [] s)
    (hrun : (forM ks f).run s = .ok ⟨⟩ s') : I ks s' := by
  have hgen : ∀ (rest done : List κ) (m : σ), I done m → (forM rest f).run m = .ok ⟨⟩ s' → I (done ++ rest) s' := by
    intro rest
    induction rest with
    | nil =>
      intro done m hm hrest
      cases hrest
      rw [List.append_nil]
      exact hm
    | cons k rest ih =>
      intro done m hm hrest
      rw [List.forM_cons] at hrest
      obtain ⟨u, m', hk, hrest⟩ := bind_eq_ok.mp hrest
      have := ih (done ++ [k]) m' (hstep done k m m' hm hk) hrest
      rwa [List.append_assoc, List.singleton_append] at this
  exact hgen ks [] s hs hrun

/-! ## Calls on a part of the state -/

/-- A call on the part of the state that `part` reads and `put` writes. -/
def onPart {ρ : Type} (part : σ → ρ) (put : σ → ρ → σ) (call : EStateM ε ρ α) : EStateM ε σ α := fun s =>
  match call.run (part s) with
  | .ok a r => .ok a (put s r)
  | .error e r => .error e (put s r)

/-- A call on a part of the state, as a run. -/
theorem run_onPart {ρ : Type} (part : σ → ρ) (put : σ → ρ → σ) (call : EStateM ε ρ α) (s : σ) :
    (onPart part put call).run s =
      match call.run (part s) with
      | .ok a r => .ok a (put s r)
      | .error e r => .error e (put s r) := rfl

/-- What a call on a part of the state leaves. -/
theorem leaves_onPart {ρ : Type} (part : σ → ρ) (put : σ → ρ → σ) (call : EStateM ε ρ α) (s : σ) :
    leaves ((onPart part put call).run s) = put s (leaves (call.run (part s))) := by
  rw [run_onPart]
  cases call.run (part s) <;> rfl

/-- A call on a part of a part. -/
theorem onPart_onPart {ρ τ : Type} (part : σ → ρ) (put : σ → ρ → σ) (part' : ρ → τ) (put' : ρ → τ → ρ) (call : EStateM ε τ α) :
    onPart part put (onPart part' put' call) = onPart (fun s => part' (part s)) (fun s t => put s (put' (part s) t)) call := by
  funext s
  simp only [onPart, EStateM.run]
  cases call (part' (part s)) <;> rfl

section Loop

variable {ρ : Type} {part : σ → ρ} {put : σ → ρ → σ} (hget : ∀ s r, part (put s r) = r)
  (hput : ∀ s r r', put (put s r) r' = put s r') (hself : ∀ s, put s (part s) = s)

include hget hput hself

/-- A loop of calls on a part is a call on the part. -/
theorem forM_onPart (f : κ → EStateM ε ρ PUnit) (ks : List κ) (s : σ) :
    (forM ks fun k => onPart part put (f k)).run s = (onPart part put (forM ks f)).run s := by
  induction ks generalizing s with
  | nil =>
    have hnil : (onPart part put (forM [] f : EStateM ε ρ PUnit)).run s = .ok ⟨⟩ (put s (part s)) := rfl
    rw [hnil, hself]
    rfl
  | cons k ks ih =>
    rw [List.forM_cons, List.forM_cons, EStateM.run_bind, run_onPart, run_onPart, EStateM.run_bind]
    cases (f k).run (part s) with
    | error e r => rfl
    | ok u r =>
      dsimp only
      rw [ih, run_onPart, hget]
      simp only [hput]

end Loop

/-! ## Relations across a call -/

/-- The state that the call leaves, whether it returns or throws, is related to the one it finds. -/
def Keeps (R : σ → σ → Prop) (call : EStateM ε σ α) : Prop := ∀ s, R s (leaves (call.run s))

variable {R : σ → σ → Prop} {β : Type}

/-- What a call keeps holds when it returns. -/
theorem Keeps.of_ok {call : EStateM ε σ α} (h : Keeps R call) {s s' : σ} {a : α} (hrun : call.run s = .ok a s') : R s s' := by
  have hs := h s
  rw [hrun] at hs
  exact hs

/-- What a call keeps holds when it throws. -/
theorem Keeps.of_error {call : EStateM ε σ α} (h : Keeps R call) {s s' : σ} {e : ε} (hrun : call.run s = .error e s') : R s s' := by
  have hs := h s
  rw [hrun] at hs
  exact hs

section Reflexive

variable [Std.Refl R]

/-- A value keeps every reflexive relation. -/
theorem keeps_pure (a : α) : Keeps R (pure a : EStateM ε σ α) := fun s => refl_of R s

/-- So does an exception. -/
theorem keeps_throw (e : ε) : Keeps R (throw e : EStateM ε σ α) := fun s => refl_of R s

/-- So does reading the state. -/
theorem keeps_get : Keeps R (get : EStateM ε σ σ) := fun s => refl_of R s

/-- So does a result. -/
theorem keeps_ofExcept (x : Except ε α) : Keeps R (ofExcept x : EStateM ε σ α) := by
  cases x with
  | ok a => exact keeps_pure a
  | error e => exact keeps_throw e

/-- A call after a result has to keep the relation for its value only. -/
theorem keeps_ofExcept_bind {β : Type} {x : Except ε α} {f : α → EStateM ε σ β} (hf : ∀ a, x = .ok a → Keeps R (f a)) :
    Keeps R (ofExcept x >>= f) := by
  cases x with
  | error e => exact fun s => refl_of R s
  | ok a => exact hf a rfl

/-- What the first of two calls leaves, against what both leave. -/
theorem keeps_after {x : EStateM ε σ α} {f : α → EStateM ε σ β} (hf : ∀ a, Keeps R (f a)) (s : σ) :
    R (leaves (x.run s)) (leaves ((x >>= f).run s)) := by
  rw [EStateM.run_bind]
  cases x.run s with
  | ok a m => exact hf a m
  | error e m => exact refl_of R m

end Reflexive

/-- A change keeps what holds of it. -/
theorem keeps_modify {f : σ → σ} (h : ∀ s, R s (f s)) : Keeps R (modify f : EStateM ε σ PUnit) := h

/-- Two branches keep what each keeps. -/
theorem keeps_ite {c : Prop} [Decidable c] {x y : EStateM ε σ α} (hx : Keeps R x) (hy : Keeps R y) :
    Keeps R (if c then x else y) := by
  split
  · exact hx
  · exact hy

/-- A call on a part keeps what holds with the part in its place. -/
theorem keeps_onPart {ρ : Type} {Q : ρ → ρ → Prop} {part : σ → ρ} {put : σ → ρ → σ} {call : EStateM ε ρ α} (h : Keeps Q call)
    (hput : ∀ s r, Q (part s) r → R s (put s r)) : Keeps R (onPart part put call) := by
  intro s
  rw [leaves_onPart]
  exact hput s _ (h (part s))

section Transitive

variable [IsTrans σ R]

/-- Two calls keep a transitive relation. -/
theorem keeps_bind {x : EStateM ε σ α} {f : α → EStateM ε σ β} (hx : Keeps R x) (hf : ∀ a, Keeps R (f a)) :
    Keeps R (x >>= f) := by
  intro s
  have hs := hx s
  rw [EStateM.run_bind]
  cases hrun : x.run s with
  | ok a m =>
    rw [hrun] at hs
    exact IsTrans.trans _ _ _ hs (hf a m)
  | error e m =>
    rw [hrun] at hs
    exact hs

/-- A check that throws, and the rest of the call. -/
theorem keeps_check [Std.Refl R] {c : Prop} [Decidable c] {e : ε} {x : EStateM ε σ β} (hx : Keeps R x) :
    Keeps R (if c then do (throw e : EStateM ε σ PUnit); x else x) :=
  keeps_ite (keeps_bind (keeps_throw e) fun _ => hx) hx

/-- A loop keeps what its body keeps. -/
theorem keeps_forM [Std.Refl R] {f : κ → EStateM ε σ PUnit} (hf : ∀ k, Keeps R (f k)) (ks : List κ) : Keeps R (forM ks f) := by
  induction ks with
  | nil => exact keeps_pure PUnit.unit
  | cons k ks ih =>
    rw [List.forM_cons]
    exact keeps_bind (hf k) fun _ => ih

end Transitive

/-! ## Calls with one outcome -/

/-- A value or an exception, and the state that is left. -/
def outcome : Except ε α → σ → EStateM.Result ε σ α
  | .ok a, s => .ok a s
  | .error e, s => .error e s

@[simp] theorem leaves_outcome (r : Except ε α) (s : σ) : leaves (outcome r s) = s := by cases r <;> rfl

/-- A call that computes its outcome from the state. -/
theorem run_get_ofExcept (f : σ → Except ε α) (s : σ) :
    (get >>= fun s => ofExcept (f s) : EStateM ε σ α).run s = outcome (f s) s := by
  change (ofExcept (f s) : EStateM ε σ α).run s = outcome (f s) s
  rw [run_ofExcept]
  cases f s <;> rfl

/-- In every state with `I` the call has the outcome `r`, and it leaves a state with `J`. -/
def Takes (I J : σ → Prop) (call : EStateM ε σ α) (r : Except ε α) : Prop := ∀ s, I s → ∃ s', J s' ∧ call.run s = outcome r s'

section Takes

variable {I J L : σ → Prop} {x : EStateM ε σ α}

/-- A value is taken. -/
theorem takes_pure (a : α) : Takes I I (pure a : EStateM ε σ α) (.ok a) := fun s hs => ⟨s, hs, rfl⟩

/-- An exception is taken. -/
theorem takes_throw (e : ε) : Takes I I (throw e : EStateM ε σ α) (.error e) := fun s hs => ⟨s, hs, rfl⟩

/-- A change leads from one invariant to the other. -/
theorem takes_modify {f : σ → σ} (h : ∀ s, I s → J (f s)) : Takes I J (modify f : EStateM ε σ PUnit) (.ok ⟨⟩) :=
  fun s hs => ⟨f s, h s hs, rfl⟩

/-- Two calls lead from the first invariant to the last. -/
theorem Takes.bind {f : α → EStateM ε σ β} {a : α} {r : Except ε β} (hx : Takes I J x (.ok a)) (hf : Takes J L (f a) r) :
    Takes I L (x >>= f) r := by
  intro s hs
  obtain ⟨m, hm, hrun⟩ := hx s hs
  obtain ⟨s', hs', hrun'⟩ := hf m hm
  refine ⟨s', hs', ?_⟩
  rw [EStateM.run_bind, hrun]
  exact hrun'

/-- An exception leads to the invariant where it was thrown. -/
theorem Takes.bind_error {f : α → EStateM ε σ β} {e : ε} (hx : Takes I J x (.error e)) : Takes I J (x >>= f) (.error e) := by
  intro s hs
  obtain ⟨s', hs', hrun⟩ := hx s hs
  refine ⟨s', hs', ?_⟩
  rw [EStateM.run_bind, hrun]
  rfl

/-- What is left satisfies the second invariant. -/
theorem Takes.leaves {r : Except ε α} (hx : Takes I J x r) {s : σ} (hs : I s) : J (leaves (x.run s)) := by
  obtain ⟨s', hs', hrun⟩ := hx s hs
  rw [hrun, leaves_outcome]
  exact hs'

end Takes

/-! ### With an invariant -/

/-- In every state with the invariant the call has the outcome `r`, and it leaves a state with the invariant. -/
def Yields (I : σ → Prop) (call : EStateM ε σ α) (r : Except ε α) : Prop := ∀ s, I s → ∃ s', I s' ∧ call.run s = outcome r s'

section Yields

variable {I : σ → Prop} {x : EStateM ε σ α}

/-- A value is yielded. -/
theorem yields_pure (a : α) : Yields I (pure a : EStateM ε σ α) (.ok a) := fun s hs => ⟨s, hs, rfl⟩

/-- An exception is yielded. -/
theorem yields_throw (e : ε) : Yields I (throw e : EStateM ε σ α) (.error e) := fun s hs => ⟨s, hs, rfl⟩

/-- A change that keeps the invariant. -/
theorem yields_modify {f : σ → σ} (h : ∀ s, I s → I (f s)) : Yields I (modify f : EStateM ε σ PUnit) (.ok ⟨⟩) :=
  fun s hs => ⟨f s, h s hs, rfl⟩

/-- A call on the state that is read. -/
theorem yields_get_bind {f : σ → EStateM ε σ α} {r : Except ε α} (h : ∀ s, I s → ∃ s', I s' ∧ (f s).run s = outcome r s') :
    Yields I (get >>= f) r := h

/-- A call after another one, at its value. -/
theorem Yields.bind {f : α → EStateM ε σ β} {a : α} {r : Except ε β} (hx : Yields I x (.ok a)) (hf : Yields I (f a) r) :
    Yields I (x >>= f) r := Takes.bind (I := I) (J := I) (L := I) hx hf

/-- An exception of the first call is the one of both. -/
theorem Yields.bind_error {f : α → EStateM ε σ β} {e : ε} (hx : Yields I x (.error e)) : Yields I (x >>= f) (.error e) :=
  Takes.bind_error (I := I) (J := I) hx

/-- A function of the value. -/
theorem Yields.bind_pure {a : α} (hx : Yields I x (.ok a)) (g : α → β) : Yields I (x >>= fun a => pure (g a)) (.ok (g a)) :=
  hx.bind (yields_pure (g a))

/-- A function of the result. -/
theorem Yields.map {r : Except ε α} (hx : Yields I x r) (g : α → β) : Yields I (x >>= fun a => pure (g a)) (r.map g) := by
  cases r with
  | ok a => exact hx.bind_pure g
  | error e => exact hx.bind_error

/-- Two functions of the result. -/
theorem Yields.map_map {γ : Type} {r : Except ε α} (hx : Yields I x r) (g : α → β) (g' : β → γ) :
    Yields I ((x >>= fun a => pure (g a)) >>= fun b => pure (g' b)) (r.map fun a => g' (g a)) := by
  have h := (hx.map g).map g'
  cases r with
  | ok a => exact h
  | error e => exact h

/-- A call whose value is a function of the one before. -/
theorem Yields.bind_map {f : α → EStateM ε σ β} {r : Except ε α} {g : α → β} (hx : Yields I x r) (hf : ∀ a, Yields I (f a) (.ok (g a))) :
    Yields I (x >>= f) (r.map g) := by
  cases r with
  | ok a => exact hx.bind (hf a)
  | error e => exact hx.bind_error

/-- A sequence of two calls yields what a sequence of their outcomes is. -/
theorem Yields.seq {f : α → EStateM ε σ β} {r : Except ε α} {g : α → Except ε β} (hx : Yields I x r)
    (hf : ∀ a, r = .ok a → Yields I (f a) (g a)) : Yields I (x >>= f) (r >>= g) := by
  cases r with
  | ok a => exact hx.bind (hf a rfl)
  | error e => exact hx.bind_error

/-- An outcome is the only one. -/
theorem Yields.run_eq_ok_iff {r : Except ε α} (hx : Yields I x r) {s : σ} (hs : I s) (a : α) : (∃ s', x.run s = .ok a s') ↔ r = .ok a := by
  obtain ⟨s', -, hrun⟩ := hx s hs
  rw [hrun]
  cases r with
  | ok b =>
    constructor
    · rintro ⟨m, hm⟩
      exact congrArg Except.ok (EStateM.Result.ok.inj hm).1
    · intro hb
      exact ⟨s', by rw [Except.ok.inj hb]; rfl⟩
  | error e =>
    constructor
    · rintro ⟨m, hm⟩
      cases hm
    · intro hb
      cases hb

/-- What is left satisfies the invariant. -/
theorem Yields.leaves {r : Except ε α} (hx : Yields I x r) {s : σ} (hs : I s) : I (leaves (x.run s)) := Takes.leaves (I := I) (J := I) hx hs

/-- A call with one outcome on a part of the state, which is all that it changes. -/
theorem Yields.onPart {ρ : Type} {P : ρ → Prop} {part : σ → ρ} {put : σ → ρ → σ} {call : EStateM ε ρ α} {r : Except ε α}
    (hcall : Yields P call r) (hpart : ∀ s, I s → P (part s)) (hput : ∀ s r, I s → P r → I (put s r)) :
    Takes I I (onPart part put call) r := by
  intro s hs
  obtain ⟨m, hm, hrun⟩ := hcall (part s) (hpart s hs)
  refine ⟨put s m, hput s m hs hm, ?_⟩
  rw [run_onPart, hrun]
  cases r <;> rfl

end Yields

end Exn
