import Blockmon.Lemmas.Dissect
import Blockmon.SlicedPacket

/-!
# Cutting a packet into slices, step by step

The parser of a raw packet finds the headers where `place` says (`At`), so what a step copies is known from the bytes. One lemma for each
way a step can end; a step after the last byte has been copied makes its pointer null.
-/

namespace Blockmon.Messages

open Exn NewPacket

namespace Slicing

/-- The slots are `t`, and the parser has found what `place` says. -/
def At (raw : List UInt8) (t : Slots) (s : Slicing) : Prop := s.toSlots = t ∧ Places raw (fun _ => True) s.parser

variable {raw : List UInt8} {t : Slots}

/-- A new parser is at the raw bytes. -/
theorem at_rawParser (raw : List UInt8) (t : Slots) : At raw t ⟨t, rawParser raw⟩ := by
  refine ⟨rfl, rfl, ?_, rfl, trivial⟩
  intro h ptr hptr
  change (if h = .ethernet then some (some 0) else none) = some ptr at hptr
  split at hptr
  · rename_i heth
    rw [heth]
    exact congrArg Except.ok (Option.some.inj hptr)
  · cases hptr

/-- A call of the parser leaves the slots. -/
theorem takes_parse {α : Type} {call : Dissect α} {r : Except NewPacket.Fault α} (h : Yields (Places raw fun _ => True) call r) :
    Takes (At raw t) (At raw t) (parse call) r :=
  h.onPart (fun _ hs => hs.2) fun _ _ hs hq => ⟨hs.1, hq⟩

/-- A change of the slots leaves the parser. -/
theorem takes_change (f : Slots → Slots) : Takes (At raw t) (At raw (f t)) (change f) (.ok ⟨⟩) :=
  takes_modify fun _ hs => ⟨congrArg f hs.1, hs.2⟩

/-- What is read of the slots. -/
theorem takes_get {α : Type} {J : Slicing → Prop} {f : Slicing → Slice α} {r : Except NewPacket.Fault α} {g : Slots → Slice α}
    (hf : ∀ s, f s = g s.toSlots) (hg : Takes (At raw t) J (g t) r) : Takes (At raw t) J (get >>= f) r := by
  intro s hs
  obtain ⟨s', hs', hrun⟩ := hg s hs
  refine ⟨s', hs', ?_⟩
  rw [EStateM.run_bind]
  dsimp only [EStateM.run_get]
  rw [hf, hs.1]
  exact hrun

/-! ## The same with what the bytes say -/

section Cut

variable (raw)

/-- The copy to a slot, on the slots alone. -/
def copy (h : Header) (src n : Nat) : EStateM NewPacket.Fault Slots Unit := do
  modify (.log h n)
  let bytes ← ofExcept (loadOf raw src n)
  let t ← get
  match t.slice h with
  | none => throw .nullPointer
  | some dst => if (t.array h).length < dst + n then throw .outOfBounds else modify (.put h dst bytes)

/-- A header that was found, on the slots alone. -/
def cutFound (h : Header) (p : Nat) : EStateM NewPacket.Fault Slots Unit := do
  let n ← ofExcept (lengthOf raw h p)
  let t ← get
  if n ≤ t.len then
    modify (.cut (t.len - n))
    copy raw h p n
  else modify (.cut 0)

/-- A header that was not found, on the slots alone. -/
def cutAbsent (h : Header) (otherwise : EStateM NewPacket.Fault Slots Unit) : EStateM NewPacket.Fault Slots Unit := do
  modify (.null h)
  otherwise

/-- A header, on the slots alone. -/
def cutHeader (h : Header) (otherwise : EStateM NewPacket.Fault Slots Unit) : EStateM NewPacket.Fault Slots Unit := do
  if (← get).len = 0 then cutAbsent h otherwise
  else
    match ← ofExcept (place raw h) with
    | none => cutAbsent h otherwise
    | some p => cutFound raw h p

/-- The headers above IP, on the slots alone. -/
def cutL4 : EStateM NewPacket.Fault Slots Unit := cutHeader raw .tcp (cutHeader raw .udp (cutHeader raw .icmp (return ())))

/-- The payload, on the slots alone. -/
def cutPayload : EStateM NewPacket.Fault Slots Unit := do
  let t ← get
  if t.len = 0 then modify (.null .payload)
  else
    match ← ofExcept (place raw .payload) with
    | none => modify (.null .payload)
    | some p => copy raw .payload p t.len

/-- The whole packet, on the slots alone. -/
def cutPacket : EStateM NewPacket.Fault Slots Unit := do
  cutHeader raw .ethernet (return ())
  cutHeader raw .ipv4 (return ())
  cutL4 raw
  cutPayload raw

end Cut

/-- The outcome of a call. -/
def value {σ α : Type} : EStateM.Result NewPacket.Fault σ α → Except NewPacket.Fault α
  | .ok a _ => .ok a
  | .error e _ => .error e

/-- The calls have the same outcome and leave the same slots. -/
def Mirrors {α : Type} (raw : List UInt8) (call : Slice α) (call' : EStateM NewPacket.Fault Slots α) : Prop :=
  ∀ t, Takes (At raw t) (At raw (leaves (call'.run t))) call (value (call'.run t))

/-- A value mirrors itself. -/
theorem mirrors_pure {α : Type} (a : α) : Mirrors raw (pure a) (pure a) := fun _ => takes_pure a

/-- A fault mirrors itself. -/
theorem mirrors_throw {α : Type} (e : NewPacket.Fault) : Mirrors (α := α) raw (throw e) (throw e) := fun _ => takes_throw e

/-- A change mirrors itself. -/
theorem mirrors_change (f : Slots → Slots) : Mirrors raw (change f) (modify f) := fun _ => takes_change f

/-- A call of the parser is its result. -/
theorem mirrors_parse {α : Type} {call : Dissect α} {r : Except NewPacket.Fault α} (h : Yields (Places raw fun _ => True) call r) :
    Mirrors raw (parse call) (ofExcept r) := by
  intro t
  cases r with
  | ok a => exact takes_parse h
  | error e => exact takes_parse h

/-- Mirrors of two calls are one of their sequence. -/
theorem Mirrors.bind {α β : Type} {x : Slice α} {x' : EStateM NewPacket.Fault Slots α} {f : α → Slice β}
    {f' : α → EStateM NewPacket.Fault Slots β} (hx : Mirrors raw x x') (hf : ∀ a, Mirrors raw (f a) (f' a)) :
    Mirrors raw (x >>= f) (x' >>= f') := by
  intro t
  have ht := hx t
  rw [EStateM.run_bind]
  cases hrun : x'.run t with
  | ok a m =>
    rw [hrun] at ht
    exact ht.bind (hf a m)
  | error e m =>
    rw [hrun] at ht
    exact ht.bind_error

/-- The state that is read is the slots. -/
theorem mirrors_get {α : Type} {f : Slicing → Slice α} {g : Slots → Slice α} {g' : Slots → EStateM NewPacket.Fault Slots α}
    (hf : ∀ s, f s = g s.toSlots) (hg : ∀ t, Mirrors raw (g t) (g' t)) : Mirrors raw (get >>= f) (get >>= g') :=
  fun t => takes_get hf (hg t t)

/-- Mirrors of two branches are one of both. -/
theorem mirrors_ite {α : Type} {c : Prop} [Decidable c] {x y : Slice α} {x' y' : EStateM NewPacket.Fault Slots α}
    (hx : Mirrors raw x x') (hy : Mirrors raw y y') : Mirrors raw (if c then x else y) (if c then x' else y') := by
  split
  · exact hx
  · exact hy

/-- The copy is mirrored. -/
theorem mirrors_memcpy (h : Header) (src n : Nat) : Mirrors raw (memcpy h src n) (copy raw h src n) := by
  refine (mirrors_change _).bind fun _ => (mirrors_parse (places_load src n)).bind fun bytes => ?_
  refine mirrors_get (g := fun t => match t.slice h with
    | none => throw .nullPointer
    | some dst => if (t.array h).length < dst + n then throw .outOfBounds else change (.put h dst bytes)) (fun _ => rfl) fun t => ?_
  cases t.slice h with
  | none => exact mirrors_throw _
  | some dst => exact mirrors_ite (mirrors_throw _) (mirrors_change _)

/-- Whether there is something left to copy from the header. -/
theorem takes_search {h : Header} {r : Except NewPacket.Fault (Option Nat)} (hlen : t.len ≠ 0) (hplace : place raw h = r) :
    Takes (At raw t) (At raw t) (present h) (r.map Option.isSome) := by
  have hfind : Takes (At raw t) (At raw t) (parse (find h)) (place raw h) := takes_parse (places_find h)
  rw [hplace] at hfind
  refine takes_get (g := fun t => if t.len = 0 then return false else return (← parse (find h)).isSome) (fun _ => rfl) ?_
  rw [if_neg hlen]
  cases r with
  | ok ptr => exact hfind.bind (takes_pure ptr.isSome)
  | error e => exact hfind.bind_error

/-- With nothing left no header is searched for. -/
theorem takes_search_zero {h : Header} (hlen : t.len = 0) : Takes (At raw t) (At raw t) (present h) (.ok false) := by
  refine takes_get (g := fun t => if t.len = 0 then return false else return (← parse (find h)).isSome) (fun _ => rfl) ?_
  rw [if_pos hlen]
  exact takes_pure false

/-- Where the header is read from. -/
theorem takes_source {h : Header} {p : Nat} (hplace : place raw h = .ok (some p)) :
    Takes (At raw t) (At raw t) (parse (find h >>= deref)) (.ok p) := by
  have hfind : Yields (Places raw fun _ => True) (find h) (place raw h) := places_find h
  rw [hplace] at hfind
  exact takes_parse (hfind.bind (yields_pure p))

/-- The header is there, and it is complete or not. -/
theorem takes_copyHeader {h : Header} {p : Nat} (hplace : place raw h = .ok (some p)) :
    Takes (At raw t) (At raw (leaves ((cutFound raw h p).run t))) (copyHeader h) (value ((cutFound raw h p).run t)) := by
  have hcopy : Mirrors raw (do
      let thisLen ← parse (h.sizeOf p)
      let len := (← get).len
      if thisLen ≤ len then do change (.cut (len - thisLen)); memcpy h p thisLen else change (.cut 0)) (cutFound raw h p) := by
    refine (mirrors_parse (places_sizeOf h p)).bind fun n => ?_
    refine mirrors_get (g := fun t => if n ≤ t.len then do change (.cut (t.len - n)); memcpy h p n else change (.cut 0))
      (fun _ => rfl) fun t => ?_
    exact mirrors_ite ((mirrors_change _).bind fun _ => mirrors_memcpy h p n) (mirrors_change _)
  exact (takes_source hplace).bind (hcopy t)

/-- A header is mirrored, if what comes after it is. -/
theorem mirrors_sliceHeader (h : Header) {otherwise : Slice Unit} {otherwise' : EStateM NewPacket.Fault Slots Unit}
    (hrest : Mirrors raw otherwise otherwise') : Mirrors raw (sliceHeader h otherwise) (cutHeader raw h otherwise') := by
  intro t
  have habsent : Mirrors raw (do change (.null h); otherwise) (cutAbsent h otherwise') := (mirrors_change _).bind fun _ => hrest
  have hrun : (cutHeader raw h otherwise').run t =
      (if t.len = 0 then cutAbsent h otherwise' else do
        match ← ofExcept (place raw h) with
        | none => cutAbsent h otherwise'
        | some p => cutFound raw h p).run t := rfl
  rw [hrun]
  by_cases hlen : t.len = 0
  · rw [if_pos hlen]
    exact (takes_search_zero hlen).bind (habsent t)
  · rw [if_neg hlen]
    cases hplace : place raw h with
    | error e => exact (takes_search hlen hplace).bind_error
    | ok ptr =>
      cases ptr with
      | none => exact (takes_search hlen hplace).bind (habsent t)
      | some p => exact (takes_search hlen hplace).bind (takes_copyHeader hplace)

/-- The payload is mirrored. -/
theorem mirrors_slicePayload : Mirrors raw slicePayload (cutPayload raw) := by
  intro t
  have hrun : (cutPayload raw).run t =
      (if t.len = 0 then modify (Slots.null .payload) else do
        match ← ofExcept (place raw .payload) with
        | none => modify (Slots.null .payload)
        | some p => copy raw .payload p t.len).run t := rfl
  rw [hrun]
  by_cases hlen : t.len = 0
  · rw [if_pos hlen]
    exact (takes_search_zero hlen).bind (mirrors_change _ t)
  · rw [if_neg hlen]
    cases hplace : place raw .payload with
    | error e => exact (takes_search hlen hplace).bind_error
    | ok ptr =>
      cases ptr with
      | none => exact (takes_search hlen hplace).bind (mirrors_change _ t)
      | some p =>
        have hcopy := takes_get (J := At raw (leaves ((copy raw .payload p t.len).run t))) (g := fun t => memcpy .payload p t.len)
          (fun _ => rfl) (mirrors_memcpy .payload p t.len t)
        exact (takes_search hlen hplace).bind ((takes_source hplace).bind hcopy)

/-- `SlicedPacket` cuts the packet where the bytes say. -/
theorem mirrors_slicedPacket : Mirrors raw slicedPacket (cutPacket raw) := by
  refine (mirrors_sliceHeader .ethernet (mirrors_pure ())).bind fun _ => (mirrors_sliceHeader .ipv4 (mirrors_pure ())).bind fun _ => ?_
  refine Mirrors.bind ?_ fun _ => mirrors_slicePayload
  exact mirrors_sliceHeader .tcp (mirrors_sliceHeader .udp (mirrors_sliceHeader .icmp (mirrors_pure ())))

/-! ## The steps -/

/-- A copy of bytes that are there. -/
theorem run_copy_of_load {h : Header} {src n : Nat} (hsrc : src + n ≤ raw.length) :
    (copy raw h src n).run t =
      match t.slice h with
      | none => .error .nullPointer (t.log h n)
      | some dst =>
        if (t.array h).length < dst + n then .error .outOfBounds (t.log h n)
        else .ok () ((t.log h n).put h dst ((raw.drop src).take n)) := by
  unfold copy
  rw [loadOf_eq hsrc]
  change (match t.slice h with
    | none => throw .nullPointer
    | some dst => if (t.array h).length < dst + n then throw .outOfBounds else
        modify (Slots.put h dst ((raw.drop src).take n)) : EStateM NewPacket.Fault Slots Unit).run (t.log h n) = _
  split
  · rfl
  · split <;> rfl

/-- A copy that fits. -/
theorem run_copy {h : Header} {src n dst : Nat} (hsrc : src + n ≤ raw.length) (hdst : t.slice h = some dst)
    (hfits : dst + n ≤ (t.array h).length) :
    (copy raw h src n).run t = .ok () ((t.log h n).put h dst ((raw.drop src).take n)) := by
  rw [run_copy_of_load hsrc, hdst]
  exact if_neg (by omega)

/-- A copy that does not fit is a fault. -/
theorem run_copy_over {h : Header} {src n dst : Nat} (hsrc : src + n ≤ raw.length) (hdst : t.slice h = some dst)
    (hover : (t.array h).length < dst + n) : (copy raw h src n).run t = .error .outOfBounds (t.log h n) := by
  rw [run_copy_of_load hsrc, hdst]
  exact if_pos hover

/-- A copy is made, or it faults with nothing but a note. -/
theorem copy_cases (raw : List UInt8) (h : Header) (src n : Nat) (t : Slots) :
    (∃ dst, src + n ≤ raw.length ∧ t.slice h = some dst ∧ dst + n ≤ (t.array h).length ∧
      (copy raw h src n).run t = .ok () ((t.log h n).put h dst ((raw.drop src).take n))) ∨
      ∃ e, (copy raw h src n).run t = .error e (t.log h n) := by
  by_cases hsrc : src + n ≤ raw.length
  · cases hdst : t.slice h with
    | none =>
      right
      refine ⟨.nullPointer, ?_⟩
      rw [run_copy_of_load hsrc, hdst]
    | some dst =>
      by_cases hfits : dst + n ≤ (t.array h).length
      · exact Or.inl ⟨dst, hsrc, rfl, hfits, run_copy hsrc hdst hfits⟩
      · exact Or.inr ⟨.outOfBounds, run_copy_over hsrc hdst (by omega)⟩
  · right
    refine ⟨.outOfBounds, ?_⟩
    have hload : loadOf raw src n = .error .outOfBounds := if_pos (by omega)
    unfold copy
    rw [hload]
    rfl

/-- A copy is noted, whatever comes of it. -/
theorem copied_copy (raw : List UInt8) (h : Header) (src n : Nat) (t : Slots) :
    (leaves ((copy raw h src n).run t)).copied = t.copied ++ [(h, n)] := by
  rcases copy_cases raw h src n t with ⟨dst, -, -, -, hrun⟩ | ⟨e, hrun⟩
  · rw [hrun]
    rfl
  · rw [hrun]
    rfl

/-- A header that was found, with its length. -/
theorem run_cutFound {h : Header} {p n : Nat} (hlength : lengthOf raw h p = .ok n) :
    (cutFound raw h p).run t =
      if n ≤ t.len then (copy raw h p n).run (t.cut (t.len - n)) else .ok () (t.cut 0) := by
  unfold cutFound
  rw [hlength]
  change (if n ≤ t.len then do modify (Slots.cut (t.len - n)); copy raw h p n else modify (Slots.cut 0) :
    EStateM NewPacket.Fault Slots Unit).run t = _
  split <;> rfl

section Header

variable {h : Header} {o : EStateM NewPacket.Fault Slots Unit}

/-- A header that is absent. -/
theorem run_cutHeader_absent (habsent : t.len = 0 ∨ place raw h = .ok none) : (cutHeader raw h o).run t = o.run (t.null h) := by
  change (if t.len = 0 then cutAbsent h o else do
    match ← ofExcept (place raw h) with
    | none => cutAbsent h o
    | some p => cutFound raw h p).run t = _
  by_cases hlen : t.len = 0
  · rw [if_pos hlen]
    rfl
  · rw [if_neg hlen, habsent.resolve_left hlen]
    rfl

/-- A header whose place is a fault. -/
theorem run_cutHeader_lost {e : NewPacket.Fault} (hlen : t.len ≠ 0) (hplace : place raw h = .error e) :
    (cutHeader raw h o).run t = .error e t := by
  change (if t.len = 0 then cutAbsent h o else do
    match ← ofExcept (place raw h) with
    | none => cutAbsent h o
    | some p => cutFound raw h p).run t = _
  rw [if_neg hlen, hplace]
  rfl

/-- A header that is found. -/
theorem run_cutHeader_found {p : Nat} (hlen : t.len ≠ 0) (hplace : place raw h = .ok (some p)) :
    (cutHeader raw h o).run t = (cutFound raw h p).run t := by
  change (if t.len = 0 then cutAbsent h o else do
    match ← ofExcept (place raw h) with
    | none => cutAbsent h o
    | some p => cutFound raw h p).run t = _
  rw [if_neg hlen, hplace]
  rfl

/-- A header that is complete in the raw packet. -/
theorem run_cutHeader_copied {p n dst : Nat} (hlen : t.len ≠ 0) (hplace : place raw h = .ok (some p)) (hlength : lengthOf raw h p = .ok n)
    (hle : n ≤ t.len) (hsrc : p + n ≤ raw.length) (hdst : t.slice h = some dst) (hfits : dst + n ≤ (t.array h).length) :
    (cutHeader raw h o).run t = .ok () (((t.cut (t.len - n)).log h n).put h dst ((raw.drop p).take n)) := by
  rw [run_cutHeader_found hlen hplace, run_cutFound hlength, if_pos hle]
  exact run_copy hsrc hdst hfits

/-- A header that does not fit into its slot is a fault. -/
theorem run_cutHeader_over {p n dst : Nat} (hlen : t.len ≠ 0) (hplace : place raw h = .ok (some p)) (hlength : lengthOf raw h p = .ok n)
    (hle : n ≤ t.len) (hsrc : p + n ≤ raw.length) (hdst : t.slice h = some dst) (hover : (t.array h).length < dst + n) :
    (cutHeader raw h o).run t = .error .outOfBounds ((t.cut (t.len - n)).log h n) := by
  rw [run_cutHeader_found hlen hplace, run_cutFound hlength, if_pos hle]
  exact run_copy_over hsrc hdst hover

/-- A header that is longer than what is left cuts everything off. -/
theorem run_cutHeader_truncated {p n : Nat} (hlen : t.len ≠ 0) (hplace : place raw h = .ok (some p)) (hlength : lengthOf raw h p = .ok n)
    (hlt : t.len < n) : (cutHeader raw h o).run t = .ok () (t.cut 0) := by
  rw [run_cutHeader_found hlen hplace, run_cutFound hlength, if_neg (by omega)]

/-- A header whose length is a fault. -/
theorem run_cutHeader_cutOff {e : NewPacket.Fault} {p : Nat} (hlen : t.len ≠ 0) (hplace : place raw h = .ok (some p))
    (hlength : lengthOf raw h p = .error e) : (cutHeader raw h o).run t = .error e t := by
  rw [run_cutHeader_found hlen hplace]
  unfold cutFound
  rw [hlength]
  rfl

end Header

/-- Nothing is left to copy: the other pointers are null. -/
theorem run_cutL4_zero (hlen : t.len = 0) : (cutL4 raw).run t = .ok () (((t.null .tcp).null .udp).null .icmp) := by
  unfold cutL4
  rw [run_cutHeader_absent (Or.inl hlen), run_cutHeader_absent (t := t.null .tcp) (Or.inl hlen),
    run_cutHeader_absent (t := (t.null .tcp).null .udp) (Or.inl hlen)]
  rfl

/-- A payload of no bytes. -/
theorem run_cutPayload_zero (hlen : t.len = 0) : (cutPayload raw).run t = .ok () (t.null .payload) := by
  change (if t.len = 0 then modify (Slots.null .payload) else do
    match ← ofExcept (place raw .payload) with
    | none => modify (Slots.null .payload)
    | some p => copy raw .payload p t.len).run t = _
  rw [if_pos hlen]
  rfl

/-- What is left is the payload, wherever that begins. -/
theorem run_cutPayload_of_ne (hlen : t.len ≠ 0) :
    (cutPayload raw).run t =
      match place raw .payload with
      | .error e => .error e t
      | .ok none => .ok () (t.null .payload)
      | .ok (some p) => (copy raw .payload p t.len).run t := by
  change (if t.len = 0 then modify (Slots.null .payload) else do
    match ← ofExcept (place raw .payload) with
    | none => modify (Slots.null .payload)
    | some p => copy raw .payload p t.len).run t = _
  rw [if_neg hlen]
  rcases place raw .payload with e | _ | p
  · rfl
  · rfl
  · rfl

/-- A payload is copied with what is left. -/
theorem run_cutPayload {p : Nat} (hlen : t.len ≠ 0) (hplace : place raw .payload = .ok (some p)) :
    (cutPayload raw).run t = (copy raw .payload p t.len).run t := by
  rw [run_cutPayload_of_ne hlen, hplace]

/-- The steps behind the IP header. -/
def cutRest (raw : List UInt8) : EStateM NewPacket.Fault Slots Unit := do
  cutL4 raw
  cutPayload raw

/-- A rest of no bytes. -/
theorem run_cutRest_zero (hlen : t.len = 0) :
    (cutRest raw).run t = .ok () ((((t.null .tcp).null .udp).null .icmp).null .payload) := by
  unfold cutRest
  rw [run_bind_of_ok (run_cutL4_zero hlen)]
  exact run_cutPayload_zero hlen

/-- An absent header in a sequence. -/
theorem run_absent_bind {h : Header} (hplace : place raw h = .ok none) (o : EStateM NewPacket.Fault Slots Unit)
    (f : Unit → EStateM NewPacket.Fault Slots Unit) :
    (cutHeader raw h o >>= f).run t = (o >>= f).run (t.null h) := by
  rw [EStateM.run_bind, run_cutHeader_absent (Or.inr hplace), EStateM.run_bind]

/-! ## Copies and slots -/

/-- The copies so far stay noted. -/
def Longer (t t' : Slots) : Prop := t.copied <+: t'.copied

instance : Std.Refl Longer := ⟨fun t => List.prefix_refl t.copied⟩

instance : IsTrans Slots Longer := ⟨fun _ _ _ h h' => List.IsPrefix.trans h h'⟩

/-- A copy notes its length. -/
theorem keeps_copy (h : Header) (src n : Nat) : Keeps Longer (copy raw h src n) := by
  intro t
  unfold Longer
  rw [copied_copy]
  exact List.prefix_append _ _

/-- A null pointer notes nothing. -/
theorem keeps_null (h : Header) : Keeps Longer (modify (Slots.null h) : EStateM NewPacket.Fault Slots Unit) :=
  keeps_modify fun t => List.prefix_refl t.copied

/-- A new length notes nothing. -/
theorem keeps_cut (len : Nat) : Keeps Longer (modify (Slots.cut len) : EStateM NewPacket.Fault Slots Unit) :=
  keeps_modify fun t => List.prefix_refl t.copied

/-- A header that was found only adds to the notes. -/
theorem keeps_cutFound (h : Header) (p : Nat) : Keeps Longer (cutFound raw h p) :=
  keeps_ofExcept_bind fun _ _ => keeps_bind keeps_get fun _ =>
    keeps_ite (keeps_bind (keeps_cut _) fun _ => keeps_copy h p _) (keeps_cut 0)

/-- A header only adds to the notes. -/
theorem keeps_cutHeader (h : Header) {o : EStateM NewPacket.Fault Slots Unit} (hrest : Keeps Longer o) :
    Keeps Longer (cutHeader raw h o) := by
  have habsent : Keeps Longer (cutAbsent h o) := keeps_bind (keeps_null h) fun _ => hrest
  refine keeps_bind keeps_get fun t => keeps_ite habsent (keeps_ofExcept_bind fun ptr _ => ?_)
  cases ptr with
  | none => exact habsent
  | some p => exact keeps_cutFound h p

/-- The headers above IP only add to the notes. -/
theorem keeps_cutL4 : Keeps Longer (cutL4 raw) := keeps_cutHeader _ (keeps_cutHeader _ (keeps_cutHeader _ (keeps_pure ())))

/-- The payload only adds to the notes. -/
theorem keeps_cutPayload : Keeps Longer (cutPayload raw) := by
  refine keeps_bind keeps_get fun t => keeps_ite (keeps_null _) (keeps_ofExcept_bind fun ptr _ => ?_)
  cases ptr with
  | none => exact keeps_null _
  | some p => exact keeps_copy _ p _

/-- The pointer of a header and the array with its slot are as they were. -/
def Untouched (h : Header) (t t' : Slots) : Prop := t'.slice h = t.slice h ∧ t'.array h = t.array h

instance (h : Header) : Std.Refl (Untouched h) := ⟨fun _ => ⟨rfl, rfl⟩⟩

instance (h : Header) : IsTrans Slots (Untouched h) := ⟨fun _ _ _ h h' => ⟨h'.1.trans h.1, h'.2.trans h.2⟩⟩

section Untouched

variable {h h' : Header} (hne : h ≠ h')

include hne

/-- Another header's null pointer leaves a header alone. -/
theorem untouched_null : Keeps (Untouched h) (modify (Slots.null h') : EStateM NewPacket.Fault Slots Unit) :=
  keeps_modify fun _ => ⟨if_neg hne, rfl⟩

/-- Another header's copy leaves it alone. -/
theorem untouched_copy (src n : Nat) : Keeps (Untouched h) (copy raw h' src n) := by
  refine keeps_bind (keeps_modify fun _ => ⟨rfl, rfl⟩) fun _ => keeps_ofExcept_bind fun bytes _ => keeps_bind keeps_get fun t => ?_
  cases t.slice h' with
  | none => exact keeps_throw _
  | some dst => exact keeps_ite (keeps_throw _) (keeps_modify fun _ => ⟨rfl, if_neg hne⟩)

/-- Another header that is found leaves it alone. -/
theorem untouched_cutFound (p : Nat) : Keeps (Untouched h) (cutFound raw h' p) :=
  keeps_ofExcept_bind fun _ _ => keeps_bind keeps_get fun _ =>
    keeps_ite (keeps_bind (keeps_modify fun _ => ⟨rfl, rfl⟩) fun _ => untouched_copy hne p _) (keeps_modify fun _ => ⟨rfl, rfl⟩)

/-- Another header leaves it alone, if what comes after does. -/
theorem untouched_cutHeader {o : EStateM NewPacket.Fault Slots Unit} (hrest : Keeps (Untouched h) o) :
    Keeps (Untouched h) (cutHeader raw h' o) := by
  have habsent : Keeps (Untouched h) (cutAbsent h' o) := keeps_bind (untouched_null hne) fun _ => hrest
  refine keeps_bind keeps_get fun t => keeps_ite habsent (keeps_ofExcept_bind fun ptr _ => ?_)
  cases ptr with
  | none => exact habsent
  | some p => exact untouched_cutFound hne p

end Untouched

/-- The payload leaves the headers alone. -/
theorem untouched_cutPayload {h : Header} (hne : h ≠ .payload) : Keeps (Untouched h) (cutPayload raw) := by
  refine keeps_bind keeps_get fun t => keeps_ite (untouched_null hne) (keeps_ofExcept_bind fun ptr _ => ?_)
  cases ptr with
  | none => exact untouched_null hne
  | some p => exact untouched_copy hne p _

/-- A header that is found by its step, which does not run what is behind `else`. -/
theorem untouched_found {h h' : Header} {o : EStateM NewPacket.Fault Slots Unit} {p : Nat} (hne : h ≠ h') (hpayload : h ≠ .payload)
    (hlen : t.len ≠ 0) (hplace : place raw h' = .ok (some p)) :
    Untouched h t (leaves ((cutHeader raw h' o >>= fun _ => cutPayload raw).run t)) := by
  rw [EStateM.run_bind, run_cutHeader_found hlen hplace, ← EStateM.run_bind]
  exact keeps_bind (untouched_cutFound hne p) (fun _ => untouched_cutPayload hpayload) t

/-- The slot of the packet for a header is still where `construct` has put it. -/
structure Room (payloadSize slots index : Nat) (t : Slots) (h : Header) : Prop where
  slice : t.slice h = some (h.slotSize payloadSize * index)
  length_array : (t.array h).length = h.slotSize payloadSize * slots

section Room

variable {payloadSize slots index : Nat} {h h' : Header}

/-- Another header's null pointer takes no room. -/
theorem Room.null (hroom : Room payloadSize slots index t h') (hne : h' ≠ h) : Room payloadSize slots index (t.null h) h' :=
  ⟨(if_neg hne).trans hroom.slice, hroom.length_array⟩

/-- A new length takes no room. -/
theorem Room.cut (hroom : Room payloadSize slots index t h') (len : Nat) : Room payloadSize slots index (t.cut len) h' :=
  ⟨hroom.slice, hroom.length_array⟩

/-- Another header's bytes take no room. -/
theorem Room.put (hroom : Room payloadSize slots index t h') (hne : h' ≠ h) (len n dst : Nat) (bytes : List UInt8) :
    Room payloadSize slots index (((t.cut len).log h n).put h dst bytes) h' :=
  ⟨hroom.slice, (congrArg List.length (if_neg hne)).trans hroom.length_array⟩

/-- What fits in the slot fits in the array. -/
theorem Room.fits (hroom : Room payloadSize slots index t h) (hindex : index < slots) {n : Nat} (hn : n ≤ h.slotSize payloadSize) :
    h.slotSize payloadSize * index + n ≤ (t.array h).length := by
  have hmul : h.slotSize payloadSize * (index + 1) ≤ h.slotSize payloadSize * slots := Nat.mul_le_mul_left _ hindex
  rw [hroom.length_array]
  rw [Nat.mul_succ] at hmul
  omega

end Room

end Slicing

end Blockmon.Messages
