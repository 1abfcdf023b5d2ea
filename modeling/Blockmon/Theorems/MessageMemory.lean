import Mathlib.Algebra.BigOperators.Fin
import Blockmon.MessageMemory

/-!
# Messages in shared memory are values

Batches and slices are two arenas: what a message was given is not given again, and nothing that happens to one message is seen in
another. So the store of values describes every run of a source with its messages, and the memory goes when its last message does.
-/

namespace Blockmon

open Arenas

/-! ## Batches -/

namespace MemoryBatch

variable {junk : Nat → Nat → UInt8} {b b' : MemoryBatch} {msg : InPlaceMsg} {p q : MsgPlace} {n i : Nat} {u : Nat × UInt8}

/-- The message fits in a buffer. -/
def Fits (msg : InPlaceMsg) : Prop := msg.object.length + msg.additional ≤ batchSize

/-- What is given away of a buffer lies in it. -/
structure Good (b : MemoryBatch) : Prop where
  curr_le : b.curr ≤ b.size
  size_le : b.size ≤ batchSize

/-- A place that the batch has given away. -/
def Cut (b : MemoryBatch) (p : MsgPlace) : Prop := p.addr + p.len ≤ b.curr

/-- Two places without a byte in common. -/
def Apart (p q : MsgPlace) : Prop := p.addr + p.len ≤ q.addr ∨ q.addr + q.len ≤ p.addr

/-- What the constructor writes of a message; of the rest of its place nothing is known. -/
def contents (msg : InPlaceMsg) : List (Option UInt8) :=
  (msg.object ++ msg.payload).map some ++ List.replicate (msg.additional - msg.payload.length) none

/-- The bytes are the known ones. -/
def Meets (bytes : List UInt8) (known : List (Option UInt8)) : Prop :=
  bytes.length = known.length ∧ ∀ (i : Nat) (x : UInt8), known[i]? = some (some x) → bytes[i]? = some x

/-- A place for the message and the message in it. -/
def carve (b : MemoryBatch) (msg : InPlaceMsg) : Option (MsgPlace × MemoryBatch) :=
  (b.reserve msg.size).1.bind fun mbuf =>
    ((b.reserve msg.size).2.construct mbuf msg).map fun b' => ({ addr := mbuf, len := msg.size }, b')

/-- A message that fits has its exact size. -/
theorem size_of_fits (h : Fits msg) : msg.size = msg.object.length + msg.additional := by
  rw [Fits, batchSize] at h
  rw [InPlaceMsg.size, Nat.mod_eq_of_lt (by omega)]

/-- A reservation from a good batch, when it is not larger than a batch. -/
theorem reserve_of_good (hb : Good b) (hn : n ≤ batchSize) :
    b.reserve n = if b.curr + n > b.size then (none, b) else (some b.curr, { b with curr := b.curr + n }) := by
  have h1 := hb.curr_le
  have h2 := hb.size_le
  rw [batchSize] at h2 hn
  rw [reserve, Nat.mod_eq_of_lt (by omega)]

/-- A message that fits, fits into an empty batch. -/
theorem size_le_of_fits (h : Fits msg) : msg.size ≤ batchSize := by
  rw [size_of_fits h]
  exact h

/-- What a message was built in. -/
theorem carve_eq_some (hb : Good b) (h : Fits msg) {r : MsgPlace × MemoryBatch} : carve b msg = some r ↔
    b.curr + msg.size ≤ b.size ∧
      r = ({ addr := b.curr, len := msg.size },
        { buff := fun i => if b.curr ≤ i then (msg.object ++ msg.payload).getD (i - b.curr) (b.buff i) else b.buff i,
          size := b.size, curr := b.curr + msg.size }) := by
  have hsize := size_of_fits h
  have hp := msg.payload_le
  rw [carve, reserve_of_good hb (size_le_of_fits h)]
  by_cases hroom : b.curr + msg.size > b.size
  · simp only [if_pos hroom, Option.bind_none, reduceCtorEq, false_iff, not_and]
    intro hle
    omega
  · have hlen : b.curr + (msg.object ++ msg.payload).length ≤ b.size := by
      rw [List.length_append]
      omega
    simp only [if_neg hroom, Option.bind_some, construct, if_pos hlen, Option.map_some, Option.some.injEq]
    constructor
    · rintro rfl
      exact ⟨by omega, rfl⟩
    · rintro ⟨-, rfl⟩
      rfl

/-- The contents of a message have its size. -/
theorem length_contents (h : Fits msg) : (contents msg).length = msg.size := by
  have hp := msg.payload_le
  rw [size_of_fits h, contents, List.length_append, List.length_map, List.length_append, List.length_replicate]
  omega

/-- A byte of a place. -/
theorem getElem?_read (b : MemoryBatch) (p : MsgPlace) (i : Nat) :
    (b.read p)[i]? = if i < p.len then some (b.buff (p.addr + i)) else none := by
  rw [read, List.getElem?_map]
  by_cases hi : i < p.len
  · rw [if_pos hi, List.getElem?_range hi, Option.map_some]
  · rw [if_neg hi, List.getElem?_eq_none (by simpa using hi), Option.map_none]

/-- A place has its length. -/
theorem length_read (b : MemoryBatch) (p : MsgPlace) : (b.read p).length = p.len := by
  rw [read, List.length_map, List.length_range]

/-- A message reads the same when its bytes are the same. -/
theorem read_congr (h : ∀ i, p.addr ≤ i → i < p.addr + p.len → b'.buff i = b.buff i) : b'.read p = b.read p := by
  rw [read, read]
  refine List.map_congr_left ?_
  intro i hi
  rw [List.mem_range] at hi
  exact h _ (by omega) (by omega)

/-- The constructed message is what is read. -/
theorem meets_carve (hb : Good b) (h : Fits msg) (hc : carve b msg = some (p, b')) : Cut b' p ∧ Meets (b'.read p) (contents msg) := by
  obtain ⟨-, heq⟩ := (carve_eq_some hb h).mp hc
  obtain ⟨rfl, rfl⟩ := Prod.mk.inj heq
  refine ⟨Nat.le_refl _, ?_, ?_⟩
  · rw [length_read, length_contents h]
  · intro i x hi
    have hlt : i < msg.size := by
      rw [← length_contents h]
      exact (List.getElem?_eq_some_iff.mp hi).1
    have hbytes : (msg.object ++ msg.payload)[i]? = some x := by
      by_cases hk : i < (msg.object ++ msg.payload).length
      · rw [contents, List.getElem?_append_left (by simpa using hk), List.getElem?_map, Option.map_eq_some_iff] at hi
        obtain ⟨y, hy, hyx⟩ := hi
        rw [hy, Option.some.inj hyx]
      · rw [contents, List.getElem?_append_right (by simpa using hk), List.getElem?_replicate] at hi
        split at hi
        · cases hi
        · cases hi
    rw [getElem?_read, if_pos hlt]
    simp only [Nat.le_add_right, if_true, Nat.add_sub_cancel_left]
    rw [List.getD_eq_getElem?_getD, hbytes, Option.getD_some]

/-- What lies before the new message does not change. -/
theorem frame_carve (hb : Good b) (h : Fits msg) (hc : carve b msg = some (p, b')) (hq : Cut b q) :
    Cut b' q ∧ Apart p q ∧ b'.read q = b.read q := by
  obtain ⟨-, heq⟩ := (carve_eq_some hb h).mp hc
  obtain ⟨rfl, rfl⟩ := Prod.mk.inj heq
  rw [Cut] at hq
  refine ⟨?_, Or.inr hq, read_congr ?_⟩
  · rw [Cut]
    exact Nat.le_trans hq (Nat.le_add_right _ _)
  · intro i _ hi
    have hlt : ¬ b.curr ≤ i := by omega
    simp [hlt]

/-- The bytes after a write. -/
theorem buff_write (b : MemoryBatch) (p : MsgPlace) (u : Nat × UInt8) (j : Nat) :
    (b.write p u).buff j = if u.1 < p.len ∧ j = p.addr + u.1 then u.2 else b.buff j := by
  rw [write]
  by_cases hu : u.1 < p.len
  · simp [hu, Function.update_apply]
  · simp [hu]

/-- A write is what is known of a place from then on. -/
theorem meets_write {known : List (Option UInt8)} (h : Meets (b.read p) known) :
    Meets ((b.write p u).read p) (known.set u.1 (some u.2)) := by
  obtain ⟨hlen, hknown⟩ := h
  rw [length_read] at hlen
  refine ⟨by rw [length_read, List.length_set, hlen], ?_⟩
  intro i x hi
  rw [List.getElem?_set] at hi
  have hib : i < p.len := by
    by_cases hu : u.1 = i
    · rw [if_pos hu] at hi
      split at hi
      · omega
      · cases hi
    · rw [if_neg hu] at hi
      have := (List.getElem?_eq_some_iff.mp hi).1
      omega
  rw [getElem?_read, if_pos hib, buff_write]
  by_cases hu : u.1 = i
  · rw [if_pos hu, if_pos (by omega)] at hi
    rw [if_pos (by omega)]
    exact Option.some.inj hi
  · rw [if_neg hu] at hi
    have hold := hknown i x hi
    rw [getElem?_read, if_pos hib] at hold
    rw [if_neg (by omega)]
    exact hold

/-- A write to one place does not touch another. -/
theorem frame_write (h : Apart p q) : (b.write p u).read q = b.read q := by
  refine read_congr ?_
  intro i hi hi'
  rw [Apart] at h
  rw [buff_write, if_neg (by omega)]

/-- A buffer in which messages are built one behind the other. -/
def arena (junk : Nat → Nat → UInt8) :
    Arena MemoryBatch MsgPlace InPlaceMsg (List UInt8) (Nat × UInt8) (List (Option UInt8)) where
  carve := carve
  fresh := fun n => new (junk n) batchSize
  read := read
  write := write
  build := contents
  poke := fun known u => known.set u.1 (some u.2)
  Meets := Meets
  Good := Good
  Fits := Fits
  Cut := Cut
  Apart := Apart
  apart_symm := Or.symm
  good_fresh := fun _ => ⟨Nat.zero_le _, Nat.le_refl _⟩
  carve_fresh := by
    intro msg n h
    refine ⟨_, _, (carve_eq_some ⟨Nat.zero_le _, Nat.le_refl _⟩ h).mpr ⟨?_, rfl⟩⟩
    simpa [new] using size_le_of_fits h
  good_carve := by
    intro b msg p b' hb h hc
    obtain ⟨hroom, heq⟩ := (carve_eq_some hb h).mp hc
    obtain ⟨rfl, rfl⟩ := Prod.mk.inj heq
    exact ⟨hroom, hb.size_le⟩
  meets_carve := meets_carve
  frame_carve := frame_carve
  good_write := by
    intro b p u hb
    rw [write]
    split
    · exact ⟨hb.curr_le, hb.size_le⟩
    · exact hb
  cut_write := by
    intro b p u q hq
    rw [write]
    split
    · exact hq
    · exact hq
  meets_write := fun _ _ h => meets_write h
  frame_write := fun _ _ _ h => frame_write h

/-- The message is built in its place, and a pointer to it is handed out. -/
theorem carve_bind_handOut (s : Source) (i : Nat) (b : MemoryBatch) (msg : InPlaceMsg) :
    (carve b msg).bind (Arena.handOut s i) = (b.reserve msg.size).1.bind fun mbuf => buildMsg s i (b.reserve msg.size).2 mbuf msg := by
  rw [carve, Option.bind_assoc]
  refine congrArg _ (funext fun mbuf => ?_)
  rw [Option.bind_map]
  rfl

/-- The allocation of `alloc_msg_from_buffer` is one of an arena. -/
theorem allocates (junk : Nat → Nat → UInt8) : Arena.Allocates (arena junk) (allocMsgFromBuffer junk) := by
  intro s a loc msg h hfit
  have hfit : Fits msg := hfit
  cases hcur : s.current with
  | none => simp [allocMsgFromBuffer, Arena.alloc, hcur]
  | some i =>
    obtain ⟨b, hb⟩ := h.counts.object (Arena.Stores.current_mem hcur)
    obtain ⟨H, hH, -, hnext, -⟩ := h.counts.reset (Arena.Stores.current_mem hcur)
    have hgood : Good b := h.good i b hb
    have hcarve : ∀ b, (arena junk).carve b msg = carve b msg := fun _ => rfl
    simp only [allocMsgFromBuffer, Arena.alloc, hcur, hb, Option.bind_some, hcarve, carve_bind_handOut]
    by_cases hroom : b.curr + msg.size ≤ b.size
    · -- the message goes to the current buffer
      have hc := (carve_eq_some hgood hfit).mpr ⟨hroom, rfl⟩
      have hres : (b.reserve msg.size).1 = some b.curr := by
        rw [reserve_of_good hgood (size_le_of_fits hfit), if_neg (by omega)]
      rw [hc, Option.isSome_some, if_pos rfl, hres, Option.elim_some, Option.bind_some]
    · -- the message goes to a new buffer
      have hc : carve b msg = none := by
        refine Option.eq_none_iff_forall_ne_some.mpr ?_
        intro r hr
        exact hroom ((carve_eq_some hgood hfit).mp hr).1
      have hres : (b.reserve msg.size).1 = none := by
        rw [reserve_of_good hgood (size_le_of_fits hfit), if_pos (by omega)]
      rw [hc, Option.isSome_none, if_neg Bool.false_ne_true, hres, Option.elim_none, Arena.renew, hH, Option.bind_some, Option.map_some,
        Option.bind_some]
      simp only [Owned.make, ← hnext]
      rfl

/-- The messages that a source puts in its batches are values. Whatever is allocated, copied, dropped and written in whatever order, a
call is possible exactly when the store of values makes it possible, so no message is built outside of its buffer and no buffer is used
after its end; a pointer reads what was put in its message; and a buffer is freed once, as soon as neither the source nor a message owns it. -/
theorem messages_are_values (junk : Nat → Nat → UInt8) (cs : List (Act InPlaceMsg (Nat × UInt8)))
    (hfit : ∀ msg, Act.alloc msg ∈ cs → msg.object.length + msg.additional ≤ batchSize) :
    Option.Rel (fun s a => (∀ k, Option.Rel Meets (s.read read k) (a.read k)) ∧ (s.heap.freed.map Prod.fst).Nodup ∧
        ∀ i, i ∈ s.heap.freed.map Prod.fst ↔ i < s.heap.next ∧ i ∉ s.owners)
      (Lts.run (step junk) (start junk) cs)
      (Lts.run (Values.step contents fun known u => known.set u.1 (some u.2)) Values.new cs) := by
  have hgood : Good (new (junk 0) initialSize) := ⟨Nat.zero_le _, Nat.mul_le_mul_left 4096 (by omega)⟩
  have hstart : Arena.Holds (arena junk) (start junk) Values.new := ⟨fun _ => (0, { addr := 0, len := 0 }), Arena.stores_start hgood _⟩
  have hfits : ∀ c ∈ cs, Arena.ActFits (arena junk) c := by
    intro c hc
    cases c with
    | alloc msg => exact hfit msg hc
    | _ => trivial
  refine rel_imp ?_ (Arena.run_refines (allocates junk) hfits hstart)
  intro s a h
  exact ⟨h.read, h.freed⟩

/-- Two messages, of which the second needs a new buffer; the source goes, and the first message is dropped. -/
theorem messages_are_values_twoBuffers :
    let msg : Nat → InPlaceMsg := fun n => { object := [1, 2, 3], payload := [], additional := n, payload_le := Nat.zero_le n }
    let cs : List (Act InPlaceMsg (Nat × UInt8)) := [.alloc (msg 0), .alloc (msg 16384), .poke 1 (2, 4), .close, .drop 0]
    Option.Rel (fun s a => (∀ k, Option.Rel Meets (s.read read k) (a.read k)) ∧ (s.heap.freed.map Prod.fst).Nodup ∧
        ∀ i, i ∈ s.heap.freed.map Prod.fst ↔ i < s.heap.next ∧ i ∉ s.owners)
      (Lts.run (step fun _ _ => 0) (start fun _ _ => 0) cs)
      (Lts.run (Values.step contents fun known u => known.set u.1 (some u.2)) Values.new cs) := by
  refine messages_are_values _ _ ?_
  intro msg hmsg
  simp only [List.mem_cons, Act.alloc.injEq, reduceCtorEq, List.not_mem_nil, or_false] at hmsg
  rcases hmsg with rfl | rfl
  · show 3 + 0 ≤ 4096 * 256
    omega
  · show 3 + 16384 ≤ 4096 * 256
    omega

end MemoryBatch

/-! ## Slices -/

namespace SliceManager

variable {n : Nat} {Args β : Type} {t : SliceTypes n Args β} {junk : Nat → Fin (n + 1) → Nat → β} {m m' : SliceManager n β}
  {msg : SliceMsg n Args β} {i k : Nat} {u : Fin (n + 1) × β}

/-- The slots given away are slots of the manager. -/
def Good (m : SliceManager n β) : Prop := m.index ≤ nSlots

/-- What is known of a new slice: what its maker wrote, or else what a constructor built. -/
def contents (t : SliceTypes n Args β) (msg : SliceMsg n Args β) (j : Fin (n + 1)) : Option β := (msg.filled j).or (t.built msg.args j)

/-- The objects are the known ones. -/
def Meets (objects : Fin (n + 1) → β) (known : Fin (n + 1) → Option β) : Prop := ∀ j x, known j = some x → objects j = x

/-- The next slot, with the slice in it. -/
def carve (t : SliceTypes n Args β) (m : SliceManager n β) (msg : SliceMsg n Args β) : Option (Nat × SliceManager n β) :=
  (alloc t m msg.args).map fun r => (r.1, r.2.put r.1 msg.filled)

/-- What a new slice was given. -/
theorem carve_eq_some {r : Nat × SliceManager n β} : carve t m msg = some r ↔
    m.index ≠ nSlots ∧ r = (m.index, ({ m.put m.index (t.built msg.args) with index := m.index + 1 }.put m.index msg.filled)) := by
  rw [carve, alloc]
  by_cases h : m.index = nSlots
  · simp [h]
  · rw [if_neg h, Option.map_some, Option.some.injEq]
    exact ⟨fun hr => ⟨h, hr.symm⟩, fun hr => hr.2.symm⟩

/-- What was put is there, and what was not is as before. -/
theorem read_put_self (m : SliceManager n β) (i : Nat) (v : Fin (n + 1) → Option β) (j : Fin (n + 1)) :
    (m.put i v).read i j = (v j).getD (m.read i j) := by
  simp [read, put]

/-- The other slots are as before. -/
theorem read_put_of_ne (m : SliceManager n β) (h : k ≠ i) (v : Fin (n + 1) → Option β) : (m.put i v).read k = m.read k := by
  funext j
  simp [read, put, h]

/-- A write changes one value of its slot. -/
theorem read_write_self (m : SliceManager n β) (i : Nat) (u : Fin (n + 1) × β) :
    (m.write i u).read i = Function.update (m.read i) u.1 u.2 := by
  funext j
  by_cases hj : j = u.1
  · subst hj
    simp [read, write]
  · simp [read, write, hj]

/-- A write does not touch the other slots. -/
theorem read_write_of_ne (m : SliceManager n β) (h : k ≠ i) (u : Fin (n + 1) × β) : (m.write i u).read k = m.read k := by
  funext j
  by_cases hj : j = u.1
  · subst hj
    simp [read, write, h]
  · simp [read, write, hj]

/-- A carved slot has the contents of its message. -/
theorem meets_carve (hc : carve t m msg = some (i, m')) : i < m'.index ∧ Meets (m'.read i) (contents t msg) := by
  obtain ⟨-, heq⟩ := carve_eq_some.mp hc
  obtain ⟨rfl, rfl⟩ := Prod.mk.inj heq
  refine ⟨Nat.lt_succ_self _, ?_⟩
  intro j x hx
  rw [contents] at hx
  rw [read_put_self]
  cases hf : msg.filled j with
  | some y =>
    rw [hf, Option.some_or] at hx
    exact Option.some.inj hx
  | none =>
    rw [hf, Option.none_or] at hx
    rw [Option.getD_none]
    show (m.put m.index (t.built msg.args)).read m.index j = x
    rw [read_put_self, hx, Option.getD_some]

/-- The slots before the new one do not change. -/
theorem frame_carve (hc : carve t m msg = some (i, m')) (hk : k < m.index) : k < m'.index ∧ i ≠ k ∧ m'.read k = m.read k := by
  obtain ⟨-, heq⟩ := carve_eq_some.mp hc
  obtain ⟨rfl, rfl⟩ := Prod.mk.inj heq
  refine ⟨Nat.lt_succ_of_lt hk, by omega, ?_⟩
  rw [read_put_of_ne _ (Nat.ne_of_lt hk)]
  show (m.put m.index (t.built msg.args)).read k = m.read k
  rw [read_put_of_ne _ (Nat.ne_of_lt hk)]

/-- A write is what is known of a slot from then on. -/
theorem meets_write {known : Fin (n + 1) → Option β} (h : Meets (m.read i) known) :
    Meets ((m.write i u).read i) (Function.update known u.1 (some u.2)) := by
  intro j x hx
  rw [read_write_self]
  by_cases hj : j = u.1
  · subst hj
    simpa using hx
  · rw [Function.update_of_ne hj] at hx ⊢
    exact h j x hx

/-- A manager whose slots are given away in order. -/
def arena (t : SliceTypes n Args β) (junk : Nat → Fin (n + 1) → Nat → β) :
    Arena (SliceManager n β) Nat (SliceMsg n Args β) (Fin (n + 1) → β) (Fin (n + 1) × β) (Fin (n + 1) → Option β) where
  carve := carve t
  fresh := fun c => new (junk c)
  read := read
  write := write
  build := contents t
  poke := fun known u => Function.update known u.1 (some u.2)
  Meets := Meets
  Good := Good
  Fits := fun _ => True
  Cut := fun m i => i < m.index
  Apart := fun i k => i ≠ k
  apart_symm := Ne.symm
  good_fresh := fun _ => Nat.zero_le _
  carve_fresh := by
    intro msg c _
    refine ⟨_, _, carve_eq_some.mpr ⟨?_, rfl⟩⟩
    show 0 ≠ 4096 * 32
    omega
  good_carve := by
    intro m msg i m' hm _ hc
    obtain ⟨hne, heq⟩ := carve_eq_some.mp hc
    obtain ⟨rfl, rfl⟩ := Prod.mk.inj heq
    exact Nat.lt_of_le_of_ne hm hne
  meets_carve := fun _ _ hc => meets_carve hc
  frame_carve := fun _ _ hc hk => frame_carve hc hk
  good_write := fun hm => hm
  cut_write := fun hk => hk
  meets_write := fun _ _ h => meets_write h
  frame_write := fun _ _ _ h => read_write_of_ne _ h.symm _

/-- The allocation of `new_msg` is one of an arena. -/
theorem allocates (t : SliceTypes n Args β) (junk : Nat → Fin (n + 1) → Nat → β) : Arena.Allocates (arena t junk) (newMsg t junk) := by
  intro s a loc msg h _
  cases hcur : s.current with
  | none => simp [newMsg, newSlice, Arena.alloc, hcur]
  | some c =>
    obtain ⟨m, hm⟩ := h.counts.object (Arena.Stores.current_mem hcur)
    have hlt : c < s.heap.next := h.counts.below c (Arena.Stores.current_mem hcur)
    have hcarve : ∀ m, (arena t junk).carve m msg = carve t m msg := fun _ => rfl
    simp only [newMsg, newSlice, Arena.alloc, hcur, hm, Option.bind_some, hcarve]
    by_cases hfull : m.index = nSlots
    · -- the slice is taken of a new manager
      obtain ⟨H, hH, -, hnext, -⟩ := h.counts.reset (Arena.Stores.current_mem hcur)
      have hnone : carve t m msg = none := by rw [carve, alloc, if_pos hfull, Option.map_none]
      have hfresh : (new (junk s.heap.next)).index ≠ nSlots := by
        show 0 ≠ 4096 * 32
        omega
      have hc : carve t (new (junk s.heap.next)) msg = some _ := carve_eq_some.mpr ⟨hfresh, rfl⟩
      have harena : (arena t junk).fresh = fun c => new (junk c) := rfl
      rw [if_pos hfull, hnone, Option.isSome_none, if_neg Bool.false_ne_true, Owned.make_reset hlt, Arena.renew, hH, harena, alloc,
        if_neg hfresh]
      simp [hc, bindShared, Arena.handOut, Owned.set, Owned.make, hnext]
    · have hc : carve t m msg = some _ := carve_eq_some.mpr ⟨hfull, rfl⟩
      rw [if_neg hfull, hc, Option.isSome_some, if_pos rfl, alloc, if_neg hfull]
      simp [bindShared, Arena.handOut, Owned.set]

/-- At the start the arena has no values. -/
theorem holds_start (t : SliceTypes n Args β) (junk : Nat → Fin (n + 1) → Nat → β) :
    Arena.Holds (arena t junk) (start junk) Values.new :=
  ⟨fun _ => (0, 0), Arena.stores_start (A := arena t junk) (Nat.zero_le _) _⟩

/-- A manager calls no destructor twice. -/
theorem nodup_destroy (m : SliceManager n β) : (m.destroy t).Nodup := by
  refine List.nodup_flatMap.mpr ⟨?_, ?_⟩
  · intro j _
    split
    · exact List.nodup_range.map fun i i' h => (Prod.mk.inj h).2
    · exact List.nodup_nil
  · refine (List.nodup_reverse.mpr (List.nodup_finRange _)).imp ?_
    intro j k hjk ji hj hk
    refine hjk ?_
    dsimp only at hj hk
    split at hj
    · obtain ⟨i, -, rfl⟩ := List.mem_map.mp hj
      split at hk
      · obtain ⟨i', -, heq⟩ := List.mem_map.mp hk
        exact (Prod.mk.inj heq).1.symm
      · cases hk
    · cases hj

/-- A manager calls the destructor of each of its slots. -/
theorem countP_destroy (m : SliceManager n β) {j : Fin (n + 1)} (hj : t.destructs j = true) :
    (m.destroy t).countP (fun ji => ji.1 = j) = m.index := by
  have hone : ∀ k : Fin (n + 1), (if t.destructs k then (List.range m.index).map fun i => (k, i) else []).countP (fun ji => ji.1 = j) =
      if j = k then m.index else 0 := by
    intro k
    by_cases hk : j = k
    · subst hk
      rw [if_pos hj, if_pos rfl, List.countP_map, List.countP_eq_length.mpr, List.length_range]
      intro i _
      simp
    · rw [if_neg hk, List.countP_eq_zero]
      intro ji hji
      split at hji
      · obtain ⟨i, -, rfl⟩ := List.mem_map.mp hji
        simpa using Ne.symm hk
      · cases hji
  rw [destroy, List.countP_flatMap]
  have hsum : ((List.finRange (n + 1)).map fun k => if j = k then m.index else 0).sum = m.index := by
    rw [← Fin.sum_univ_def, Finset.sum_ite_eq, if_pos (Finset.mem_univ j)]
  rw [List.map_reverse, List.sum_reverse, ← hsum]
  refine congrArg _ (List.map_congr_left ?_)
  intro k _
  rw [hsum]
  exact hone k

/-- The slots given away. -/
theorem countsPlaces (t : SliceTypes n Args β) (junk : Nat → Fin (n + 1) → Nat → β) :
    Arena.CountsPlaces (arena t junk) fun m => m.index where
  fresh := fun _ => rfl
  carve := by
    intro m msg i m' hc
    obtain ⟨-, heq⟩ := carve_eq_some.mp hc
    obtain ⟨rfl, rfl⟩ := Prod.mk.inj heq
    rfl
  write := fun _ _ _ => rfl

/-- A destructor call is one of a manager that went. -/
theorem mem_destroyed {s : Source n β} {c : Nat} {ji : Fin (n + 1) × Nat} :
    (c, ji) ∈ destroyed t s ↔ ∃ m, (c, m) ∈ s.heap.freed ∧ ji ∈ m.destroy t := by
  simp only [destroyed, List.mem_flatMap, List.mem_map, Prod.exists, Prod.mk.injEq]
  constructor
  · rintro ⟨c', m, hm, j, i, hji, rfl, rfl⟩
    exact ⟨m, hm, hji⟩
  · rintro ⟨m, hm, hji⟩
    exact ⟨c, m, hm, ji.1, ji.2, hji, rfl, rfl⟩

/-- No value is destroyed twice. -/
theorem nodup_destroyed {s : Source n β} (h : (s.heap.freed.map Prod.fst).Nodup) : (destroyed t s).Nodup := by
  refine List.nodup_flatMap.mpr ⟨?_, ?_⟩
  · intro im _
    exact (nodup_destroy im.2).map fun _ _ h => (Prod.mk.inj h).2
  · rw [List.Nodup, List.pairwise_map] at h
    refine h.imp ?_
    intro im im' hne x hx hx'
    obtain ⟨_, -, rfl⟩ := List.mem_map.mp hx
    obtain ⟨_, -, heq⟩ := List.mem_map.mp hx'
    exact hne (Prod.mk.inj heq).1.symm

/-- When every manager went, the destructors of a type that were called are as many as the slots given away. -/
theorem countP_destroyed {s : Source n β} (hnone : ∀ i, s.heap.object i = none) {j : Fin (n + 1)} (hj : t.destructs j = true) :
    (destroyed t s).countP (fun x => x.2.1 = j) = s.heap.weight fun m => m.index := by
  have hzero : ∑ i ∈ Finset.range s.heap.next, (s.heap.object i).elim 0 (fun m => m.index) = 0 := by
    refine Finset.sum_eq_zero ?_
    intro i _
    rw [hnone, Option.elim_none]
  rw [Owned.weight, hzero, Nat.zero_add, destroyed, List.countP_flatMap]
  refine congrArg _ (List.map_congr_left ?_)
  intro im _
  rw [Function.comp_apply, List.countP_map]
  exact countP_destroy im.2 hj

/-- The destructors of the objects in slices: none is called twice, none is called while there is a pointer to the message, and when the
source and all its messages are gone, every object that was built and has a destructor was destroyed. -/
theorem destroyed_once (t : SliceTypes n Args β) (junk : Nat → Fin (n + 1) → Nat → β)
    (cs : List (Act (SliceMsg n Args β) (Fin (n + 1) × β))) (s : Source n β) (hrun : Lts.run (step t junk) (start junk) cs = some s) :
    (destroyed t s).Nodup ∧ (∀ c i j, (c, i) ∈ s.ptrs → (c, j, i) ∉ destroyed t s) ∧
      (s.owners = [] → ∀ j, t.destructs j = true → (destroyed t s).countP (fun x => x.2.1 = j) = Arena.allocations cs) := by
  have hfits : ∀ c ∈ cs, Arena.ActFits (arena t junk) c := by
    intro c _
    cases c <;> trivial
  have hweight := Arena.run_weight (allocates t junk) (countsPlaces t junk) hfits (holds_start t junk) hrun
  have hrel := Arena.run_refines (allocates t junk) hfits (holds_start t junk)
  have hholds : ∃ a, Arena.Holds (arena t junk) s a := by
    have hrun' : Lts.run (Pool.step (newMsg t junk) (arena t junk).write) (start junk) cs = some s := hrun
    rw [hrun'] at hrel
    generalize Lts.run (Values.step (arena t junk).build (arena t junk).poke) Values.new cs = o at hrel
    cases hrel with
    | some h => exact ⟨_, h⟩
  obtain ⟨a, loc, h⟩ := hholds
  refine ⟨nodup_destroyed h.counts.once, ?_, ?_⟩
  · intro c i j hptr hmem
    obtain ⟨m, hm, -⟩ := mem_destroyed.mp hmem
    refine ((h.counts.freed c).mp (List.mem_map.mpr ⟨_, hm, rfl⟩)).2 ?_
    exact List.mem_append_right _ (List.mem_map.mpr ⟨_, hptr, rfl⟩)
  · intro howners j hj
    have hnone : ∀ i, s.heap.object i = none := by
      intro i
      rw [← Option.not_isSome_iff_eq_none, h.counts.alive, howners]
      exact List.not_mem_nil
    rw [countP_destroyed hnone hj, hweight]
    exact Nat.zero_add _

/-- A message of one type is allocated, the source goes, and the message is dropped. -/
theorem destroyed_once_oneMessage :
    let t : SliceTypes 0 Unit Bool := { first := some fun _ => true, rest := Fin.elim0, destructs := fun _ => true }
    let cs : List (Act (SliceMsg 0 Unit Bool) (Fin 1 × Bool)) := [.alloc { args := (), filled := fun _ => none }, .close, .drop 0]
    ∃ s, Lts.run (step t fun _ _ _ => false) (start fun _ _ _ => false) cs = some s ∧ (destroyed t s).countP (fun x => x.2.1 = 0) = 1 := by
  intro t cs
  exact ⟨_, rfl, (destroyed_once t (fun _ _ _ => false) cs _ rfl).2.2 rfl 0 rfl⟩

end SliceManager

end Blockmon
