import Mathlib.Data.List.Perm.Subperm
import Blockmon.Lemmas.FlowMeterRefine
import Blockmon.Lemmas.FlowMeterTimer

/-!
# What the flow meter counts, and which flows it checks

The statements are about every sequence of messages and timers, with any clock readings, that a configured block receives.
-/

namespace Blockmon

namespace FlowMeter

/-! ## Conservation -/

/-- The packets among the events. -/
def received (events : List Input) : List Packet :=
  events.filterMap fun
    | .msg (.packet p) _ => some p
    | _ => none

/-- The counters of the record that a packet is added to do not wrap around. -/
def CountersFit (m : FlowMeter) : Input → Prop
  | .msg (.packet p) us_now => ∀ f, m.entry p.key = some f → m.activeExpired us_now f = false →
      f.packets.toNat + 1 < 2 ^ 64 ∧ f.bytes.toNat + p.length.toNat < 2 ^ 64
  | _ => True

instance (m : FlowMeter) : (e : Input) → Decidable (CountersFit m e)
  | .msg (.packet p) us_now =>
    match h : m.entry p.key with
    | none => isTrue fun f hf => by rw [h] at hf; cases hf
    | some f =>
      decidable_of_iff (m.activeExpired us_now f = false →
          f.packets.toNat + 1 < 2 ^ 64 ∧ f.bytes.toNat + p.length.toNat < 2 ^ 64)
        ⟨fun hfit g hg => by rw [h] at hg; cases hg; exact hfit, fun hfit => hfit f h⟩
  | .msg .other _ => isTrue trivial
  | .timer _ _ => isTrue trivial

/-- A packet is counted in its flow. -/
theorem countPacket_packets (m : FlowMeter) (p : Packet) (us_now : ustime) (f : Flow) :
    (m.countPacket p us_now f).packets = f.packets + 1 := by
  unfold countPacket
  dsimp only
  split
  · exact congrArg (· + 1) (Flow.expandInterval_packets f us_now)
  · exact congrArg (· + 1) (Flow.expandInterval_packets f us_now)

/-- The bytes of a packet are counted in its flow. -/
theorem countPacket_bytes (m : FlowMeter) (p : Packet) (us_now : ustime) (f : Flow) :
    (m.countPacket p us_now f).bytes = f.bytes + p.length := by
  unfold countPacket
  dsimp only
  split
  · exact congrArg (· + p.length) (Flow.expandInterval_bytes f us_now)
  · exact congrArg (· + p.length) (Flow.expandInterval_bytes f us_now)

/-- A counter of the records: zero at the start, not changed by the time stamps, and increased by a packet unless it wraps. -/
structure Counter where
  value : Flow → Nat
  amount : Packet → Nat
  fresh : ∀ k, value (Flow.new k) = 0
  reset : ∀ f : Flow, value f.reset = 0
  expand : ∀ f now, value (f.expandInterval now) = value f
  add : ∀ (m : FlowMeter) p now f, f.packets.toNat + 1 < 2 ^ 64 → f.bytes.toNat + p.length.toNat < 2 ^ 64 →
    value (m.countPacket p now f) = value f + amount p

/-- The counter of the packets. -/
def packetCounter : Counter where
  value f := f.packets.toNat
  amount _ := 1
  fresh _ := rfl
  reset _ := rfl
  expand f now := by rw [Flow.expandInterval_packets]
  add m p now f h _ := by
    rw [countPacket_packets, UInt64.toNat_add]
    exact Nat.mod_eq_of_lt h

/-- The counter of the bytes. -/
def byteCounter : Counter where
  value f := f.bytes.toNat
  amount p := p.length.toNat
  fresh _ := rfl
  reset _ := rfl
  expand f now := by rw [Flow.expandInterval_bytes]
  add m p now f _ h := by
    rw [countPacket_bytes, UInt64.toNat_add]
    exact Nat.mod_eq_of_lt h

/-- A record without packets counts a packet. -/
theorem Counter.start (c : Counter) (m : FlowMeter) (p : Packet) (us_now : ustime) {f : Flow} (hp : f.packets = 0)
    (hb : f.bytes = 0) (hf : c.value f = 0) : c.value (m.countPacket p us_now f) = c.amount p := by
  have hlen := p.length.toNat_lt
  have hadd := c.add m p us_now f (by rw [hp]; decide) (by rw [hb, UInt64.toNat_zero, Nat.zero_add]; exact hlen)
  rw [hadd, hf, Nat.zero_add]

/-- What an event adds to the total of a key. -/
theorem step_total (c : Counter) {m m' : FlowMeter} {e : Input} (h : Linked m) (hfit : CountersFit m e)
    (hs : m.step e = some m') (k : FlowKey) :
    (abs m').total c.value k = (abs m).total c.value k + (((received [e]).filter (·.key = k)).map c.amount).sum := by
  obtain ⟨-, hstep⟩ := step_refines h hs
  cases e with
  | msg msg us_now =>
    cases msg with
    | other =>
      rw [tableStep, Option.some.injEq] at hstep
      rw [← hstep]
      rfl
    | packet p =>
      rw [tableStep, Option.some.injEq] at hstep
      rw [← hstep, FlowTable.receive_total h.keyed c.value (c.amount p) (fun f => c.expand f us_now)
        (c.start m p us_now rfl rfl (c.fresh p.key)) (fun f => c.start m p us_now rfl rfl (c.reset f))
        (fun f hf hlong => c.add m p us_now f (hfit f hf hlong).1 (hfit f hf hlong).2)]
      have hrec : received [Input.msg (.packet p) us_now] = [p] := rfl
      rw [hrec]
      by_cases hk : p.key = k
      · simp [hk]
      · simp [hk]
  | timer tnow fuel => exact FlowTable.check_total h.keyed hstep c.value k

/-- The total of a key is what its packets count for. -/
theorem run_total (c : Counter) {m₀ m : FlowMeter} {events : List Input} (h₀ : Linked m₀) (hempty : abs m₀ = FlowTable.empty)
    (hfit : Lts.Along step CountersFit m₀ events) (hr : Lts.run step m₀ events = some m) (k : FlowKey) :
    (abs m).total c.value k = (((received events).filter (·.key = k)).map c.amount).sum := by
  have hinv : Linked m ∧ (abs m).total c.value k = (((received events).filter (·.key = k)).map c.amount).sum := by
    refine Lts.run_inv_of_labels (G := fun _ => True)
      (I := fun es u => Linked u ∧ (abs u).total c.value k = (((received es).filter (·.key = k)).map c.amount).sum)
      (fun _ _ _ => trivial) ?_ ⟨h₀, ?_⟩ trivial hfit hr
    · rintro es u e u' - ⟨hu, htotal⟩ hfit hs
      refine ⟨(step_refines hu hs).1, ?_⟩
      have happend : received (es ++ [e]) = received es ++ received [e] := List.filterMap_append ..
      rw [step_total c hu hfit hs k, htotal, happend, List.filter_append, List.map_append, List.sum_append]
    · rw [hempty]
      rfl
  exact hinv.2

/-- The flow meter conserves traffic. For every configuration, every sequence of messages and returning timers with any clock
readings in which no 64-bit counter wraps around, and every key: the packets and the bytes of the records sent out for the key
and of its record in the table are those of the packets received with the key. -/
theorem totals_conserved (n : FlowMeterParams) (m₀ m : FlowMeter) (events : List Input) (hc : configured n = some m₀)
    (hr : Lts.run step m₀ events = some m) (hfit : Lts.Along step CountersFit m₀ events) (key : FlowKey) :
    ((m.exported.filter (·.key = key)).map (·.packets.toNat)).sum + (m.entry key).elim 0 (·.packets.toNat) =
      ((received events).filter (·.key = key)).length ∧
    ((m.exported.filter (·.key = key)).map (·.bytes.toNat)).sum + (m.entry key).elim 0 (·.bytes.toNat) =
      (((received events).filter (·.key = key)).map (·.length.toNat)).sum := by
  obtain ⟨h₀, hempty⟩ := configured_linked hc
  have hpackets := run_total packetCounter h₀ hempty hfit hr key
  have hbytes := run_total byteCounter h₀ hempty hfit hr key
  have hones : (((received events).filter (·.key = key)).map packetCounter.amount).sum =
      ((received events).filter (·.key = key)).length := by
    have hconst : packetCounter.amount = fun _ => 1 := rfl
    rw [hconst, List.map_const', List.sum_replicate_nat, Nat.mul_one]
  exact ⟨hpackets.trans hones, hbytes⟩

/-- Parameters that leave every default as it is: an idle timeout of 500 ms and an active timeout of 100 ms. -/
def defaultParams : FlowMeterParams := { idleTimeout := none, activeTimeout := none, storePackets := none }

/-- The key of a flow from the address `i`. -/
def keyOf (i : Nat) : FlowKey := ⟨UInt32.ofNat i, 0, 0, 0, 0⟩

/-- Two packets of a flow a second apart, so that the first one is exported before the second one is counted; then a timer that
expires the flow, and a packet that starts it again. -/
def exportEvents : List Input :=
  [.msg (.packet ⟨keyOf 1, 100⟩) 1000000, .msg (.packet ⟨keyOf 1, 50⟩) 2000000, .timer 10000000 2,
    .msg (.packet ⟨keyOf 1, 7⟩) 11000000]

/-- The first two packets were exported, one by the active timeout and one by the idle timeout, and the third is in the table. -/
theorem totals_conserved_export : ∃ m₀ m, configured defaultParams = some m₀ ∧ Lts.run step m₀ exportEvents = some m ∧
    m.exported.map (·.bytes) = [100, 50] ∧
    ((m.exported.filter (·.key = keyOf 1)).map (·.bytes.toNat)).sum + (m.entry (keyOf 1)).elim 0 (·.bytes.toNat) = 157 := by
  have hrun : ((configured defaultParams).bind fun m₀ => (Lts.run step m₀ exportEvents).map fun m =>
      decide (Lts.Along step CountersFit m₀ exportEvents ∧ m.exported.map (·.bytes) = [100, 50])) = some true := by
    decide +kernel
  simp only [Option.bind_eq_some_iff, Option.map_eq_some_iff, decide_eq_true_eq] at hrun
  obtain ⟨m₀, hc, m, hr, hfit, hbytes⟩ := hrun
  refine ⟨m₀, m, hc, hr, hbytes, ?_⟩
  rw [(totals_conserved defaultParams m₀ m exportEvents hc hr hfit (keyOf 1)).2]
  decide +kernel

/-! ## The flows that are checked -/

/-- Every flow of the table has exactly one slot in the queue, and the flow of every slot is the table entry for its key. -/
def Represented (m : FlowMeter) : Prop :=
  (∀ k r, m.flowTable k = some r → (m.slots.map QueueSlot.flowPtr).count (some r) = 1) ∧
  ∀ s ∈ m.slots, ∃ r, s.flowPtr = some r ∧ m.flowTable (m.heap r).key = some r

/-- A packet of a flow that is not in the table finds a free slot. -/
def HasRoom (m : FlowMeter) : Input → Prop
  | .msg (.packet p) _ => m.flowTable p.key = none → m.slots.length + 1 < Q_SIZE
  | _ => True

instance (m : FlowMeter) : (e : Input) → Decidable (HasRoom m e)
  | .msg (.packet p) _ => inferInstanceAs (Decidable (m.flowTable p.key = none → m.slots.length + 1 < Q_SIZE))
  | .msg .other _ => isTrue trivial
  | .timer _ _ => isTrue trivial

/-- The record of a key has a slot exactly when the key is one of those to be checked. -/
theorem Linked.mem_keys_iff {m : FlowMeter} (h : Linked m) {k : FlowKey} {r : Nat} (hk : m.flowTable k = some r) :
    k ∈ (abs m).keys ↔ some r ∈ m.slots.map QueueSlot.flowPtr := by
  constructor
  · intro hmem
    obtain ⟨q, hq, rfl⟩ := List.mem_map.mp hmem
    obtain ⟨s, hs, rfl⟩ := List.mem_map.mp hq
    obtain ⟨j, hj, htable⟩ := h.slot s hs
    rw [absSlot, hj] at hk
    have hjr : j = r := Option.some.inj (htable.symm.trans hk)
    exact List.mem_map.mpr ⟨s, hs, hjr ▸ hj⟩
  · intro hmem
    obtain ⟨s, hs, hptr⟩ := List.mem_map.mp hmem
    refine List.mem_map.mpr ⟨absSlot m.heap s, List.mem_map.mpr ⟨s, hs, rfl⟩, ?_⟩
    rw [absSlot, hptr]
    exact (h.table k r hk).2

/-- A table with its lists represents its flows just when they cover it. -/
theorem Linked.represented_iff {m : FlowMeter} (h : Linked m) : Represented m ↔ (abs m).Covered := by
  constructor
  · rintro ⟨hone, -⟩ k f hf
    obtain ⟨r, hr, rfl⟩ := Option.map_eq_some_iff.mp hf
    refine (h.mem_keys_iff hr).mpr (List.count_pos_iff.mp ?_)
    rw [hone k r hr]
    exact Nat.one_pos
  · intro hc
    refine ⟨fun k r hr => List.count_eq_one_of_mem h.nodup ?_, h.slot⟩
    exact (h.mem_keys_iff hr).mp (hc k (m.heap r) (abs_entries_of_table hr))

/-- An event leaves every flow with a slot exactly when every flow had one and a new flow finds a free slot. -/
theorem step_covered_iff {m m' : FlowMeter} {e : Input} (h : Linked m) (hs : m.step e = some m') :
    (abs m').Covered ↔ (abs m).Covered ∧ HasRoom m e := by
  obtain ⟨-, hstep⟩ := step_refines h hs
  cases e with
  | msg msg us_now =>
    cases msg with
    | other =>
      rw [tableStep, Option.some.injEq] at hstep
      rw [← hstep]
      exact (and_iff_left trivial).symm
    | packet p =>
      rw [tableStep, Option.some.injEq] at hstep
      have hlen : (abs m).slots.length = m.slots.length := List.length_map _
      have hroom : m.slots.length < Q_SIZE - 1 ↔ m.slots.length + 1 < Q_SIZE := by omega
      rw [← hstep, FlowTable.receive_covered_iff h.keyed, abs_entries_eq_none, hlen, hroom]
      rfl
  | timer tnow fuel => exact (FlowTable.check_covered_iff hstep).trans (and_iff_left trivial).symm

/-- Every flow has a slot at the end of a run exactly when every packet of a new flow found a free one. -/
theorem run_covered_iff {m₀ : FlowMeter} (h₀ : Linked m₀) (hcov : (abs m₀).Covered) {events : List Input} : ∀ {m : FlowMeter},
    Lts.run step m₀ events = some m → Linked m ∧ ((abs m).Covered ↔ Lts.Along step HasRoom m₀ events) := by
  induction events using List.reverseRecOn with
  | nil =>
    intro m hr
    cases hr
    exact ⟨h₀, iff_of_true hcov trivial⟩
  | append_singleton es e ih =>
    intro m hr
    obtain ⟨u, hu, hs⟩ := Lts.run_snoc_eq_some.mp hr
    obtain ⟨hlinked, hiff⟩ := ih hu
    refine ⟨(step_refines hlinked hs).1, ?_⟩
    have hlast : (∀ t, Lts.run step m₀ es = some t → HasRoom t e) ↔ HasRoom u e := by
      rw [hu]
      exact ⟨fun h => h u rfl, fun h t ht => by cases ht; exact h⟩
    rw [step_covered_iff hlinked hs, hiff, Lts.along_snoc, hlast]

/-- The queue and the table agree in a state exactly when every packet of a new flow so far found a free slot in the queue: after
one that did not, the flow stays in the table without a slot. -/
theorem represented_iff_hasRoom (n : FlowMeterParams) (m₀ m : FlowMeter) (events : List Input) (hc : configured n = some m₀)
    (hr : Lts.run step m₀ events = some m) : Represented m ↔ Lts.Along step HasRoom m₀ events := by
  obtain ⟨h₀, hempty⟩ := configured_linked hc
  have hcov : (abs m₀).Covered := by
    rw [hempty]
    exact FlowTable.covered_empty
  obtain ⟨hlinked, hiff⟩ := run_covered_iff h₀ hcov hr
  exact hlinked.represented_iff.trans hiff

/-- The table in the run with the exports. -/
theorem represented_iff_hasRoom_export : ∃ m₀ m, configured defaultParams = some m₀ ∧
    Lts.run step m₀ exportEvents = some m ∧ Represented m := by
  have hrun : ((configured defaultParams).bind fun m₀ => (Lts.run step m₀ exportEvents).map fun _ =>
      decide (Lts.Along step HasRoom m₀ exportEvents)) = some true := by
    decide +kernel
  simp only [Option.bind_eq_some_iff, Option.map_eq_some_iff, decide_eq_true_eq] at hrun
  obtain ⟨m₀, hc, m, hr, hroom⟩ := hrun
  exact ⟨m₀, m, hc, hr, (represented_iff_hasRoom defaultParams m₀ m exportEvents hc hr).mpr hroom⟩

/-- Every packet has a record after a sequence of packets, and no record is lost. -/
theorem run_packets (us_now : ustime) : ∀ (ps : List Packet) {m : FlowMeter}, Linked m → ∃ m',
    Lts.run step m (ps.map fun p => .msg (.packet p) us_now) = some m' ∧ Linked m' ∧
      ∀ k, (k ∈ ps.map Packet.key ∨ ∃ f, (abs m).entries k = some f) → ∃ f, (abs m').entries k = some f := by
  intro ps
  induction ps with
  | nil =>
    intro m h
    exact ⟨m, rfl, h, fun k hk => hk.resolve_left fun hmem => by cases hmem⟩
  | cons p ps ih =>
    intro m h
    obtain ⟨h₁, habs₁⟩ := receiveMsg_refines h p us_now
    obtain ⟨m', hr, h', hall⟩ := ih h₁
    refine ⟨m', hr, h', fun k hk => hall k ?_⟩
    rw [habs₁]
    by_cases hkk : k = p.key
    · subst hkk
      obtain ⟨f, hf⟩ := FlowTable.receive_entries_self (abs m) (Q_SIZE - 1) (m.activeExpired us_now) (m.countPacket p us_now) p us_now
      exact Or.inr ⟨_, hf⟩
    · rw [FlowTable.receive_entries_of_ne hkk]
      exact hk.imp_left fun hmem => (List.mem_cons.mp hmem).resolve_left hkk

/-- As many flows as the queue has cells. -/
def floodPackets : List Packet := (List.range Q_SIZE).map fun i => { key := keyOf i, length := 1 }

/-- The packets of the flood have different keys. -/
theorem floodPackets_nodup : (floodPackets.map Packet.key).Nodup := by
  rw [floodPackets, List.map_map]
  refine List.nodup_range.map_on fun i hi j hj heq => ?_
  have hsrc : UInt32.ofNat i = UInt32.ofNat j := congrArg FlowKey.src_ip4 heq
  have hsize : Q_SIZE < UInt32.size := by decide
  rw [List.mem_range] at hi hj
  have hnat := congrArg UInt32.toNat hsrc
  rwa [UInt32.toNat_ofNat_of_lt' (hi.trans hsize), UInt32.toNat_ofNat_of_lt' (hj.trans hsize)] at hnat

/-- One packet of each of 131072 flows: the last one finds the queue full, and its flow stays in the table without a slot. -/
theorem not_represented_of_flood : ¬∀ (m₀ m : FlowMeter) (events : List Input), configured defaultParams = some m₀ →
    Lts.run step m₀ events = some m → Represented m := by
  intro hall
  obtain ⟨m₀, hc⟩ : ∃ m₀, configured defaultParams = some m₀ := ⟨_, rfl⟩
  obtain ⟨m, hr, hlinked, hentries⟩ := run_packets 1000000 floodPackets (configured_linked hc).1
  have hcov := hlinked.represented_iff.mp (hall m₀ m _ hc hr)
  -- all the keys of the flood would be in the queue, which has one cell less
  have hsub : floodPackets.map Packet.key ⊆ (abs m).keys := by
    intro k hk
    obtain ⟨f, hf⟩ := hentries k (Or.inl hk)
    exact hcov k f hf
  have hle := (floodPackets_nodup.subperm hsub).length_le
  have hlen : (abs m).keys.length = m.slots.length := by rw [FlowTable.keys, abs, List.length_map, List.length_map]
  have hlt := m.length_slots_lt
  rw [hlen, List.length_map, floodPackets, List.length_map, List.length_range] at hle
  omega

end FlowMeter

end Blockmon

/-!
## Idle expiry of the flow meter

For a timeout and clock readings in the intended range the timer exports and erases exactly the idle flows. What the 32-bit product
and the 64-bit difference do outside of that range is stated exactly.
-/

namespace Blockmon

namespace FlowMeter

/-! ## Exactness -/

/-- The clock readings that the handlers made. A message of a wrong type is refused before the clock is read. -/
def clocks (events : List Input) : List ustime :=
  events.filterMap fun
    | .msg (.packet _) us_now => some us_now
    | .msg .other _ => none
    | .timer tnow _ => some tnow

/-- The clock readings of the timer handler. -/
def timerClocks (events : List Input) : List ustime :=
  events.filterMap fun
    | .msg _ _ => none
    | .timer tnow _ => some tnow

/-- The clock readings do not decrease, and those of the timer handler are at least `us` apart. -/
def Paced (us : Nat) (events : List Input) : Prop :=
  (clocks events).IsChain (· ≤ ·) ∧ (timerClocks events).IsChain fun a b => a.toNat + us ≤ b.toNat

/-- The last of the readings, or zero. -/
def lastOf (ts : List ustime) : ustime := ts.getLast?.getD 0

/-- The last time of a list. -/
@[simp] theorem lastOf_append (ts : List ustime) (t : ustime) : lastOf (ts ++ [t]) = t := by
  simp [lastOf]

/-- In order, the last time is not after the next. -/
theorem lastOf_le {ts : List ustime} {t : ustime} (h : (ts ++ [t]).IsChain (· ≤ ·)) : lastOf ts ≤ t := by
  obtain ⟨-, -, hlast⟩ := List.isChain_append.mp h
  unfold lastOf
  cases hx : ts.getLast? with
  | none => exact UInt64.zero_le
  | some x => exact hlast x hx t rfl

/-- With a pause in between, it is that much before it. -/
theorem lastOf_add_le {us : Nat} {ts : List ustime} {t : ustime} (h : (ts ++ [t]).IsChain fun a b => a.toNat + us ≤ b.toNat)
    (ht : us ≤ t.toNat) : (lastOf ts).toNat + us ≤ t.toNat := by
  obtain ⟨-, -, hlast⟩ := List.isChain_append.mp h
  unfold lastOf
  cases hx : ts.getLast? with
  | none => simpa using ht
  | some x => exact hlast x hx t rfl

/-- The times of two parts. -/
theorem clocks_append (es es' : List Input) : clocks (es ++ es') = clocks es ++ clocks es' := List.filterMap_append ..

/-- The times of the timer events of two parts. -/
theorem timerClocks_append (es es' : List Input) : timerClocks (es ++ es') = timerClocks es ++ timerClocks es' :=
  List.filterMap_append ..

/-- What is paced is paced up to any event. -/
theorem Paced.of_append {us : Nat} {es es' : List Input} (h : Paced us (es ++ es')) : Paced us es := by
  obtain ⟨h1, h2⟩ := h
  rw [clocks_append] at h1
  rw [timerClocks_append] at h2
  exact ⟨(List.isChain_append.mp h1).1, (List.isChain_append.mp h2).1⟩

/-- A counted packet ends its flow at the earliest now. -/
theorem le_countPacket_etime (m : FlowMeter) (p : Packet) (us_now : ustime) (f : Flow) :
    us_now ≤ (m.countPacket p us_now f).etime := by
  rw [countPacket_etime]
  exact Flow.le_expandInterval_etime f us_now

/-- An event keeps the slots tidy. -/
theorem step_tidy {us : Nat} {es : List Input} {e : Input} {m m' : FlowMeter} (hpaced : Paced us (es ++ [e]))
    (hmin : ∀ t ∈ clocks (es ++ [e]), us ≤ t.toNat) (h : Linked m)
    (ht : (abs m).Tidy (lastOf (clocks es)) (lastOf (timerClocks es))) (hs : m.step e = some m') :
    (abs m').Tidy (lastOf (clocks (es ++ [e]))) (lastOf (timerClocks (es ++ [e]))) := by
  obtain ⟨hclock, htimer⟩ := hpaced
  obtain ⟨-, hstep⟩ := step_refines h hs
  rw [clocks_append] at hclock hmin ⊢
  rw [timerClocks_append] at htimer ⊢
  cases e with
  | msg msg us_now =>
    cases msg with
    | other =>
      rw [tableStep, Option.some.injEq] at hstep
      rw [← hstep]
      simpa [clocks, timerClocks] using ht
    | packet p =>
      rw [tableStep, Option.some.injEq] at hstep
      have hc : clocks [Input.msg (.packet p) us_now] = [us_now] := rfl
      have ht' : timerClocks [Input.msg (.packet p) us_now] = [] := rfl
      rw [hc] at hclock
      rw [hc, ht', ← hstep, lastOf_append, List.append_nil]
      exact FlowTable.receive_tidy ht (lastOf_le hclock) (le_countPacket_etime m p us_now)
  | timer tnow fuel =>
    have hc : clocks [Input.timer tnow fuel] = [tnow] := rfl
    have ht' : timerClocks [Input.timer tnow fuel] = [tnow] := rfl
    rw [hc] at hclock hmin
    rw [ht'] at htimer
    rw [hc, ht', lastOf_append, lastOf_append]
    have hle : (lastOf (timerClocks es)).toNat + us ≤ tnow.toNat :=
      lastOf_add_le htimer (hmin tnow (List.mem_append_right _ (List.mem_singleton_self _)))
    exact FlowTable.check_tidy ht (lastOf_le hclock) (UInt64.le_iff_toNat_le.mpr (by omega)) hstep

/-- The slots are tidy after every paced run. -/
theorem run_tidy (us : Nat) {m₀ m : FlowMeter} {events : List Input} (h₀ : Linked m₀) (hempty : abs m₀ = FlowTable.empty)
    (hpaced : Paced us events) (hmin : ∀ t ∈ clocks events, us ≤ t.toNat) (hroom : Lts.Along step HasRoom m₀ events)
    (hr : Lts.run step m₀ events = some m) : (abs m).Tidy (lastOf (clocks events)) (lastOf (timerClocks events)) := by
  have hinv : Linked m ∧ (abs m).Tidy (lastOf (clocks events)) (lastOf (timerClocks events)) := by
    refine Lts.run_inv_of_labels (G := fun es => Paced us es ∧ ∀ t ∈ clocks es, us ≤ t.toNat)
      (I := fun es u => Linked u ∧ (abs u).Tidy (lastOf (clocks es)) (lastOf (timerClocks es)))
      (fun es e hg => ⟨hg.1.of_append, fun t ht => hg.2 t (by rw [clocks_append]; exact List.mem_append_left _ ht)⟩) ?_
      ⟨h₀, by rw [hempty]; exact FlowTable.tidy_empty⟩ ⟨hpaced, hmin⟩ hroom hr
    rintro es u e u' ⟨hp, hm⟩ ⟨hu, ht⟩ - hs
    exact ⟨(step_refines hu hs).1, step_tidy hp hm hu ht hs⟩
  exact hinv.2

/-- Idle expiry is exact. Take an idle timeout from 1 to 2147483 ms, and a run in which the clock readings do not decrease and are
at least the timeout, those of the timer handler are at least the timeout apart, and every new flow finds a slot in the queue. Then
the next call of the timer handler returns; it sends out every flow that ended before the timeout exactly once and erases it, and
leaves the others in the table and does not send them. -/
theorem idle_expiry_exact (n : FlowMeterParams) (m₀ m : FlowMeter) (events : List Input) (tnow : ustime)
    (hc : configured n = some m₀) (hlow : 1 ≤ n.idleMs.toNat) (hhigh : n.idleMs.toNat ≤ 2147483)
    (hr : Lts.run step m₀ events = some m) (hroom : Lts.Along step HasRoom m₀ events)
    (hclock : (clocks events ++ [tnow]).IsChain (· ≤ ·))
    (hmin : ∀ t ∈ clocks events ++ [tnow], n.idleMs.toNat * 1000 ≤ t.toNat)
    (hapart : (timerClocks events ++ [tnow]).IsChain fun a b => a.toNat + n.idleMs.toNat * 1000 ≤ b.toNat) :
    (∃ fuel m', m.handleTimer tnow fuel = some m') ∧
    ∀ fuel m', m.handleTimer tnow fuel = some m' → ∃ out, m'.exported = m.exported ++ out ∧ ∀ k,
      out.filter (·.key = k) = ((m.entry k).filter (·.endTime.toNat + n.idleMs.toNat * 1000 < tnow.toNat)).toList ∧
      m'.entry k = (m.entry k).filter (¬·.endTime.toNat + n.idleMs.toNat * 1000 < tnow.toNat) := by
  obtain ⟨h₀, hempty⟩ := configured_linked hc
  have hlinked := run_linked h₀ hr
  have hcov : (abs m).Covered := by
    refine (run_covered_iff h₀ ?_ hr).2.mpr hroom
    rw [hempty]
    exact FlowTable.covered_empty
  have htidy := run_tidy (n.idleMs.toNat * 1000) h₀ hempty
    ⟨(List.isChain_append.mp hclock).1, (List.isChain_append.mp hapart).1⟩ (fun t ht => hmin t (List.mem_append_left _ ht)) hroom hr
  have hnow := hmin tnow (List.mem_append_right _ (List.mem_singleton_self _))
  have hlimit : (m.usLimit tnow).toNat = tnow.toNat - n.idleMs.toNat * 1000 := by
    have hint := limit_toNat hc tnow
    rw [(wrapped_spec _).2.2.1 hhigh] at hint
    have := tnow.toNat_lt
    rw [usLimit_of_settings (run_settings hr)]
    omega
  have hexpired : ∀ f : Flow, f.etime < m.usLimit tnow ↔ f.endTime.toNat + n.idleMs.toNat * 1000 < tnow.toNat := by
    intro f
    rw [UInt64.lt_iff_toNat_lt, hlimit, Flow.endTime]
    omega
  obtain ⟨fuel, t', hcheck, out, hout, hkeys⟩ := FlowTable.check_exact tnow (m.usLimit tnow) hlinked.keyed htidy
    (UInt64.lt_iff_toNat_lt.mpr (by omega)) (UInt64.le_iff_toNat_le.mpr (by have := lastOf_add_le hapart hnow; omega))
  obtain ⟨m', hm', rfl⟩ := (handleTimer_eq_some hlinked).mp hcheck
  refine ⟨⟨fuel, m', hm'⟩, fun fuel₂ m₂ h₂ => ?_⟩
  obtain rfl := handleTimer_unique hm' h₂
  refine ⟨out, hout, fun k => ?_⟩
  simp only [hexpired] at hkeys
  by_cases hk : k ∈ (abs m).keys
  · obtain ⟨hentry, hone⟩ := (hkeys k).1 hk
    exact ⟨hone, hentry⟩
  · obtain ⟨hentry, hnone⟩ := (hkeys k).2 hk
    have hno : m.entry k = none := by
      cases hf : m.entry k with
      | none => rfl
      | some f => exact absurd (hcov k f hf) hk
    rw [hno]
    exact ⟨hnone, hentry.trans hno⟩

/-- A flow that ends before a first timer and one that begins after it. -/
def pacedEvents : List Input :=
  [.msg (.packet ⟨keyOf 1, 100⟩) 1200000, .timer 1600000 2, .msg (.packet ⟨keyOf 2, 100⟩) 1900000]

/-- With the default timeout of 500 ms, the next timer expires the first flow and keeps the second one. -/
theorem idle_expiry_exact_two_flows : ∃ m₀ m fuel m', configured defaultParams = some m₀ ∧
    Lts.run step m₀ pacedEvents = some m ∧ m.handleTimer 2200000 fuel = some m' ∧
    (m.entry (keyOf 1)).isSome = true ∧ m'.entry (keyOf 1) = none ∧ (m'.entry (keyOf 2)).isSome = true := by
  have hrun : ((configured defaultParams).bind fun m₀ => (Lts.run step m₀ pacedEvents).map fun m =>
      decide (Lts.Along step HasRoom m₀ pacedEvents ∧ (m.entry (keyOf 1)).map Flow.endTime = some 1200000 ∧
        (m.entry (keyOf 2)).map Flow.endTime = some 1900000)) = some true := by
    decide +kernel
  simp only [Option.bind_eq_some_iff, Option.map_eq_some_iff, decide_eq_true_eq] at hrun
  obtain ⟨m₀, hc, m, hr, hroom, ⟨f, hf, hend⟩, ⟨g, hg, hend'⟩⟩ := hrun
  obtain ⟨⟨fuel, m', hm'⟩, hexact⟩ := idle_expiry_exact defaultParams m₀ m pacedEvents 2200000 hc (by decide) (by decide) hr hroom
    (by decide) (List.forall_iff_forall_mem.mp (by decide)) (by decide)
  obtain ⟨out, -, hkeys⟩ := hexact fuel m' hm'
  refine ⟨m₀, m, fuel, m', hc, hr, hm', by rw [hf]; rfl, ?_, ?_⟩
  · rw [(hkeys (keyOf 1)).2, hf, Option.filter_some_neg]
    rw [hend]
    decide
  · rw [(hkeys (keyOf 2)).2, hg, Option.filter_some_pos]
    · rfl
    · rw [hend']
      decide

/-! ## Safety for every configuration -/

/-- A timer at `tnow` is safe in a state, for a timeout of `ms` milliseconds: the handler returns, and it sends out and erases a
flow only if the flow has been idle for longer than the timeout. -/
def ExpirySafe (ms : Nat) (tnow : ustime) (m : FlowMeter) : Prop :=
  (∃ fuel m', m.handleTimer tnow fuel = some m') ∧
  ∀ fuel m', m.handleTimer tnow fuel = some m' →
    (∃ out, m'.exported = m.exported ++ out ∧ ∀ f ∈ out, f.endTime.toNat + ms * 1000 < tnow.toNat) ∧
    ∀ k f, m.entry k = some f → m'.entry k = none → f.endTime.toNat + ms * 1000 < tnow.toNat

/-- The limit is before the timer, and it is zero or the timeout before it: then the timer is safe. -/
theorem expirySafe_of_limit {m : FlowMeter} (h : Linked m) {ms : Nat} {tnow : ustime} (hlt : (m.usLimit tnow).toNat < tnow.toNat)
    (hlimit : (m.usLimit tnow).toNat = 0 ∨ (m.usLimit tnow).toNat + ms * 1000 ≤ tnow.toNat) : ExpirySafe ms tnow m := by
  have hold : ∀ f : Flow, f.etime < m.usLimit tnow → f.endTime.toNat + ms * 1000 < tnow.toNat := by
    intro f hf
    rw [UInt64.lt_iff_toNat_lt] at hf
    rw [Flow.endTime]
    omega
  constructor
  · obtain ⟨fuel, t', hcheck, -⟩ := FlowTable.check_ends (UInt64.lt_iff_toNat_lt.mpr hlt) [] h.keyed (List.append_nil _).symm
      (fun z hz => by cases hz)
    obtain ⟨m', hm', -⟩ := (handleTimer_eq_some h).mp hcheck
    exact ⟨fuel, m', hm'⟩
  · intro fuel m' hm'
    obtain ⟨out, hout, hexp, hkeep⟩ := FlowTable.check_only ((handleTimer_eq_some h).mpr ⟨m', hm', rfl⟩)
    refine ⟨⟨out, hout, fun f hf => hold f (hexp f hf)⟩, fun k f hf hnone => ?_⟩
    rcases hkeep k f hf with hsome | ⟨-, hlt⟩
    · cases hsome.symm.trans hnone
    · exact hold f hlt

/-- The record of a flow with one packet ends with the packet. -/
theorem countPacket_new_etime (m : FlowMeter) (p : Packet) (us_now : ustime) (k : FlowKey) :
    (m.countPacket p us_now (Flow.new k)).etime = us_now := by
  rw [countPacket_etime]
  rcases Flow.expandInterval_etime (Flow.new k) us_now with h | ⟨h, hle⟩
  · exact h
  · rw [h]
    have hzero : us_now.toNat ≤ 0 := UInt64.le_iff_toNat_le.mp hle
    exact UInt64.toNat_inj.mp (Nat.le_zero.mp hzero).symm

/-- A configured block that received one packet has the record of its flow and one slot. -/
theorem one_packet {n : FlowMeterParams} {m₀ : FlowMeter} (hc : configured n = some m₀) (us_now : ustime) :
    ∃ m f, Lts.run step m₀ [.msg (.packet ⟨keyOf 1, 1⟩) us_now] = some m ∧ Linked m ∧ (abs m).slots = [(keyOf 1, us_now)] ∧
      (abs m).entries (keyOf 1) = some f ∧ f.etime = us_now := by
  obtain ⟨h₀, hempty⟩ := configured_linked hc
  obtain ⟨h, habs⟩ := receiveMsg_refines h₀ ⟨keyOf 1, 1⟩ us_now
  refine ⟨_, m₀.countPacket ⟨keyOf 1, 1⟩ us_now (Flow.new (keyOf 1)), rfl, h, ?_, ?_, countPacket_new_etime ..⟩
  · rw [habs, hempty]
    rfl
  · rw [habs, hempty]
    simp [FlowTable.receive, FlowTable.empty]

/-- If a timer is safe after one packet, then the limit does not make the handler expire the packet's flow too early, and it is
not the packet's own time. -/
theorem ExpirySafe.one_packet {n : FlowMeterParams} {m₀ : FlowMeter} (hc : configured n = some m₀) {ms : Nat} {tnow : ustime}
    (hsafe : ∀ events m, Lts.run step m₀ events = some m → ExpirySafe ms tnow m) (us_now : ustime) :
    (us_now < m₀.usLimit tnow → us_now.toNat + ms * 1000 < tnow.toNat) ∧ ¬(us_now = m₀.usLimit tnow ∧ us_now = tnow) := by
  obtain ⟨m, f, hr, hlinked, hslots, hentry, hetime⟩ := FlowMeter.one_packet hc us_now
  have hlimit := usLimit_of_settings (run_settings hr) tnow
  obtain ⟨⟨fuel, m', hm'⟩, honly⟩ := hsafe _ m hr
  constructor
  · intro hlt
    rw [← hlimit, ← hetime] at hlt
    obtain ⟨m₁, hm₁, habs₁⟩ := (handleTimer_eq_some hlinked).mp (FlowTable.check_single hslots hentry hlt)
    have hgone : (abs m₁).entries (keyOf 1) = none := by
      rw [habs₁]
      exact FlowTable.expire_entries_self
    have hidle := (honly 2 m₁ hm₁).2 (keyOf 1) f hentry hgone
    rwa [Flow.endTime, hetime] at hidle
  · rintro ⟨heq, rfl⟩
    have hself : ¬us_now < m.usLimit us_now ∧ ¬us_now > m.usLimit us_now := by
      rw [hlimit, ← heq]
      exact ⟨UInt64.lt_irrefl us_now, UInt64.lt_irrefl us_now⟩
    have hloop := FlowTable.check_single_loops (keyOf 1) f (by rw [hetime]; exact hself.1) hself.2 fuel hslots hentry
      hself.2
    have hends := (handleTimer_eq_some hlinked).mpr ⟨m', hm', rfl⟩
    rw [hloop] at hends
    cases hends

/-- A timer at `tnow` is safe in every state that a block can reach exactly when the timeout is from 1 to 2147483 ms and the clock
is at least the timeout; or the product, wrapped to 32 bits, is positive and equal to the clock; or it is negative and the clock is
so close to its end that the difference wraps around. -/
theorem expiry_safe_iff (n : FlowMeterParams) (m₀ : FlowMeter) (hc : configured n = some m₀) (tnow : ustime) :
    (∀ events m, Lts.run step m₀ events = some m → ExpirySafe n.idleMs.toNat tnow m) ↔
      (1 ≤ n.idleMs.toNat ∧ n.idleMs.toNat ≤ 2147483 ∧ n.idleMs.toNat * 1000 ≤ tnow.toNat) ∨
      (0 < wrapped n.idleMs.toNat ∧ (tnow.toNat : Int) = wrapped n.idleMs.toNat) ∨
      (wrapped n.idleMs.toNat < 0 ∧ 2 ^ 64 ≤ (tnow.toNat : Int) - wrapped n.idleMs.toNat) := by
  refine Iff.trans ?_ (limit_condition n.idleMs.toNat_lt tnow.toNat_lt (limit_toNat hc tnow))
  constructor
  · intro hsafe
    have hlt : (m₀.usLimit tnow).toNat < tnow.toNat := by
      -- otherwise a flow whose packet comes with the timer is expired at once, or is checked for ever
      obtain ⟨hearly, hloop⟩ := ExpirySafe.one_packet hc hsafe tnow
      by_contra hge
      rcases Nat.lt_or_eq_of_le (Nat.not_lt.mp hge) with hlt | heq
      · have := hearly (UInt64.lt_iff_toNat_lt.mpr hlt)
        omega
      · exact hloop ⟨UInt64.toNat_inj.mp heq, rfl⟩
    refine ⟨hlt, ?_⟩
    -- a flow whose packet came just before the limit is expired
    obtain ⟨hearly, -⟩ := ExpirySafe.one_packet hc hsafe (m₀.usLimit tnow - 1)
    rcases Nat.eq_zero_or_pos (m₀.usLimit tnow).toNat with hzero | hpos
    · exact Or.inl hzero
    · have hprev : (m₀.usLimit tnow - 1).toNat = (m₀.usLimit tnow).toNat - 1 :=
        UInt64.toNat_sub_of_le _ _ (UInt64.le_iff_toNat_le.mpr hpos)
      have := hearly (UInt64.lt_iff_toNat_lt.mpr (by omega))
      omega
  · rintro ⟨hlt, hlimit⟩ events m hr
    rw [← usLimit_of_settings (run_settings hr)] at hlt hlimit
    exact expirySafe_of_limit (run_linked (configured_linked hc).1 hr) hlt hlimit

/-- With the default timeout of 500 ms a timer after a second is safe, and one after a tenth of a second is not. -/
theorem expiry_safe_iff_default : ∃ m₀, configured defaultParams = some m₀ ∧
    (∀ events m, Lts.run step m₀ events = some m → ExpirySafe 500 1000000 m) ∧
    ¬∀ events m, Lts.run step m₀ events = some m → ExpirySafe 500 100000 m := by
  obtain ⟨m₀, hc⟩ : ∃ m₀, configured defaultParams = some m₀ := ⟨_, rfl⟩
  refine ⟨m₀, hc, (expiry_safe_iff defaultParams m₀ hc 1000000).mpr (Or.inl (by decide)), fun h => ?_⟩
  exact absurd ((expiry_safe_iff defaultParams m₀ hc 100000).mp h) (by decide)

/-- A packet and a timer at a tenth of a second of the packet clock, with the default timeout of half a second: the flow of the
packet is sent out and erased although it is not idle. -/
theorem expiry_unsafe_near_zero : ¬∀ (n : FlowMeterParams) (m₀ m : FlowMeter) (events : List Input) (tnow : ustime),
    configured n = some m₀ → Lts.run step m₀ events = some m → ExpirySafe n.idleMs.toNat tnow m := by
  intro hall
  obtain ⟨m₀, hc⟩ : ∃ m₀, configured defaultParams = some m₀ := ⟨_, rfl⟩
  have hearly := (ExpirySafe.one_packet hc (fun events m hr => hall defaultParams m₀ m events 100000 hc hr) 100000).1
  cases hc
  exact absurd (hearly (by decide)) (by decide)

end FlowMeter

end Blockmon
