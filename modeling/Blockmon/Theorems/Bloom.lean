import Mathlib.Data.UInt
import Blockmon.Lemmas.Bloom
import Blockmon.Bloom

/-!
# Runs of a Bloom filter

No sequence of calls meets a failing assertion, and none loses a key: what has been inserted since the last `clear` is found. The only call that
does not return is one on a key whose digests do not come to an end, which needs `norep` and a hash function that repeats itself.
-/

namespace Blockmon.Bloom

open Bitmap

/-- A call of the filter. -/
inductive Op where
  | insert (key : List UInt8)
  | check (key : List UInt8)
  | clear

/-- The keys that are inserted and not cleared after it. -/
def inserted : List (List UInt8) → List Op → List (List UInt8)
  | keys, [] => keys
  | keys, .insert key :: ops => inserted (key :: keys) ops
  | keys, .check _ :: ops => inserted keys ops
  | _, .clear :: ops => inserted [] ops

/-- The keys of a call. -/
def Op.keys : Op → List (List UInt8)
  | .insert key => [key]
  | .check key => [key]
  | .clear => []

section Runs

variable (sha1 : List UInt8 → Digest)

/-- `compute` ends on this key. -/
def Terminates (h : Khash) (key : List UInt8) : Prop :=
  ∃ fuel res res', res.length = h.nhash + 1 ∧ compute sha1 h fuel key res = .ok res'

namespace Bloomfilter

variable (fuel : Nat)

/-- A call, without its answer. -/
def call (f : Bloomfilter) : Op → Except Fault Bloomfilter
  | .insert key => do
    let out ← f.insert sha1 fuel key
    .ok out.1
  | .check key => do
    let out ← f.check sha1 fuel key
    .ok out.1
  | .clear => .ok f.clear

/-- The calls in their order. -/
def calls (f : Bloomfilter) : List Op → Except Fault Bloomfilter
  | [] => .ok f
  | op :: ops => do
    let f' ← f.call sha1 fuel op
    f'.calls ops

end Bloomfilter

/-- A filter between two calls: its bits hold those of the inserted keys. -/
structure Holds (h : Khash) (keys : List (List UInt8)) (f : Bloomfilter) : Prop where
  sound : f.Sound
  hash : f.hash = h
  keys : ∀ key ∈ keys, ∃ ds, HashesTo sha1 h key ds ∧ ds.toFinset ⊆ ones f.m

end Runs

section Run

variable {sha1 : List UInt8 → Digest} {h : Khash}

/-- A key on which the hash ends has its digests. -/
theorem exists_digests {key : List UInt8} (hends : Terminates sha1 h key) : ∃ ds, HashesTo sha1 h key ds := by
  obtain ⟨fuel, res, res', hlen, hok⟩ := hends
  exact ⟨_, hashesTo_of_compute hlen hok⟩

variable {keys : List (List UInt8)} {f : Bloomfilter}

/-- A cleared filter holds no key. -/
theorem holds_clear (hf : Holds sha1 h keys f) : Holds sha1 h [] f.clear :=
  ⟨Bloomfilter.sound_clear hf.sound.res, hf.hash, fun _ hkey => absurd hkey List.not_mem_nil⟩

/-- A filter with the bits of a key added holds it as well. -/
theorem holds_insert {f' : Bloomfilter} {key : List UInt8} {ds : List Nat} (hf : Holds sha1 h keys f)
    (hsound : f'.Sound) (hhash : f'.hash = f.hash) (hds : HashesTo sha1 h key ds) (hones : ones f'.m = ones f.m ∪ ds.toFinset) :
    Holds sha1 h (key :: keys) f' := by
  refine ⟨hsound, hhash.trans hf.hash, List.forall_mem_cons.mpr ⟨⟨ds, hds, ?_⟩, fun key' hkey' => ?_⟩⟩
  · rw [hones]
    exact Finset.subset_union_right
  · obtain ⟨ds', hds', hsub⟩ := hf.keys key' hkey'
    rw [hones]
    exact ⟨ds', hds', hsub.trans Finset.subset_union_left⟩

/-- A call leaves a filter that holds what it has to, or its digests have no end. -/
theorem holds_call (hf : Holds sha1 h keys f) {op : Op} (hop : ∀ key ∈ op.keys, key ≠ []) (fuel : Nat) :
    f.call sha1 fuel op = .error .noEnd ∨ ∃ f', f.call sha1 fuel op = .ok f' ∧ Holds sha1 h (inserted keys [op]) f' := by
  obtain ⟨hsound, rfl, hkeys⟩ := hf
  cases op with
  | insert key =>
    rcases Bloomfilter.insert_cases hsound (hop key (List.mem_singleton.mpr rfl)) fuel with hend | ⟨ds, f', hds, hok, hsound', hhash, hones⟩
    · left
      rw [Bloomfilter.call, hend]
      rfl
    · right
      refine ⟨f', ?_, holds_insert ⟨hsound, rfl, hkeys⟩ hsound' hhash hds hones⟩
      rw [Bloomfilter.call, Exn.except_bind_of_ok hok]
  | check key =>
    rcases Bloomfilter.check_cases hsound (hop key (List.mem_singleton.mpr rfl)) fuel with hend | ⟨ds, f', -, hok, hsound', hhash, hones⟩
    · left
      rw [Bloomfilter.call, hend]
      rfl
    · right
      refine ⟨f', ?_, hsound', hhash, ?_⟩
      · rw [Bloomfilter.call, Exn.except_bind_of_ok hok]
      · rw [hones]
        exact hkeys
  | clear => exact Or.inr ⟨f.clear, rfl, holds_clear ⟨hsound, rfl, hkeys⟩⟩

/-- The keys after the first call. -/
theorem inserted_cons (keys : List (List UInt8)) (op : Op) (ops : List Op) :
    inserted keys (op :: ops) = inserted (inserted keys [op]) ops := by
  cases op <;> rfl

/-- Calls on keys that are not empty keep what the filter holds, or need more fuel. -/
theorem holds_calls (hf : Holds sha1 h keys f) {ops : List Op} (hops : ∀ op ∈ ops, ∀ key ∈ op.keys, key ≠ []) (fuel : Nat) :
    f.calls sha1 fuel ops = .error .noEnd ∨ ∃ f', f.calls sha1 fuel ops = .ok f' ∧ Holds sha1 h (inserted keys ops) f' := by
  induction ops generalizing keys f with
  | nil => exact Or.inr ⟨f, rfl, hf⟩
  | cons op ops ih =>
    obtain ⟨hop, hops⟩ := List.forall_mem_cons.mp hops
    rw [inserted_cons, Bloomfilter.calls]
    rcases holds_call hf hop fuel with hend | ⟨f', hok, hf'⟩
    · left
      rw [hend]
      rfl
    · rw [Exn.except_bind_of_ok hok]
      exact ih hf' hops

/-- A call returns on keys on which the hash ends. -/
theorem returns_call (hf : Holds sha1 h keys f) {op : Op} (hop : ∀ key ∈ op.keys, key ≠ []) (hends : ∀ key ∈ op.keys, Terminates sha1 h key) :
    ∃ f', Fuel.Returns (fun fuel => f.call sha1 fuel op) f' ∧ Holds sha1 h (inserted keys [op]) f' := by
  have hret : ∃ f', Fuel.Returns (fun fuel => f.call sha1 fuel op) f' := by
    obtain ⟨hsound, rfl, -⟩ := hf
    cases op with
    | insert key =>
      obtain ⟨ds, hds⟩ := exists_digests (hends key (List.mem_singleton.mpr rfl))
      obtain ⟨f', hret, -⟩ := Bloomfilter.returns_insert hsound (hop key (List.mem_singleton.mpr rfl)) hds
      exact ⟨f', hret.bind (Fuel.returns_const _ rfl)⟩
    | check key =>
      obtain ⟨ds, hds⟩ := exists_digests (hends key (List.mem_singleton.mpr rfl))
      obtain ⟨f', hret, -⟩ := Bloomfilter.returns_check hsound (hop key (List.mem_singleton.mpr rfl)) hds
      exact ⟨f', hret.bind (Fuel.returns_const _ rfl)⟩
    | clear => exact ⟨f.clear, Fuel.returns_const _ rfl⟩
  obtain ⟨f', hret⟩ := hret
  refine ⟨f', hret, ?_⟩
  obtain ⟨fuel, hok⟩ := hret.exists
  rcases holds_call hf hop fuel with hend | ⟨f'', hok', hf''⟩
  · rw [hend] at hok
    cases hok
  · rw [hok] at hok'
    obtain rfl := Except.ok.inj hok'
    exact hf''

/-- So do the calls. -/
theorem returns_calls (hf : Holds sha1 h keys f) {ops : List Op} (hops : ∀ op ∈ ops, ∀ key ∈ op.keys, key ≠ [])
    (hends : ∀ op ∈ ops, ∀ key ∈ op.keys, Terminates sha1 h key) : ∃ f', Fuel.Returns (fun fuel => f.calls sha1 fuel ops) f' := by
  induction ops generalizing keys f with
  | nil => exact ⟨f, Fuel.returns_const _ rfl⟩
  | cons op ops ih =>
    obtain ⟨hop, hops⟩ := List.forall_mem_cons.mp hops
    obtain ⟨hend, hends⟩ := List.forall_mem_cons.mp hends
    obtain ⟨f', hret, hf'⟩ := returns_call hf hop hend
    obtain ⟨f'', hret'⟩ := ih hf' hops hends
    exact ⟨f'', hret.bind hret'⟩

/-- What the filter answers on a key. -/
theorem answers_of_holds (hf : Holds sha1 h keys f) {key : List UInt8} (hkey : key ≠ []) (hends : Terminates sha1 h key) :
    ∃ f' found f'' new, Fuel.Returns (fun fuel => f.check sha1 fuel key) (f', found) ∧
      Fuel.Returns (fun fuel => f.insert sha1 fuel key) (f'', new) ∧ (key ∈ keys → found = true) ∧ (new = true ↔ found = false) := by
  obtain ⟨hsound, rfl, hkeys⟩ := hf
  obtain ⟨ds, hds⟩ := exists_digests hends
  obtain ⟨f', hcheck, -⟩ := Bloomfilter.returns_check hsound hkey hds
  obtain ⟨f'', hinsert, -⟩ := Bloomfilter.returns_insert hsound hkey hds
  refine ⟨f', _, f'', _, hcheck, hinsert, ?_, ?_⟩
  · intro hmem
    obtain ⟨ds', hds', hsub⟩ := hkeys key hmem
    obtain rfl := hds.unique hds'
    exact decide_eq_true hsub
  · rw [decide_eq_true_iff, decide_eq_false_iff_not]

end Run

/-- For any calls on keys that are not empty: the zeros are counted, each inserted key is found, and an insertion says whether the key was found
before. -/
theorem bloomfilter_runs {memory : Nat → UInt32} {nhash shash norep : Int} {f₀ : Bloomfilter}
    (hnew : bloomfilter memory nhash shash norep = .ok f₀) (sha1 : List UInt8 → Digest) {ops : List Op}
    (hops : ∀ op ∈ ops, ∀ key ∈ op.keys, key ≠ []) :
    (∀ fuel e, f₀.calls sha1 fuel ops = .error e → e = .noEnd) ∧
      ((∀ op ∈ ops, ∀ key ∈ op.keys, Terminates sha1 f₀.hash key) → ∃ f, Fuel.Returns (fun fuel => f₀.calls sha1 fuel ops) f) ∧
      ∀ fuel f, f₀.calls sha1 fuel ops = .ok f → f.numZeros.toNat + (ones f.m).card = 2 ^ shash.toNat ∧
        ∀ key, key ≠ [] → Terminates sha1 f₀.hash key → ∃ f' found f'' new,
          Fuel.Returns (fun fuel => f.check sha1 fuel key) (f', found) ∧ Fuel.Returns (fun fuel => f.insert sha1 fuel key) (f'', new) ∧
            (key ∈ inserted [] ops → found = true) ∧ (new = true ↔ found = false) := by
  obtain ⟨hsound, hkhash, -⟩ := bloomfilter_eq_ok hnew
  have hf₀ : Holds sha1 f₀.hash [] f₀ := ⟨hsound, rfl, fun key hkey => absurd hkey List.not_mem_nil⟩
  refine ⟨?_, returns_calls hf₀ hops, ?_⟩
  · intro fuel e herr
    rcases holds_calls hf₀ hops fuel with hend | ⟨f, hok, -⟩
    · rw [hend] at herr
      exact (Except.error.inj herr).symm
    · rw [hok] at herr
      cases herr
  · intro fuel f hrun
    rcases holds_calls hf₀ hops fuel with hend | ⟨f', hok, hf⟩
    · rw [hend] at hrun
      cases hrun
    · rw [hok] at hrun
      obtain rfl := Except.ok.inj hrun
      refine ⟨?_, fun key hkey hends => answers_of_holds hf hkey hends⟩
      rw [← (khash_eq_ok hkhash).2.1, ← hf.hash]
      exact hf.sound.zeros

/-- A hash in the place of SHA-1 that gives the two keys below different digests. -/
def sumDigest (key : List UInt8) : Digest := Vector.replicate 5 (key.foldl (fun n b => 31 * n + b.toUInt32) 1 * 2654435761)

/-- The hash ends on the two keys of the examples. -/
theorem terminates_sumDigest {h : Khash} (hnew : khash 2 4 1 = .ok h) (key : List UInt8) (hkey : key = [7] ∨ key = [9, 1]) :
    Terminates sumDigest h key := by
  have hlength : (khash 2 4 1).toOption.map Khash.nhash = some 2 := by decide +kernel
  have hends : ∀ key ∈ [[7], [9, 1]],
      (khash 2 4 1 >>= fun h => compute sumDigest h 8 key (List.replicate 3 0)).toOption.isSome = true := by decide +kernel
  rw [hnew] at hlength hends
  obtain ⟨res, hres⟩ := Option.isSome_iff_exists.mp (hends key (by simpa using hkey))
  refine ⟨8, List.replicate 3 0, res, ?_, ?_⟩
  · rw [show h.nhash = 2 from Option.some.inj hlength]
    rfl
  · change (compute sumDigest h 8 key (List.replicate 3 0)).toOption = some res at hres
    cases hcompute : compute sumDigest h 8 key (List.replicate 3 0) with
    | error e =>
      rw [hcompute] at hres
      cases hres
    | ok res' =>
      rw [hcompute] at hres
      cases hres
      rfl

/-- A key that was inserted after the filter was cleared is found. -/
theorem bloomfilter_runs_one : ∃ f₀ f f', bloomfilter (fun _ => 0) 2 4 1 = .ok f₀ ∧
    Fuel.Returns (fun fuel => f₀.calls sumDigest fuel [.insert [9, 1], .clear, .insert [7]]) f ∧
      Fuel.Returns (fun fuel => f.check sumDigest fuel [7]) (f', true) := by
  obtain ⟨f₀, hnew⟩ : ∃ f₀, bloomfilter (fun _ => 0) 2 4 1 = .ok f₀ := ⟨_, rfl⟩
  have hends := terminates_sumDigest (bloomfilter_eq_ok hnew).2.1
  have hops : ∀ op ∈ [Op.insert [9, 1], .clear, .insert [7]], ∀ key ∈ op.keys, key ≠ [] := by simp [Op.keys]
  obtain ⟨-, hreturns, hall⟩ := bloomfilter_runs hnew sumDigest hops
  obtain ⟨f, n, hcalls⟩ := hreturns (by simpa [Op.keys] using ⟨hends _ (Or.inr rfl), hends _ (Or.inl rfl)⟩)
  obtain ⟨-, hanswers⟩ := hall n f (hcalls n (Nat.le_refl n))
  obtain ⟨f', found, -, -, hcheck, -, hfound, -⟩ := hanswers [7] (by decide) (hends _ (Or.inl rfl))
  rw [hfound (by decide)] at hcheck
  exact ⟨f₀, f, f', hnew, ⟨n, hcalls⟩, hcheck⟩

end Blockmon.Bloom

/-!
## The memory of a pair of Bloom filters

What the learning filter holds the detecting one holds as well, whenever the filters are swapped. So an added key is known as long as at most one
swap has come after it: the first makes the learning filter the detecting one, and the second loses it.
-/

namespace Blockmon.Bloom

open Bitmap

/-- A call of the pair. -/
inductive PairOp where
  | add (key : List UInt8) (swap : Bool)
  | clear

/-- The key of a call. -/
def PairOp.keys : PairOp → List (List UInt8)
  | .add key _ => [key]
  | .clear => []

/-- The number of swaps. -/
def swaps : List PairOp → Nat
  | [] => 0
  | .add _ swap :: ops => swap.toNat + swaps ops
  | .clear :: ops => swaps ops

/-- The keys that each filter has to hold: those of the learning filter, those of the detecting one. -/
structure Memory where
  learning : List (List UInt8)
  detecting : List (List UInt8)

/-- What a call leaves remembered. A swap forgets what the detecting filter held. -/
def Memory.after : PairOp → Memory → Memory
  | .add key false, mem => { learning := key :: mem.learning, detecting := key :: mem.detecting }
  | .add key true, mem => { learning := [], detecting := key :: mem.learning }
  | .clear, _ => { learning := [], detecting := [] }

/-- What the calls leave remembered. -/
def remembered (mem : Memory) : List PairOp → Memory
  | [] => mem
  | op :: ops => remembered (mem.after op) ops

namespace BloomPair

variable (sha1 : List UInt8 → Digest) (fuel : Nat)

/-- A call, without its answer. -/
def call (p : BloomPair) : PairOp → Except Fault BloomPair
  | .add key swap => do
    let out ← p.add sha1 fuel swap key
    .ok out.1
  | .clear => .ok p.clear

/-- The calls in their order. -/
def calls (p : BloomPair) : List PairOp → Except Fault BloomPair
  | [] => .ok p
  | op :: ops => do
    let p' ← p.call sha1 fuel op
    p'.calls ops

end BloomPair

/-! ## Which keys are remembered -/

/-- Without a swap a detected key stays one. -/
theorem mem_detecting_of_no_swap {key : List UInt8} {ops : List PairOp} (hclear : .clear ∉ ops) (hswaps : swaps ops = 0) {mem : Memory}
    (hmem : key ∈ mem.detecting) : key ∈ (remembered mem ops).detecting := by
  induction ops generalizing mem with
  | nil => exact hmem
  | cons op ops ih =>
    obtain ⟨hop, htail⟩ := not_or.mp (List.mem_cons.not.mp hclear)
    rcases op with ⟨key', swap⟩ | _
    · cases swap with
      | false =>
        rw [swaps, Bool.toNat_false, Nat.zero_add] at hswaps
        exact ih htail hswaps (List.mem_cons_of_mem _ hmem)
      | true =>
        rw [swaps, Bool.toNat_true] at hswaps
        omega
    · exact absurd rfl hop

/-- A key that both filters hold is still detected after one swap. -/
theorem mem_detecting_of_swap {key : List UInt8} {ops : List PairOp} (hclear : .clear ∉ ops) (hswaps : swaps ops ≤ 1) {mem : Memory}
    (hl : key ∈ mem.learning) (hd : key ∈ mem.detecting) : key ∈ (remembered mem ops).detecting := by
  induction ops generalizing mem with
  | nil => exact hd
  | cons op ops ih =>
    obtain ⟨hop, htail⟩ := not_or.mp (List.mem_cons.not.mp hclear)
    rcases op with ⟨key', swap⟩ | _
    · cases swap with
      | false =>
        rw [swaps, Bool.toNat_false, Nat.zero_add] at hswaps
        exact ih htail hswaps (List.mem_cons_of_mem _ hl) (List.mem_cons_of_mem _ hd)
      | true =>
        rw [swaps, Bool.toNat_true] at hswaps
        have hmem : key ∈ (mem.after (.add key' true)).detecting := List.mem_cons_of_mem _ hl
        exact mem_detecting_of_no_swap htail (by omega) hmem
    · exact absurd rfl hop

/-- The second calls begin with what the first ones left. -/
theorem remembered_append (mem : Memory) (ops ops' : List PairOp) : remembered mem (ops ++ ops') = remembered (remembered mem ops) ops' := by
  induction ops generalizing mem with
  | nil => rfl
  | cons op ops ih => exact ih (mem.after op)

/-- A key that has been added is remembered until the filters are cleared or swapped for the second time. -/
theorem mem_detecting_of_added (before : List PairOp) {after : List PairOp} {key : List UInt8} {swap : Bool} (hclear : .clear ∉ after)
    (hswaps : swaps (.add key swap :: after) < 2) (mem : Memory) :
    key ∈ (remembered mem (before ++ .add key swap :: after)).detecting := by
  rw [remembered_append, remembered]
  cases swap with
  | false =>
    rw [swaps, Bool.toNat_false, Nat.zero_add] at hswaps
    exact mem_detecting_of_swap hclear (Nat.le_of_lt_succ hswaps) List.mem_cons_self List.mem_cons_self
  | true =>
    rw [swaps, Bool.toNat_true] at hswaps
    exact mem_detecting_of_no_swap hclear (by omega) List.mem_cons_self

/-! ## The filters -/

section Runs

variable {sha1 : List UInt8 → Digest} {h : Khash} {mem : Memory} {p : BloomPair}

/-- A pair between two calls. -/
structure PairHolds (sha1 : List UInt8 → Digest) (h : Khash) (mem : Memory) (p : BloomPair) : Prop where
  learning : Holds sha1 h mem.learning p.learning
  detecting : Holds sha1 h mem.detecting p.detecting
  subset : ones p.learning.m ⊆ ones p.detecting.m

/-- An addition on a key with the digests `ds`, when both insertions return. -/
theorem add_of_insert {key : List UInt8} {ds : List Nat} (hp : PairHolds sha1 h mem p) (hds : HashesTo sha1 h key ds) {fuel : Nat} (swap : Bool)
    {l d : Bloomfilter} (hl : p.learning.insert sha1 fuel key = .ok (l, decide (¬ds.toFinset ⊆ ones p.learning.m)))
    (hlsound : l.Sound) (hlhash : l.hash = p.learning.hash) (hlones : ones l.m = ones p.learning.m ∪ ds.toFinset)
    (hd : p.detecting.insert sha1 fuel key = .ok (d, decide (¬ds.toFinset ⊆ ones p.detecting.m)))
    (hdsound : d.Sound) (hdhash : d.hash = p.detecting.hash) (hdones : ones d.m = ones p.detecting.m ∪ ds.toFinset) :
    ∃ p', p.add sha1 fuel swap key = .ok (p', decide (¬ds.toFinset ⊆ ones p.detecting.m)) ∧
      PairHolds sha1 h (mem.after (.add key swap)) p' := by
  -- what is new for the detecting filter is new for the learning one
  have hassert : decide (¬ds.toFinset ⊆ ones p.detecting.m) = false ∨
      decide (¬ds.toFinset ⊆ ones p.detecting.m) = true ∧ decide (¬ds.toFinset ⊆ ones p.learning.m) = true := by
    by_cases hnew : ds.toFinset ⊆ ones p.detecting.m
    · exact Or.inl (decide_eq_false (not_not.mpr hnew))
    · exact Or.inr ⟨decide_eq_true hnew, decide_eq_true fun hsub => hnew (hsub.trans hp.subset)⟩
  have hl' := holds_insert hp.learning hlsound hlhash hds hlones
  have hd' := holds_insert hp.detecting hdsound hdhash hds hdones
  rw [BloomPair.add, Exn.except_bind_of_ok hl, Exn.except_bind_of_ok hd]
  dsimp only
  rw [Exn.except_bind_of_ok (assert_of hassert _)]
  cases swap with
  | false =>
    refine ⟨_, rfl, hl', hd', ?_⟩
    change ones l.m ⊆ ones d.m
    rw [hlones, hdones]
    exact Finset.union_subset_union_left hp.subset
  | true =>
    refine ⟨_, rfl, holds_clear hd', hl', ?_⟩
    change ones (List.replicate _ 0) ⊆ ones l.m
    rw [ones_replicate]
    exact Finset.empty_subset _

/-- A cleared pair holds what a clear leaves. -/
theorem pairHolds_clear (hp : PairHolds sha1 h mem p) : PairHolds sha1 h (mem.after .clear) p.clear := by
  refine ⟨holds_clear hp.learning, holds_clear hp.detecting, ?_⟩
  change ones (List.replicate _ 0) ⊆ ones (List.replicate _ 0)
  rw [ones_replicate]
  exact Finset.empty_subset _

/-- A call keeps what the filters hold, or needs more fuel. -/
theorem pairHolds_call (hp : PairHolds sha1 h mem p) {op : PairOp} (hop : ∀ key ∈ op.keys, key ≠ []) (fuel : Nat) :
    p.call sha1 fuel op = .error .noEnd ∨ ∃ p', p.call sha1 fuel op = .ok p' ∧ PairHolds sha1 h (mem.after op) p' := by
  rcases op with ⟨key, swap⟩ | _
  · have hkey := hop key (List.mem_singleton.mpr rfl)
    rcases Bloomfilter.insert_cases hp.learning.sound hkey fuel with hend | ⟨ds, l, hds, hl, hlsound, hlhash, hlones⟩
    · left
      rw [BloomPair.call, BloomPair.add, hend]
      rfl
    rcases Bloomfilter.insert_cases hp.detecting.sound hkey fuel with hend | ⟨ds', d, hds', hd, hdsound, hdhash, hdones⟩
    · left
      rw [BloomPair.call, BloomPair.add, Exn.except_bind_of_ok hl, hend]
      rfl
    rw [hp.learning.hash] at hds
    rw [hp.detecting.hash] at hds'
    obtain rfl := hds.unique hds'
    obtain ⟨p', hadd, hp'⟩ := add_of_insert hp hds swap hl hlsound hlhash hlones hd hdsound hdhash hdones
    right
    refine ⟨p', ?_, hp'⟩
    rw [BloomPair.call, Exn.except_bind_of_ok hadd]
  · exact Or.inr ⟨p.clear, rfl, pairHolds_clear hp⟩

/-- The calls keep what the filters hold, or need more fuel. -/
theorem pairHolds_calls (hp : PairHolds sha1 h mem p) {ops : List PairOp} (hops : ∀ op ∈ ops, ∀ key ∈ op.keys, key ≠ []) (fuel : Nat) :
    p.calls sha1 fuel ops = .error .noEnd ∨ ∃ p', p.calls sha1 fuel ops = .ok p' ∧ PairHolds sha1 h (remembered mem ops) p' := by
  induction ops generalizing mem p with
  | nil => exact Or.inr ⟨p, rfl, hp⟩
  | cons op ops ih =>
    obtain ⟨hop, hops⟩ := List.forall_mem_cons.mp hops
    rw [BloomPair.calls, remembered]
    rcases pairHolds_call hp hop fuel with hend | ⟨p', hok, hp'⟩
    · left
      rw [hend]
      rfl
    · rw [Exn.except_bind_of_ok hok]
      exact ih hp' hops

/-- What `add` answers on a key whose digests come to an end. -/
theorem returns_add (hp : PairHolds sha1 h mem p) {key : List UInt8} (hkey : key ≠ []) {ds : List Nat} (hds : HashesTo sha1 h key ds)
    (swap : Bool) : ∃ p', Fuel.Returns (fun fuel => p.add sha1 fuel swap key) (p', decide (¬ds.toFinset ⊆ ones p.detecting.m)) ∧
      PairHolds sha1 h (mem.after (.add key swap)) p' := by
  obtain ⟨l, hl, hlsound, hlhash, hlones⟩ := Bloomfilter.returns_insert hp.learning.sound hkey (by rw [hp.learning.hash]; exact hds)
  obtain ⟨d, hd, hdsound, hdhash, hdones⟩ := Bloomfilter.returns_insert hp.detecting.sound hkey (by rw [hp.detecting.hash]; exact hds)
  obtain ⟨n, hn⟩ := hl
  obtain ⟨k, hk⟩ := hd
  obtain ⟨p', hadd, hp'⟩ := add_of_insert hp hds swap (hn (max n k) (Nat.le_max_left n k)) hlsound hlhash hlones
    (hk (max n k) (Nat.le_max_right n k)) hdsound hdhash hdones
  refine ⟨p', ⟨max n k, fun m hm => ?_⟩, hp'⟩
  obtain ⟨p'', hadd', -⟩ := add_of_insert hp hds swap (hn m (Nat.le_trans (Nat.le_max_left n k) hm)) hlsound hlhash hlones
    (hk m (Nat.le_trans (Nat.le_max_right n k) hm)) hdsound hdhash hdones
  have hsettled : Fuel.Settled fun fuel => p.add sha1 fuel swap key :=
    (Bloomfilter.settled_insert _ key).bind fun _ => (Bloomfilter.settled_insert _ key).bind fun _ =>
      (Fuel.settled_const _).bind fun _ => Fuel.settled_const _
  rw [← (hsettled _ _ hadd).unique (hsettled _ _ hadd')] at hadd'
  exact hadd'

/-- The calls return on keys on which the hash ends. -/
theorem returns_pairCalls (hp : PairHolds sha1 h mem p) {ops : List PairOp} (hops : ∀ op ∈ ops, ∀ key ∈ op.keys, key ≠ [])
    (hends : ∀ op ∈ ops, ∀ key ∈ op.keys, Terminates sha1 h key) : ∃ p', Fuel.Returns (fun fuel => p.calls sha1 fuel ops) p' := by
  induction ops generalizing mem p with
  | nil => exact ⟨p, Fuel.returns_const _ rfl⟩
  | cons op ops ih =>
    obtain ⟨hop, hops⟩ := List.forall_mem_cons.mp hops
    obtain ⟨hend, hends⟩ := List.forall_mem_cons.mp hends
    have hcall : ∃ p', Fuel.Returns (fun fuel => p.call sha1 fuel op) p' ∧ PairHolds sha1 h (mem.after op) p' := by
      rcases op with ⟨key, swap⟩ | _
      · obtain ⟨ds, hds⟩ := exists_digests (hend key (List.mem_singleton.mpr rfl))
        obtain ⟨p', hret, hp'⟩ := returns_add hp (hop key (List.mem_singleton.mpr rfl)) hds swap
        exact ⟨p', hret.bind (Fuel.returns_const _ rfl), hp'⟩
      · exact ⟨p.clear, Fuel.returns_const _ rfl, pairHolds_clear hp⟩
    obtain ⟨p', hret, hp'⟩ := hcall
    obtain ⟨p'', hret'⟩ := ih hp' hops hends
    exact ⟨p'', hret.bind hret'⟩

end Runs

/-- A new pair holds nothing. -/
theorem bloomPair_eq_ok {memory memory' : Nat → UInt32} {nhash shash : Int} {p : BloomPair}
    (hok : bloomPair memory memory' nhash shash = .ok p) (sha1 : List UInt8 → Digest) :
    PairHolds sha1 p.learning.hash { learning := [], detecting := [] } p := by
  obtain ⟨l, hl, hok⟩ := Exn.except_bind_eq_ok.mp hok
  obtain ⟨d, hd, hok⟩ := Exn.except_bind_eq_ok.mp hok
  obtain ⟨u, -, hok⟩ := Exn.except_bind_eq_ok.mp hok
  obtain rfl := Except.ok.inj hok
  obtain ⟨hlsound, hlhash, hlones⟩ := bloomfilter_eq_ok hl
  obtain ⟨hdsound, hdhash, hdones⟩ := bloomfilter_eq_ok hd
  have hhash : d.hash = l.hash := Except.ok.inj (hdhash.symm.trans hlhash)
  refine ⟨⟨hlsound, rfl, fun key hkey => absurd hkey List.not_mem_nil⟩, ⟨hdsound, hhash, fun key hkey => absurd hkey List.not_mem_nil⟩, ?_⟩
  rw [hlones]
  exact Finset.empty_subset _

/-- The constructor's own assertion holds. -/
theorem bloomPair_of_bloomfilter {memory memory' : Nat → UInt32} {nhash shash : Int} {l d : Bloomfilter}
    (hl : bloomfilter memory nhash shash 1 = .ok l) (hd : bloomfilter memory' nhash shash 1 = .ok d) :
    bloomPair memory memory' nhash shash = .ok { learning := l, detecting := d } := by
  have hzeros : maxdigest l.hash = l.numZeros := by
    obtain ⟨h, -, hok⟩ := Exn.except_bind_eq_ok.mp hl
    obtain ⟨u, -, hok⟩ := Exn.except_bind_eq_ok.mp hok
    obtain rfl := Except.ok.inj hok
    rfl
  rw [bloomPair, Exn.except_bind_of_ok hl, Exn.except_bind_of_ok hd, Exn.except_bind_of_ok (assert_of hzeros _)]

/-- For any calls: the detecting filter has the bits of the learning one, and a key is known until it is cleared or two swaps have come after it.
-/
theorem bloomPair_runs {memory memory' : Nat → UInt32} {nhash shash : Int} {p₀ : BloomPair}
    (hnew : bloomPair memory memory' nhash shash = .ok p₀) (sha1 : List UInt8 → Digest) {ops : List PairOp}
    (hops : ∀ op ∈ ops, ∀ key ∈ op.keys, key ≠ []) :
    (∀ fuel e, p₀.calls sha1 fuel ops = .error e → e = .noEnd) ∧
      ((∀ op ∈ ops, ∀ key ∈ op.keys, Terminates sha1 p₀.learning.hash key) → ∃ p, Fuel.Returns (fun fuel => p₀.calls sha1 fuel ops) p) ∧
      ∀ fuel p, p₀.calls sha1 fuel ops = .ok p → ones p.learning.m ⊆ ones p.detecting.m ∧
        ∀ before key swap after, ops = before ++ .add key swap :: after → .clear ∉ after → swaps (.add key swap :: after) < 2 →
          ∀ swap', ∃ p', Fuel.Returns (fun fuel => p.add sha1 fuel swap' key) (p', false) := by
  have hp₀ := bloomPair_eq_ok hnew sha1
  refine ⟨?_, returns_pairCalls hp₀ hops, ?_⟩
  · intro fuel e herr
    rcases pairHolds_calls hp₀ hops fuel with hend | ⟨p, hok, -⟩
    · rw [hend] at herr
      exact (Except.error.inj herr).symm
    · rw [hok] at herr
      cases herr
  · intro fuel p hrun
    rcases pairHolds_calls hp₀ hops fuel with hend | ⟨p', hok, hp⟩
    · rw [hend] at hrun
      cases hrun
    · rw [hok] at hrun
      obtain rfl := Except.ok.inj hrun
      refine ⟨hp.subset, fun before key swap after hsplit hclear hswaps swap' => ?_⟩
      have hmem := mem_detecting_of_added before hclear hswaps { learning := [], detecting := [] }
      rw [← hsplit] at hmem
      obtain ⟨ds, hds, hsub⟩ := hp.detecting.keys key hmem
      have hkey : key ≠ [] := by
        refine hops (.add key swap) ?_ key (List.mem_singleton.mpr rfl)
        rw [hsplit]
        exact List.mem_append_right _ List.mem_cons_self
      obtain ⟨p'', hret, -⟩ := returns_add hp hkey hds swap'
      rw [decide_eq_false (not_not.mpr hsub)] at hret
      exact ⟨p'', hret⟩

/-- A key that was added before the filters were swapped once is known. -/
theorem bloomPair_runs_one : ∃ p₀ p p', bloomPair (fun _ => 0) (fun _ => 0) 2 4 = .ok p₀ ∧
    Fuel.Returns (fun fuel => p₀.calls sumDigest fuel [.clear, .add [7] false, .add [9, 1] true]) p ∧
      Fuel.Returns (fun fuel => p.add sumDigest fuel false [7]) (p', false) := by
  obtain ⟨p₀, hnew⟩ : ∃ p₀, bloomPair (fun _ => 0) (fun _ => 0) 2 4 = .ok p₀ := ⟨_, rfl⟩
  obtain ⟨h, hkhash⟩ : ∃ h, khash 2 4 1 = .ok h := ⟨_, rfl⟩
  have hhash : p₀.learning.hash = h := by
    have hsame : (bloomPair (fun _ => 0) (fun _ => 0) 2 4).toOption.map (fun p => p.learning.hash) = (khash 2 4 1).toOption := by rfl
    rw [hnew, hkhash] at hsame
    exact Option.some.inj hsame
  have hends := terminates_sumDigest (hhash ▸ hkhash : khash 2 4 1 = .ok p₀.learning.hash)
  have hops : ∀ op ∈ [PairOp.clear, .add [7] false, .add [9, 1] true], ∀ key ∈ op.keys, key ≠ [] := by simp [PairOp.keys]
  obtain ⟨-, hreturns, hall⟩ := bloomPair_runs hnew sumDigest hops
  obtain ⟨p, n, hcalls⟩ := hreturns (by simpa [PairOp.keys] using ⟨hends _ (Or.inl rfl), hends _ (Or.inr rfl)⟩)
  obtain ⟨-, hknown⟩ := hall n p (hcalls n (Nat.le_refl n))
  obtain ⟨p', hadd⟩ := hknown [.clear] [7] false [.add [9, 1] true] rfl (by simp) (by decide) false
  exact ⟨p₀, p, p', hnew, ⟨n, hcalls⟩, hadd⟩

end Blockmon.Bloom
