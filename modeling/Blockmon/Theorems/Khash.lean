import Blockmon.Lemmas.Khash

/-!
# The digests are windows of one stream

`compute` takes windows of the stream of the digests, one behind the other, each as wide as a digest is to be. If repetitions are not
allowed it keeps of them those that are new.
-/

namespace Blockmon.Bloom

open BitWindow Collect

variable (sha1 : List UInt8 → Digest) (h : Khash) (key : List UInt8)

/-- The loop of a call of `compute` comes to its test, with this source, this `k` and this output vector. -/
inductive LoopTest (res : List UInt32) : Source → Nat → List UInt32 → Prop where
  | first {md : List UInt8} (hmd : copySha (sha1 key) = .ok md) : LoopTest res { msgdig := sha1 key, md := md, ptr := 0 } 1 res
  | next {src : Source} {k : Nat} {res' : List UInt32} {next : UInt32 × Source} (htest : LoopTest res src k res') (hk : k ≤ h.nhash)
      (hnext : nextDigest sha1 h src = .ok next) :
      LoopTest res next.2 ((if h.norep then skipRepeated (res'.set k next.1) k 1 k else k) + 1) (res'.set k next.1)

variable {sha1 h key}

/-- The loop invariant at the test of the loop. -/
theorem LoopTest.inv {res : List UInt32} (hlen : res.length = h.nhash + 1) {src : Source} {k : Nat} {res' : List UInt32}
    (htest : LoopTest sha1 h key res src k res') : ∃ n, LoopInv sha1 h key src k res' n := by
  induction htest with
  | first hmd =>
    rw [copySha_eq] at hmd
    cases hmd
    exact ⟨0, LoopInv.first sha1 h key hlen⟩
  | next htest hk hnext ih =>
    obtain ⟨n, hinv⟩ := ih
    obtain ⟨next', hnext', hinv'⟩ := hinv.pass sha1 h hk
    rw [hnext] at hnext'
    cases hnext'
    exact ⟨n + 1, hinv'⟩

/-- A digest has twenty bytes. -/
theorem length_digestBytes (d : Digest) : (digestBytes d).length = 20 := by
  simp [digestBytes, wordBytes, List.finRange_succ]

/-- Without a check for repetitions the loop ends after one pass for each digest. -/
theorem computeLoop_returns (hnorep : h.norep = false) (fuel : Nat) {src : Source} {k n : Nat} {res : List UInt32}
    (hinv : LoopInv sha1 h key src k res n) (hfuel : h.nhash + 1 < fuel + k) : ∃ res', computeLoop sha1 h fuel src k res = .ok res' := by
  induction fuel generalizing src k n res with
  | zero =>
    have hle := hinv.le
    omega
  | succ fuel ih =>
    rw [computeLoop]
    by_cases hloop : k ≤ h.nhash
    · obtain ⟨next, hnext, hinv'⟩ := hinv.pass sha1 h hloop
      rw [if_pos hloop, Exn.except_bind_of_ok hnext]
      refine ih hinv' ?_
      rw [hnorep]
      simp only [Bool.false_eq_true, if_false]
      omega
    · rw [if_neg hloop]
      exact ⟨res, rfl⟩

/-- `compute` takes windows of the stream that the digests make. Whenever its loop comes to its test, the pointer, the copy of the digest and
`k` are in range, and a pass that follows fails no assertion and uses no index out of range; so an unfinished call is the only one that
returns nothing. The digests that are returned are the windows in their order, if repetitions are allowed, and the call always returns;
else they are those that are new, up to some window. -/
theorem khash_compute_windows (sha1 : List UInt8 → Digest) (h : Khash) (key : List UInt8) (hkey : key ≠ []) (res : List UInt32)
    (hlen : res.length = h.nhash + 1) :
    (∀ src k res', LoopTest sha1 h key res src k res' → 0 ≤ src.ptr ∧ src.ptr < 160 ∧ src.md.length = 20 ∧ 1 ≤ k ∧
      res'.length = h.nhash + 1 ∧ (k ≤ h.nhash → ∃ next, nextDigest sha1 h src = .ok next)) ∧
    (∀ fuel e, compute sha1 h fuel key res = .error e → e = .noEnd) ∧
    (∀ fuel res', compute sha1 h fuel key res = .ok res' →
      res'.length = h.nhash + 1 ∧ (∀ x ∈ digests h res', x < 2 ^ h.shash) ∧
      (h.norep = false → digests h res' = (List.range h.nhash).map fun k => window (stream sha1 key) (k * h.shash) h.shash) ∧
      (h.norep = true → (digests h res').Nodup ∧
        ∃ n, digests h res' = firsts (fun k => window (stream sha1 key) (k * h.shash) h.shash) n)) ∧
    (h.norep = false → ∃ res', Fuel.Returns (fun fuel => compute sha1 h fuel key res) res') := by
  refine ⟨fun src k res' htest => ?_, fun fuel e he => ?_, fun fuel res' hok => ?_, fun hnorep => ?_⟩
  · obtain ⟨n, hinv⟩ := htest.inv hlen
    have hptr := hinv.source.ptr
    refine ⟨by omega, by omega, ?_, hinv.pos, hinv.length, fun hk => ?_⟩
    · rw [hinv.source.md, length_digestBytes]
    · obtain ⟨next, hnext, -⟩ := hinv.pass sha1 h hk
      exact ⟨next, hnext⟩
  · rcases compute_taken sha1 hkey fuel hlen with hend | ⟨res', m, hok, -⟩
    · rw [hend] at he
      exact (Except.error.inj he).symm
    · rw [hok] at he
      cases he
  · rcases compute_taken sha1 hkey fuel hlen with hend | ⟨res'', m, hok', hlen', hdigests⟩
    · rw [hend] at hok
      cases hok
    · rw [hok] at hok'
      cases hok'
      refine ⟨hlen', fun x hx => lt_of_mem_taken sha1 h (hdigests ▸ hx), fun hnorep => ?_, fun hnorep => ?_⟩
      · -- as many windows as there are digests
        rw [taken, hnorep, if_neg (by decide)] at hdigests
        have hm : m = h.nhash := by
          have hcount := congrArg List.length hdigests
          simpa [digests] using hcount.symm
        rw [hdigests, hm]
        rfl
      · rw [taken, hnorep, if_pos rfl] at hdigests
        rw [hdigests]
        exact ⟨nodup_firsts _ m, m, rfl⟩
  · obtain ⟨res', hres'⟩ := computeLoop_returns hnorep (h.nhash + 1) (LoopInv.first sha1 h key hlen) (Nat.lt_succ_self _)
    exact ⟨res', settled_compute key res (h.nhash + 1) res' ((compute_eq sha1 h hkey _ _).trans hres')⟩

/-- Two digests of a byte each. -/
def twoBytes : Khash :=
  { nhash := 2, shash := 8, norep := true, nhash_pos := by decide, nhash_lt := by decide, shash_pos := by decide, shash_lt := by decide,
    enough := fun _ => by decide }

/-- A word whose first two bytes are the same. -/
theorem khash_compute_windows_twoBytes :
    let sha1 : List UInt8 → Digest := fun _ => #v[0x04030101, 0, 0, 0, 0]
    digests twoBytes [0, 1, 3] = [1, 3] ∧ ∃ n, [1, 3] = firsts (fun k => window (stream sha1 [0]) (k * 8) 8) n := by
  intro sha1
  have hok : compute sha1 twoBytes 4 [0] [0, 0, 0] = .ok [0, 1, 3] := by decide +kernel
  obtain ⟨-, -, hrep⟩ := (khash_compute_windows sha1 twoBytes [0] (List.cons_ne_nil _ _) [0, 0, 0] rfl).2.2.1 4 [0, 1, 3] hok
  obtain ⟨-, n, hfirsts⟩ := hrep.2 rfl
  exact ⟨rfl, n, hfirsts⟩

end Blockmon.Bloom
