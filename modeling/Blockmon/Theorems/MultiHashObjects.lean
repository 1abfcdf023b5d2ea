import Blockmon.Lemmas.MultiHashObjects
import Blockmon.Theorems.Rehash

/-!
# Objects and their copies

Each member has its own formula for the sizes. Under the condition `Sound` on the objects a call finds, it returns, the sizes stay in the
relation that the members rely on, and a copy answers like what it is a copy of.
-/

namespace Blockmon.MultiHash

/-- `res` has an entry for each hash, the digests have bits for all of them, and `msgdig` has the bytes of the digests and four more. -/
structure Sizes (h : KHASH) : Prop where
  res : h.res.toList.length = h.nhash.toNat
  enough : h.shash.toNat * h.nhash.toNat ≤ h.hashtodo.toNat * h.hashdiglen.toNat * 8
  msgdig : h.msgdig.toList.length = h.hashtodo.toNat * h.hashdiglen.toNat + 4

/-- The arrays of a representable object have their sizes. -/
theorem Represented.sizes {h : KHASH} (hrep : Represented h) : Sizes h := by
  have henough := hrep.enough
  have hsize := hrep.toSized.toNat_size
  exact ⟨h.res.length_toList, by omega, h.msgdig.length_toList.trans hsize⟩

/-- The condition of a call: what the constructor asserts and counts, a copy of no hashes, one more hash only if the digests have the bits, one
less if the word counts eight times the bits, and a key that is not too long to be read from `msgdig`. -/
def Sound (objects : List KHASH) : Call → Prop
  | .construct _ hash nhash shash norep =>
    (shash ≤ 32 ∧ shash ≤ hash.getDigestLength * 8 ∧ 0 < shash) ∧ (norep = true → shash < 32 ∧ nhash ≤ 1 <<< shash) ∧
      8 * hash.msgdigestlen.toNat < 2 ^ 32 ∧ shash.toNat * nhash.toNat < 2 ^ 32 ∧ ¬LastLeftOut hash.msgdigestlen nhash shash
  | .copyConstruct memory i => ∀ copy, objects[i]? = some copy → copy.nhash = 0 ∧ memory.hashtodo = copy.hashtodo
  | .assign _ _ j => ∀ copy, objects[j]? = some copy → copy.nhash = 0
  | .incNhash _ i => ∀ h, objects[i]? = some h → h.shash.toNat * (h.nhash + 1).toNat ≤ 8 * (h.hashtodo.toNat * h.hashdiglen.toNat)
  | .decNhash _ i => ∀ h, objects[i]? = some h → 1 < h.nhash.toNat ∧ 8 * (h.shash.toNat * (h.nhash.toNat - 1)) < 2 ^ 32
  | .compute i key => ∀ h, objects[i]? = some h → h.hashtodo.toNat ≤ 1 ∨ key.length ≤ 2 * h.hashdiglen.toNat + 4

/-- A copy, or an object after an assignment, has the hashes of its source. -/
def CopyAnswers (objects after : List KHASH) : Call → Prop
  | .copyConstruct _ i => ∀ copy, objects[i]? = some copy → ∃ h, after = objects ++ [h] ∧ ∀ k, h.H k = copy.H k
  | .assign _ i j => ∀ copy, objects[j]? = some copy → ∀ h, after[i]? = some h → ∀ k, h.H k = copy.H k
  | _ => True

section Calls

variable {objects : List KHASH}

/-- An object that is made is appended to the others. -/
theorem newObject_ok (hrep : ∀ h ∈ objects, Represented h) {made : Except Fault KHASH} {h : KHASH} (hok : made = .ok h) (hnew : Represented h) :
    newObject objects made = .ok (objects ++ [h]) ∧ ∀ h' ∈ objects ++ [h], Represented h' := by
  refine ⟨by rw [newObject, Exn.except_bind_of_ok hok], fun h' hh' => ?_⟩
  rcases List.mem_append.mp hh' with hold | hlast
  · exact hrep h' hold
  · rw [List.mem_singleton.mp hlast]
    exact hnew

/-- A call on one object leaves the others as they were. -/
theorem onObject_ok (hrep : ∀ h ∈ objects, Represented h) {i : Nat} {f : KHASH → Except Fault KHASH} {Q : KHASH → Prop}
    (hf : ∀ h, objects[i]? = some h → ∃ h', f h = .ok h' ∧ Represented h' ∧ Q h') :
    ∃ after, onObject objects i f = .ok after ∧ (∀ h ∈ after, Represented h) ∧ ∀ h, after[i]? = some h → Q h := by
  rw [onObject]
  cases hi : objects[i]? with
  | none =>
    refine ⟨objects, rfl, hrep, fun h hh => ?_⟩
    rw [hi] at hh
    cases hh
  | some h =>
    obtain ⟨h', hok, hrep', hQ⟩ := hf h hi
    refine ⟨objects.set i h', Exn.except_bind_of_ok hok, fun g hg => ?_, fun g hg => ?_⟩
    · rcases List.mem_or_eq_of_mem_set hg with hold | rfl
      · exact hrep g hold
      · exact hrep'
    · obtain ⟨hlt, -⟩ := List.getElem?_eq_some_iff.mp hi
      rw [List.getElem?_set_self hlt] at hg
      cases hg
      exact hQ

/-- One call. -/
theorem call_ok (hrep : ∀ h ∈ objects, Represented h) (c : Call) (hsound : Sound objects c) :
    ∃ after, call objects c = .ok after ∧ (∀ h ∈ after, Represented h) ∧ CopyAnswers objects after c := by
  cases c with
  | construct memory hash nhash shash norep =>
    obtain ⟨hassert, hnorep, hwidth, hbits, hall⟩ := hsound
    obtain ⟨h, hok⟩ := khash_returns memory.res hassert hnorep
    have hcounted : Counted hash.msgdigestlen nhash shash := ⟨digestlen_pos hash hassert, hwidth, hbits⟩
    obtain ⟨hmade, hall'⟩ := newObject_ok hrep hok (represented_khash hok hcounted hall)
    exact ⟨_, hmade, hall', trivial⟩
  | copyConstruct memory i =>
    rw [call]
    cases hi : objects[i]? with
    | none =>
      refine ⟨objects, rfl, hrep, fun copy hcopy => ?_⟩
      rw [hi] at hcopy
      cases hcopy
    | some copy =>
      obtain ⟨hnone, hsame⟩ := hsound copy hi
      obtain ⟨h, hok, hcopied⟩ := khashCopy_ok memory (hrep copy (List.mem_of_getElem? hi)) hnone hsame
      obtain ⟨hmade, hall⟩ := newObject_ok hrep hok hcopied.represented
      refine ⟨_, hmade, hall, fun copy' hcopy' => ⟨h, rfl, ?_⟩⟩
      rw [hi] at hcopy'
      cases hcopy'
      exact hcopied.H_eq hnone
  | assign memory i j =>
    rw [call]
    cases hj : objects[j]? with
    | none =>
      refine ⟨objects, rfl, hrep, fun copy hcopy => ?_⟩
      rw [hj] at hcopy
      cases hcopy
    | some copy =>
      have hnone := hsound copy hj
      obtain ⟨h, hok, hcopied⟩ := operatorAssign_ok memory (hrep copy (List.mem_of_getElem? hj)) hnone (i == j)
      obtain ⟨after, hafter, hall, hanswers⟩ := onObject_ok (Q := fun h => ∀ k, h.H k = copy.H k) hrep (i := i)
        fun _ _ => ⟨h, hok, hcopied.represented, hcopied.H_eq hnone⟩
      refine ⟨after, hafter, hall, fun copy' hcopy' => ?_⟩
      rw [hj] at hcopy'
      cases hcopy'
      exact hanswers
  | incNhash memory i =>
    obtain ⟨after, hafter, hall, -⟩ := onObject_ok (Q := fun _ => True) hrep (i := i)
      fun h hi => ⟨_, rfl, (hrep h (List.mem_of_getElem? hi)).incNhash memory (hsound h hi), trivial⟩
    exact ⟨after, hafter, hall, trivial⟩
  | decNhash memory i =>
    obtain ⟨after, hafter, hall, -⟩ := onObject_ok (Q := fun _ => True) hrep (i := i)
      fun h hi => ⟨_, rfl, (hrep h (List.mem_of_getElem? hi)).decNhash memory (hsound h hi).1 (hsound h hi).2, trivial⟩
    exact ⟨after, hafter, hall, trivial⟩
  | compute i key =>
    obtain ⟨after, hafter, hall, -⟩ := onObject_ok (f := fun h => h.compute key) (Q := fun _ => True) hrep (i := i) fun h hi => by
      obtain ⟨h', hok, hrep'⟩ := (hrep h (List.mem_of_getElem? hi)).compute_ok (hsound h hi)
      exact ⟨h', hok, hrep', trivial⟩
    exact ⟨after, hafter, hall, trivial⟩

end Calls

/-- Each call of a sequence meets its condition on the objects it finds. -/
def SoundRun : List KHASH → List Call → Prop
  | _, [] => True
  | objects, c :: calls => Sound objects c ∧ ∀ after, call objects c = .ok after → SoundRun after calls

/-- In every sequence of calls of which each meets its condition, each call returns, all objects that it leaves have the sizes, and a copy or an
assignment gives the hashes of its source. -/
theorem khash_representation (calls : List Call) (hsound : SoundRun [] calls) :
    ∀ before c, before ++ [c] <+: calls → ∃ objects after, before.foldlM call [] = .ok objects ∧ call objects c = .ok after ∧
      (∀ h ∈ after, Sizes h) ∧ CopyAnswers objects after c := by
  intro before c hprefix
  have hrun : ∀ objects, (∀ h ∈ objects, Represented h) → SoundRun objects calls → ∃ found after, before.foldlM call objects = .ok found ∧
      call found c = .ok after ∧ (∀ h ∈ after, Sizes h) ∧ CopyAnswers found after c := by
    clear hsound
    induction before generalizing calls with
    | nil =>
      intro objects hrep hsound
      obtain ⟨later, rfl⟩ := hprefix
      obtain ⟨after, hafter, hrep', hanswers⟩ := call_ok hrep c hsound.1
      exact ⟨objects, after, rfl, hafter, fun h hh => (hrep' h hh).sizes, hanswers⟩
    | cons b before ih =>
      intro objects hrep hsound
      obtain ⟨later, rfl⟩ := hprefix
      obtain ⟨next, hnext, hrep', -⟩ := call_ok hrep b hsound.1
      obtain ⟨found, after, hfound, hafter⟩ := ih _ ⟨later, rfl⟩ next hrep' (hsound.2 next hnext)
      exact ⟨found, after, by rw [List.foldlM_cons, Exn.except_bind_of_ok hnext, hfound], hafter⟩
  exact hrun [] (by simp) hsound

/-- Storage that holds zeros, and a one where an object has its `hashtodo`. -/
def blank : Memory := { res := fun _ => 0, msgdig := fun _ => 0, hashtodo := 1 }

/-- One more hash and one less, a hash of a key, and a copy of an object that has no hashes. -/
def sixCalls : List Call :=
  [.construct blank sumHash 1 8 false, .incNhash blank 0, .decNhash blank 0, .compute 0 [1, 2, 3], .construct blank sumHash 0 8 false,
    .copyConstruct blank 1]

/-- After six calls a copy of the blank object has the same hashes. -/
theorem khash_representation_blank : ∃ objects after copy h, sixCalls.dropLast.foldlM call [] = .ok objects ∧
    call objects (.copyConstruct blank 1) = .ok after ∧ (∀ h ∈ after, Sizes h) ∧ objects[1]? = some copy ∧ after = objects ++ [h] ∧
      ∀ k, h.H k = copy.H k := by
  have hsound : SoundRun [] sixCalls := by
    refine ⟨by simp only [Sound]; decide, fun _ hmade => ?_⟩
    cases hmade
    refine ⟨fun h hh => ?_, fun _ hmore => ?_⟩
    · cases hh
      decide
    · cases hmore
      refine ⟨fun h hh => ?_, fun _ hless => ?_⟩
      · cases hh
        decide
      · cases hless
        refine ⟨fun h hh => ?_, fun _ hhashed => ?_⟩
        · cases hh
          decide
        · cases hhashed
          refine ⟨by simp only [Sound]; decide, fun _ hmade => ?_⟩
          cases hmade
          refine ⟨fun copy hcopy => ?_, fun _ _ => trivial⟩
          cases hcopy
          decide
  obtain ⟨objects, after, hobjects, hafter, hsizes, hcopies⟩ := khash_representation sixCalls hsound sixCalls.dropLast
    (.copyConstruct blank 1) (List.prefix_refl _)
  have hcopy : ∃ copy, objects[1]? = some copy := by
    cases hobjects
    exact ⟨_, rfl⟩
  obtain ⟨copy, hcopy⟩ := hcopy
  obtain ⟨h, hsplit, hH⟩ := hcopies copy hcopy
  exact ⟨objects, after, copy, h, hobjects, hafter, hsizes, hcopy, hsplit, hH⟩

/-- A copy and an assignment write behind the new array; one more hash has no bits. -/
theorem khash_representation_broken :
    [Call.construct blank sumHash 1 16 false, .copyConstruct blank 0].foldlM call [] = .error .outOfBounds ∧
    [Call.construct blank sumHash 1 16 false, .assign blank 0 0].foldlM call [] = .error .outOfBounds ∧
    ∃ h, [Call.construct blank sumHash 1 16 false, .incNhash blank 0].foldlM call [] = .ok [h] ∧ ¬Sizes h := by
  refine ⟨rfl, rfl, _, rfl, fun hsizes => ?_⟩
  exact absurd hsizes.enough (by decide)

end Blockmon.MultiHash
