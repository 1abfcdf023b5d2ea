import Blockmon.Lemmas.MultiHash

/-!
# What a call that returns has left

A call changes the arrays only (`compute_eq_ok`). A byte of `msgdig` that no digest sets stays unset (`Sized.compute_byte`), and where a hash
ought to have its bit, the hash does not have it (`Sized.lost_bit`).
-/

namespace Blockmon.MultiHash

open BitWindow

namespace KHASH

variable {h h' : KHASH} {key : List UInt8}

/-- What the calculation consists of. -/
theorem compute_eq_ok (hok : h.compute key = .ok h') : ∃ msgdig₁ msgdig res,
    writeBytes h.msgdig 0 (h.hash.compute key) = .ok msgdig₁ ∧
    h.rehashLoop key.length (h.hashtodo.toNat - 1) 1 msgdig₁ = .ok msgdig ∧
    h.extractLoop msgdig h.nhash.toNat 0 0 h.shash h.res = .ok res ∧ h' = { h with res := res, msgdig := msgdig } := by
  rw [compute] at hok
  obtain ⟨msgdig₁, hwrite, hok⟩ := Exn.except_bind_eq_ok.mp hok
  obtain ⟨msgdig, hloop, hok⟩ := Exn.except_bind_eq_ok.mp hok
  obtain ⟨res, hextract, hok⟩ := Exn.except_bind_eq_ok.mp hok
  exact ⟨msgdig₁, msgdig, res, hwrite, hloop, hextract, (Except.ok.inj hok).symm⟩

namespace Sized

/-- No digest of a key of this length, at the place where it lies, sets the byte. -/
def Unset (h : KHASH) (len g : Nat) : Prop :=
  ∀ i < h.hashtodo.toNat, ∀ key : List UInt8, key.length = len → i * h.hashdiglen.toNat ≤ g →
    g < i * h.hashdiglen.toNat + h.hash.msgdigestlen.toNat → (h.hash.compute key).getD (g - i * h.hashdiglen.toNat) 0 = 0

/-- A pass of the loop. -/
theorem pass_byte (hsized : Sized h) {len g : Nat} (hunset : Unset h len g) {i : UInt32} (hi : i.toNat < h.hashtodo.toNat) {key : List UInt8}
    (hkey : key.length = len) {msgdig msgdig' : Vector UInt8 (h.hashtodo * h.hashdiglen + 4).toNat}
    (hwrite : writeBytes msgdig (i * h.hashdiglen).toNat (h.hash.compute key) = .ok msgdig')
    (hzero : msgdig.getD g 0 = 0 ∨ i.toNat * h.hashdiglen.toNat ≤ g ∧ g < i.toNat * h.hashdiglen.toNat + h.hash.msgdigestlen.toNat) :
    msgdig'.getD g 0 = 0 := by
  rw [writeBytes_getD hwrite, hsized.toNat_place (Nat.le_of_lt hi), h.hash.length_compute]
  split
  · rename_i hin
    exact hunset i.toNat hi key hkey hin.1 hin.2
  · rename_i hout
    exact hzero.resolve_right hout

/-- A byte of the digests after the loop. -/
theorem rehashLoop_byte (hsized : Sized h) {len g : Nat} (hunset : Unset h len g) (passes : Nat) {i : UInt32}
    {msgdig msgdig' : Vector UInt8 (h.hashtodo * h.hashdiglen + 4).toNat} (hle : i.toNat + passes ≤ h.hashtodo.toNat)
    (hok : h.rehashLoop len passes i msgdig = .ok msgdig') (hzero : msgdig.getD g 0 = 0) : msgdig'.getD g 0 = 0 := by
  induction passes generalizing i msgdig with
  | zero =>
    cases hok
    exact hzero
  | succ passes ih =>
    obtain ⟨key, hread, hok⟩ := Exn.except_bind_eq_ok.mp hok
    obtain ⟨msgdig₁, hwrite, hok⟩ := Exn.except_bind_eq_ok.mp hok
    have hafter : (i + 1).toNat = i.toNat + 1 := toNat_succ (k := h.hashtodo) (by omega)
    exact ih (by omega) hok (hsized.pass_byte hunset (by omega) (readBytes_length hread) hwrite (Or.inl hzero))

/-- A byte that was not set, or that the second digest covers. -/
theorem compute_byte (hsized : Sized h) {g : Nat} (hunset : Unset h key.length g) (htodo : 0 < h.hashtodo.toNat)
    (hok : h.compute key = .ok h') (hzero : h.msgdig.getD g 0 = 0 ∨
      1 < h.hashtodo.toNat ∧ h.hashdiglen.toNat ≤ g ∧ g < h.hashdiglen.toNat + h.hash.msgdigestlen.toNat) : h'.msgdig.getD g 0 = 0 := by
  obtain ⟨msgdig₁, msgdig, res, hwrite, hloop, -, rfl⟩ := compute_eq_ok hok
  change msgdig.getD g 0 = 0
  have hplace : ((0 : UInt32) * h.hashdiglen).toNat = 0 := by rw [UInt32.zero_mul]; rfl
  rcases hzero with hzero | ⟨htwo, hcovered⟩
  · have hfirst := hsized.pass_byte hunset (i := 0) htodo rfl (by rw [hplace]; exact hwrite) (Or.inl hzero)
    exact hsized.rehashLoop_byte hunset _ (by rw [UInt32.toNat_one]; omega) hloop hfirst
  · obtain ⟨passes, hpasses⟩ : ∃ passes, h.hashtodo.toNat - 1 = passes + 1 := ⟨h.hashtodo.toNat - 2, by omega⟩
    rw [hpasses] at hloop
    obtain ⟨key', hread, hloop⟩ := Exn.except_bind_eq_ok.mp hloop
    obtain ⟨msgdig₂, hwrite₂, hloop⟩ := Exn.except_bind_eq_ok.mp hloop
    have hsecond := hsized.pass_byte hunset (i := 1) (by rw [UInt32.toNat_one]; exact htwo) (readBytes_length hread) hwrite₂
      (Or.inr (by rw [UInt32.toNat_one, Nat.one_mul]; exact hcovered))
    exact hsized.rehashLoop_byte hunset passes (by change 2 + passes ≤ _; omega) hloop hsecond

/-- The hash that ought to begin or go on with the lowest bit of an unset byte does not have the bit. -/
theorem lost_bit (hsized : Sized h) (hok : h.compute key = .ok h') {g : Nat} (hplace : g ≤ h.hashtodo.toNat * h.hashdiglen.toNat)
    (hbits : h.shash.toNat * h.nhash.toNat < 2 ^ 32) (hneeded : 8 * g < h.shash.toNat * h.nhash.toNat) (hzero : h'.msgdig.getD g 0 = 0) :
    ∃ k < h.nhash, ∀ r, h'.H k = .ok r → ∀ b, b (8 * g) = true → r.toNat ≠ window b (k.toNat * h.shash.toNat) h.shash.toNat := by
  obtain ⟨msgdig₁, msgdig, res, -, -, hextract, rfl⟩ := compute_eq_ok hok
  change msgdig.getD g 0 = 0 at hzero
  have hpos := h.toNat_shash_pos
  have hle := h.toNat_shash_le
  have hsize := hsized.toNat_size
  have hmod := Nat.mod_lt (8 * g) hpos
  have hdiv := Nat.div_add_mod (8 * g) h.shash.toNat
  have hk : 8 * g / h.shash.toNat < h.nhash.toNat := (Nat.div_lt_iff_lt_mul hpos).mpr (by rwa [Nat.mul_comm h.nhash.toNat])
  obtain ⟨k, hk_eq⟩ : ∃ k, 8 * g / h.shash.toNat = k := ⟨_, rfl⟩
  rw [hk_eq] at hdiv hk
  rw [Nat.mul_comm] at hdiv
  have hstart := toNat_offset hbits (Nat.le_of_lt hk)
  have hendoffset := (toNat_offset_succ hbits hk).1
  have hzero' : h.offset 0 = 0 := by simp [offset]
  have hone' : h.offset 1 = h.shash := by simp [offset]
  have hpass := (h.extractLoop_eq_ok h.nhash.toNat 0 (by rw [hzero', Nat.zero_add, hone']; exact hextract) k hk).2 (Nat.zero_le k) (by omega)
  obtain ⟨r, hr, hwindow⟩ := h.extract_window msgdig (h.offset k) (h.offset (k + 1)) (by omega)
    fun hlong => ⟨by omega, by omega⟩
  rw [hr] at hpass
  have hword : (UInt32.ofNat k).toNat = k := UInt32.toNat_ofNat_of_lt' (show k < 2 ^ 32 by have := h.nhash.toNat_lt; omega)
  refine ⟨UInt32.ofNat k, by rwa [UInt32.lt_iff_toNat_lt, hword], fun r' hr' b hb heq => ?_⟩
  have hH : H { h with res := res, msgdig := msgdig } (UInt32.ofNat k) = .ok r := by
    rw [H, dif_pos (by rw [hword]; exact hk)]
    simp only [hword]
    exact congrArg Except.ok (Except.ok.inj hpass).symm
  rw [hH] at hr'
  rw [← Except.ok.inj hr', hwindow, hstart, hword] at heq
  have hbit := congrArg (Nat.testBit · (8 * g % h.shash.toNat)) heq
  simp only [testBit_window, hmod, decide_true, Bool.true_and, hdiv, hb] at hbit
  rw [bits, bitsOf, Nat.mul_div_cancel_left _ (by decide), hzero] at hbit
  simp at hbit

end Sized

end KHASH

/-! ## The number of the digests -/

section Chain

variable {digestlen nhash shash : UInt32}

/-- The bits of a digest, and those of the hashes, are not more than the word counts. -/
structure Counted (digestlen nhash shash : UInt32) : Prop where
  pos : 0 < digestlen.toNat
  width : 8 * digestlen.toNat < 2 ^ 32
  bits : shash.toNat * nhash.toNat < 2 ^ 32

/-- The word in which the constructor checks the number of the digests takes the bits for exactly those of one digest, and the last digest that is
needed is not computed. -/
def LastLeftOut (digestlen nhash shash : UInt32) : Prop :=
  shash.toNat * nhash.toNat / (8 * digestlen.toNat) * (shash.toNat * nhash.toNat) % 2 ^ 32 = 8 * digestlen.toNat ∧
    shash.toNat * nhash.toNat % (8 * digestlen.toNat) ≠ 0

instance decidableLastLeftOut : Decidable (LastLeftOut digestlen nhash shash) := inferInstanceAs (Decidable (_ ∧ _))

/-- One digest is enough or the key is as long as one, and all the digests that are needed are computed. -/
def Rehashable (digestlen nhash shash : UInt32) (key : List UInt8) : Prop :=
  (shash.toNat * nhash.toNat ≤ 8 * digestlen.toNat ∨ key.length = digestlen.toNat) ∧ ¬LastLeftOut digestlen nhash shash

/-- The bits of the digests that are computed are enough, unless the last one is left out. -/
theorem bits_le_iff (hcounted : Counted digestlen nhash shash) :
    shash.toNat * nhash.toNat ≤ 8 * ((hashesToDo digestlen nhash shash).toNat * digestlen.toNat) ↔ ¬LastLeftOut digestlen nhash shash := by
  have hpos := hcounted.pos
  have hdiv := Nat.div_add_mod (shash.toNat * nhash.toNat) (8 * digestlen.toNat)
  have hmod := Nat.mod_lt (shash.toNat * nhash.toNat) (show 0 < 8 * digestlen.toNat by omega)
  rw [Nat.mul_comm] at hdiv
  rw [toNat_hashesToDo hcounted.width hcounted.bits, LastLeftOut, Nat.mul_left_comm]
  by_cases hcheck : shash.toNat * nhash.toNat / (8 * digestlen.toNat) * (shash.toNat * nhash.toNat) % 2 ^ 32 = 8 * digestlen.toNat
  · rw [if_pos hcheck]
    simp only [hcheck, true_and, ne_eq, not_not]
    omega
  · have hsucc := Nat.add_one_mul (shash.toNat * nhash.toNat / (8 * digestlen.toNat)) (8 * digestlen.toNat)
    rw [if_neg hcheck]
    simp only [hcheck, false_and, not_false_eq_true, iff_true]
    omega

/-- There is a hash to do. -/
theorem hashesToDo_pos (hcounted : Counted digestlen nhash shash) :
    0 < (hashesToDo digestlen nhash shash).toNat := by
  have hpos := hcounted.pos
  rw [toNat_hashesToDo hcounted.width hcounted.bits]
  split
  · rename_i hcheck
    refine Nat.pos_of_ne_zero fun hzero => ?_
    rw [hzero, Nat.zero_mul, Nat.zero_mod] at hcheck
    omega
  · exact Nat.succ_pos _

/-- One digest is not enough, and the loop has a pass. -/
theorem hashesToDo_two (hcounted : Counted digestlen nhash shash)
    (hmany : 8 * digestlen.toNat < shash.toNat * nhash.toNat) : 1 < (hashesToDo digestlen nhash shash).toNat := by
  have hpos := hcounted.pos
  have hdiv : 1 ≤ shash.toNat * nhash.toNat / (8 * digestlen.toNat) := Nat.div_pos (Nat.le_of_lt hmany) (by omega)
  rw [toNat_hashesToDo hcounted.width hcounted.bits]
  split
  · rename_i hcheck
    refine Nat.lt_of_le_of_ne hdiv fun hone => ?_
    rw [← hone, Nat.one_mul, Nat.mod_eq_of_lt hcounted.bits] at hcheck
    omega
  · exact Nat.succ_le_succ hdiv

end Chain

/-! ## The state between the calls -/

section Calls

variable {h h' : KHASH} {hash : HASH} {nhash shash : UInt32} {key : List UInt8}

/-- The calculation keeps what was made. -/
theorem MadeOf.compute (hmade : MadeOf h hash nhash shash) (hok : h.compute key = .ok h') : MadeOf h' hash nhash shash := by
  obtain ⟨msgdig₁, msgdig, res, -, -, -, rfl⟩ := KHASH.compute_eq_ok hok
  exact ⟨hmade.hash_eq, hmade.hashdiglen_eq, hmade.nhash_eq, hmade.shash_eq, hmade.hashtodo_eq⟩

/-- What was made has its sizes. -/
theorem MadeOf.sized (hmade : MadeOf h hash nhash shash) (hcounted : Counted hash.msgdigestlen nhash shash) : h.Sized := by
  refine ⟨by rw [hmade.hashdiglen_eq, hmade.hash_eq], ?_⟩
  have hle : (hashesToDo hash.msgdigestlen nhash shash).toNat ≤ shash.toNat * nhash.toNat / (8 * hash.msgdigestlen.toNat) + 1 := by
    rw [toNat_hashesToDo hcounted.width hcounted.bits]
    split <;> omega
  have hpos := hcounted.pos
  have hwidth := hcounted.width
  have hbits := hcounted.bits
  have hdiv := Nat.div_mul_le_self (shash.toNat * nhash.toNat) (8 * hash.msgdigestlen.toNat)
  have hplaces := Nat.mul_le_mul_right hash.msgdigestlen.toNat hle
  rw [Nat.mul_left_comm] at hdiv
  rw [Nat.succ_mul] at hplaces
  rw [hmade.hashtodo_eq, hmade.hashdiglen_eq]
  omega

namespace KHASH

/-- The four bytes behind the digests are unset. -/
def Padded (h : KHASH) : Prop := ∀ g, h.hashtodo.toNat * h.hashdiglen.toNat ≤ g → h.msgdig.getD g 0 = 0

/-- The constructor pads the digests. -/
theorem padded_khash {memory : Nat → UInt32} {norep : Bool} (hok : khash memory hash nhash shash norep = .ok h) : Padded h := by
  rw [khash] at hok
  split at hok
  · obtain ⟨u, -, hok⟩ := Exn.except_bind_eq_ok.mp hok
    cases hok
    intro g _
    exact getD_replicate_zero _ g
  · cases hok

/-- The calculation keeps the padding. -/
theorem Padded.compute (hpadded : Padded h) (hsized : Sized h) (htodo : 0 < h.hashtodo.toNat) (hok : h.compute key = .ok h') : Padded h' := by
  intro g hg
  have hunset : Sized.Unset h key.length g := by
    intro i hi _ _ _ hlt
    have := hsized.place_le hi
    obtain ⟨msgdig₁, msgdig, res, -, -, -, rfl⟩ := compute_eq_ok hok
    change h.hashtodo.toNat * h.hashdiglen.toNat ≤ g at hg
    omega
  refine hsized.compute_byte hunset htodo hok (Or.inl (hpadded g ?_))
  obtain ⟨msgdig₁, msgdig, res, -, -, -, rfl⟩ := compute_eq_ok hok
  exact hg

/-- A call of which the digests are those of the chain. -/
theorem compute_rehashable (hmade : MadeOf h hash nhash shash) (hcounted : Counted hash.msgdigestlen nhash shash)
    (hkey : Rehashable hash.msgdigestlen nhash shash key) : ∃ h', h.compute key = .ok h' ∧ ∀ k < nhash, ∃ r, h'.H k = .ok r ∧
      r.toNat = window (hash.chainBits key) (k.toNat * shash.toNat) shash.toNat := by
  have hbits := hcounted.bits
  have hsized := hmade.sized hcounted
  have henough := (bits_le_iff hcounted).mpr hkey.2
  obtain ⟨hhash, hlen, hnhash, hshash, htodo⟩ := hmade
  rw [← hnhash, ← hshash] at hbits henough
  have hone : h.hashtodo.toNat = 1 ∨ key.length = h.hash.msgdigestlen.toNat := by
    rw [hhash, htodo]
    refine hkey.1.imp_left fun hfit => ?_
    rw [hashesToDo_one hcounted.pos hcounted.width hfit]
    rfl
  have hin : ∀ i < h.nhash.toNat, (h.offset i).toNat + h.shash.toNat ≤ 8 * (h.hashtodo.toNat * h.hashdiglen.toNat) := by
    intro i hi
    obtain ⟨hsum, hle⟩ := toNat_offset_succ hbits hi
    rw [htodo, hlen, ← hsum]
    rw [← hnhash, ← hshash]
    exact Nat.le_trans hle henough
  obtain ⟨res, msgdig, hcompute, hres⟩ := hsized.compute_chain key (by rw [htodo]; exact hashesToDo_pos hcounted) hone hin
    fun i hi _ => (toNat_offset_succ hbits hi).1
  refine ⟨_, hcompute, fun k hk => ?_⟩
  have hk' : k.toNat < h.nhash.toNat := by
    rw [hnhash]
    exact UInt32.lt_iff_toNat_lt.mp hk
  refine ⟨res[k.toNat], dif_pos hk', ?_⟩
  rw [hres k.toNat hk', hhash, toNat_offset hbits (Nat.le_of_lt hk'), hshash]

/-- A sequence of calls that returns. -/
theorem foldlM_padded (hmade : MadeOf h hash nhash shash) (hpadded : Padded h) (hcounted : Counted hash.msgdigestlen nhash shash) (keys : List (List UInt8))
    (hok : keys.foldlM KHASH.compute h = .ok h') : MadeOf h' hash nhash shash ∧ Padded h' := by
  induction keys generalizing h with
  | nil =>
    cases hok
    exact ⟨hmade, hpadded⟩
  | cons key keys ih =>
    rw [List.foldlM_cons] at hok
    obtain ⟨h₁, hcompute, hok⟩ := Exn.except_bind_eq_ok.mp hok
    have htodo : 0 < h.hashtodo.toNat := by
      rw [hmade.hashtodo_eq]
      exact hashesToDo_pos hcounted
    exact ih (hmade.compute hcompute) (hpadded.compute (hmade.sized hcounted) htodo hcompute) hok

/-- A sequence of calls of which the digests are those of the chain. -/
theorem foldlM_rehashable (hmade : MadeOf h hash nhash shash) (hcounted : Counted hash.msgdigestlen nhash shash) (keys : List (List UInt8))
    (hkeys : ∀ key ∈ keys, Rehashable hash.msgdigestlen nhash shash key) : ∃ h', keys.foldlM KHASH.compute h = .ok h' := by
  induction keys generalizing h with
  | nil => exact ⟨h, rfl⟩
  | cons key keys ih =>
    obtain ⟨h₁, hcompute, -⟩ := compute_rehashable hmade hcounted (hkeys key List.mem_cons_self)
    obtain ⟨h', hrun⟩ := ih (hmade.compute hcompute) fun key' hkey' => hkeys key' (List.mem_cons_of_mem _ hkey')
    exact ⟨h', by rw [List.foldlM_cons, Exn.except_bind_of_ok hcompute, hrun]⟩

end KHASH

end Calls

end Blockmon.MultiHash
