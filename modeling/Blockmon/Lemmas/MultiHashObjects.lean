import Blockmon.Lemmas.Rehash
import Blockmon.MultiHashObjects

/-!
# What the members keep

`Represented` is what the members rely on. Each of them keeps it under a condition of its own; the lemmas are in the order of the members.
-/

namespace Blockmon.MultiHash

/-- The digests have the bits of the hashes, and `msgdig` has their bytes and four more. -/
structure Represented (h : KHASH) : Prop extends h.Sized where
  bytes_pos : 0 < h.hashdiglen.toNat
  width : 8 * h.hashdiglen.toNat < 2 ^ 32
  todo_pos : 0 < h.hashtodo.toNat
  enough : h.shash.toNat * h.nhash.toNat ≤ 8 * (h.hashtodo.toNat * h.hashdiglen.toNat)

/-- A copy inside of both arrays. -/
theorem memcpy_ok {α : Type} {n m : Nat} (size : Nat) (dest : Vector α n) (src : Vector α m) (bytes : Nat) (hdest : bytes ≤ size * n) (hsrc : bytes ≤ size * m) :
    ∃ dest', memcpy size dest src bytes = .ok dest' := ⟨_, if_pos ⟨hdest, hsrc⟩⟩

/-- The constructor makes representable objects. -/
theorem represented_khash {memory : Nat → UInt32} {hash : HASH} {nhash shash : UInt32} {norep : Bool} {h : KHASH}
    (hok : khash memory hash nhash shash norep = .ok h) (hcounted : Counted hash.msgdigestlen nhash shash)
    (hall : ¬LastLeftOut hash.msgdigestlen nhash shash) : Represented h := by
  have hmade := madeOf_khash hok
  have hsized := hmade.sized hcounted
  have henough := (bits_le_iff hcounted).mpr hall
  obtain ⟨-, hlen, hnhash, hshash, htodo⟩ := hmade
  exact ⟨hsized, by rw [hlen]; exact hcounted.pos, by rw [hlen]; exact hcounted.width, by rw [htodo]; exact hashesToDo_pos hcounted,
    by rw [htodo, hlen, hnhash, hshash]; exact henough⟩

/-- It speaks of the sizes only. -/
theorem Represented.congr {h h' : KHASH} (hrep : Represented h) (hhash : h'.hash = h.hash) (hlen : h'.hashdiglen = h.hashdiglen)
    (hnhash : h'.nhash = h.nhash) (hshash : h'.shash = h.shash) (htodo : h'.hashtodo = h.hashtodo) : Represented h' := by
  obtain ⟨⟨hlen_eq, hroom⟩, hpos, hwidth, htodo_pos, henough⟩ := hrep
  constructor
  · constructor
    · rw [hlen, hlen_eq, hhash]
    · rw [htodo, hlen]
      exact hroom
  · rw [hlen]
    exact hpos
  · rw [hlen]
    exact hwidth
  · rw [htodo]
    exact htodo_pos
  · rw [hshash, hnhash, htodo, hlen]
    exact henough

/-! ## Copies -/

/-- An object without hashes answers to no number. -/
theorem H_of_none {h : KHASH} (hnone : h.nhash = 0) (k : UInt32) : h.H k = .error (.assertion "(k<nhash)") := by
  rw [KHASH.H, dif_neg]
  rw [hnone]
  exact Nat.not_lt_zero _

/-- A copy of no hashes. -/
structure Copied (h h' : KHASH) : Prop where
  represented : Represented h'
  none : h'.nhash = 0

/-- A copy has the same hashes, where none are to be done. -/
theorem Copied.H_eq {h h' : KHASH} (hcopied : Copied h h') (hnone : h.nhash = 0) (k : UInt32) : h'.H k = h.H k := by
  rw [H_of_none hcopied.none, H_of_none hnone]

section Copies

variable {h : KHASH} (memory : Memory) (hrep : Represented h) (hnone : h.nhash = 0)

include hrep hnone

/-- The copy constructor, with the array of its own size. -/
theorem khashCopy_ok (hsame : memory.hashtodo = h.hashtodo) : ∃ h', khashCopy memory h = .ok h' ∧ Copied h h' := by
  have hwords : (h.nhash <<< 3).toNat = 0 := by
    rw [hnone]
    rfl
  obtain ⟨res, hres⟩ := memcpy_ok 4 (Vector.ofFn fun i => memory.res i : Vector UInt32 h.nhash.toNat) h.res (h.nhash <<< 3).toNat
    (by omega) (by omega)
  obtain ⟨msgdig, hmsgdig⟩ := memcpy_ok 1
    (Vector.ofFn fun i => memory.msgdig i : Vector UInt8 (memory.hashtodo * h.hashdiglen + 4).toNat) h.msgdig
    (memory.hashtodo * h.hashdiglen + 4).toNat (Nat.le_of_eq (Nat.one_mul _).symm) (by rw [hsame, Nat.one_mul])
  exact ⟨_, (Exn.except_bind_of_ok hres).trans (Exn.except_bind_of_ok hmsgdig), hrep.congr rfl rfl rfl rfl hsame, hnone⟩

/-- The assignment, with the array of its own size. -/
theorem operatorAssign_ok (same : Bool) : ∃ h', operatorAssign memory same h = .ok h' ∧ Copied h h' := by
  have hwords : (h.nhash <<< 3).toNat = 0 := by
    rw [hnone]
    rfl
  have hbytes := Nat.le_of_eq (Nat.one_mul (h.hashtodo * h.hashdiglen + 4).toNat).symm
  obtain ⟨res, hres⟩ := memcpy_ok 4 (Vector.ofFn fun i => memory.res i : Vector UInt32 h.nhash.toNat)
    (if same then Vector.ofFn fun i => memory.res i else h.res) (h.nhash <<< 3).toNat (by omega) (by omega)
  obtain ⟨msgdig, hmsgdig⟩ := memcpy_ok 1
    (Vector.ofFn fun i => memory.msgdig i : Vector UInt8 (h.hashtodo * h.hashdiglen + 4).toNat)
    (if same then Vector.ofFn fun i => memory.msgdig i else h.msgdig) (h.hashtodo * h.hashdiglen + 4).toNat hbytes hbytes
  exact ⟨_, (Exn.except_bind_of_ok hres).trans (Exn.except_bind_of_ok hmsgdig), hrep.congr rfl rfl rfl rfl rfl, hnone⟩

end Copies

namespace Represented

variable {h : KHASH} (hrep : Represented h)

include hrep

/-! ## A hash more or less -/

theorem incNhash (memory : Memory) (hroom : h.shash.toNat * (h.nhash + 1).toNat ≤ 8 * (h.hashtodo.toNat * h.hashdiglen.toNat)) :
    Represented (incNhash memory h) :=
  ⟨⟨hrep.hashdiglen_eq, hrep.room⟩, hrep.bytes_pos, hrep.width, hrep.todo_pos, hroom⟩

/-- Eight times as many bits as are needed. -/
theorem decNhash (memory : Memory) (hmore : 1 < h.nhash.toNat) (hbits : 8 * (h.shash.toNat * (h.nhash.toNat - 1)) < 2 ^ 32) :
    Represented (decNhash memory h) := by
  have hpos := hrep.bytes_pos
  have hwidth := hrep.width
  have hless : (h.nhash - 1).toNat = h.nhash.toNat - 1 :=
    UInt32.toNat_sub_of_le _ _ (UInt32.le_iff_toNat_le.mpr (Nat.le_of_lt hmore))
  obtain ⟨needed, hneeded⟩ : ∃ needed, h.shash.toNat * (h.nhash.toNat - 1) = needed := ⟨_, rfl⟩
  have hbitneeded : ((h.shash * (h.nhash - 1)) <<< 3).toNat = 8 * needed := by
    have hshift : ((h.shash * (h.nhash - 1)) <<< 3).toNat = (h.shash * (h.nhash - 1)).toNat * 8 % 2 ^ 32 := by simp [Nat.shiftLeft_eq]
    rw [hshift, UInt32.toNat_mul, hless, hneeded, Nat.mod_eq_of_lt (show needed < 2 ^ 32 by omega), Nat.mul_comm,
      Nat.mod_eq_of_lt (by omega)]
  have hdiv : 8 * needed / (8 * h.hashdiglen.toNat) = needed / h.hashdiglen.toNat := Nat.mul_div_mul_left _ _ (by decide)
  have hcount := toNat_hashesToDoFor hwidth ((h.shash * (h.nhash - 1)) <<< 3)
  rw [hbitneeded, hdiv] at hcount
  obtain ⟨todo, htodo⟩ : ∃ todo, (hashesToDoFor h.hashdiglen ((h.shash * (h.nhash - 1)) <<< 3)).toNat = todo := ⟨_, rfl⟩
  rw [htodo] at hcount
  -- the whole digests, of which there is one at least, or one more
  have hwhole : 0 < todo ∧ needed / h.hashdiglen.toNat ≤ todo ∧ todo ≤ needed / h.hashdiglen.toNat + 1 := by
    split at hcount
    · rename_i hcheck
      refine ⟨Nat.pos_of_ne_zero fun hzero => ?_, by omega, by omega⟩
      rw [← hcount, hzero, Nat.zero_mul, Nat.zero_mod] at hcheck
      omega
    · rw [hcount]
      exact ⟨Nat.succ_pos _, Nat.le_succ _, Nat.le_refl _⟩
  have hdiv_mod := Nat.div_add_mod' needed h.hashdiglen.toNat
  have hmod := Nat.mod_lt needed hpos
  have hone := Nat.mul_le_mul_right h.hashdiglen.toNat hwhole.1
  have hlow := Nat.mul_le_mul_right h.hashdiglen.toNat hwhole.2.1
  have hhigh := Nat.mul_le_mul_right h.hashdiglen.toNat hwhole.2.2
  rw [Nat.add_one_mul] at hhigh
  refine ⟨⟨hrep.hashdiglen_eq, ?_⟩, hpos, hwidth, ?_, ?_⟩
  · change (hashesToDoFor h.hashdiglen ((h.shash * (h.nhash - 1)) <<< 3)).toNat * h.hashdiglen.toNat + 4 < 2 ^ 32
    rw [htodo]
    omega
  · change 0 < (hashesToDoFor h.hashdiglen ((h.shash * (h.nhash - 1)) <<< 3)).toNat
    rw [htodo]
    exact hwhole.1
  · change h.shash.toNat * (h.nhash - 1).toNat ≤
      8 * ((hashesToDoFor h.hashdiglen ((h.shash * (h.nhash - 1)) <<< 3)).toNat * h.hashdiglen.toNat)
    rw [htodo, hless, hneeded]
    omega

/-! ## A call -/

/-- The loop returns if the hash function reads no further than the array. -/
theorem rehashLoop_ok {len : Nat} (hlen : len ≤ 2 * h.hashdiglen.toNat + 4) (passes : Nat) {i : UInt32} (hi : 0 < i.toNat)
    (hle : i.toNat + passes ≤ h.hashtodo.toNat) (msgdig : Vector UInt8 (h.hashtodo * h.hashdiglen + 4).toNat) :
    ∃ msgdig', h.rehashLoop len passes i msgdig = .ok msgdig' := by
  induction passes generalizing i msgdig with
  | zero => exact ⟨msgdig, rfl⟩
  | succ passes ih =>
    have hsized := hrep.toSized
    have hsize := hsized.toNat_size
    have hbytes : h.hash.msgdigestlen.toNat = h.hashdiglen.toNat := congrArg UInt32.toNat hsized.hashdiglen_eq.symm
    obtain ⟨i', hi'⟩ := Nat.exists_eq_succ_of_ne_zero (Nat.ne_of_gt hi)
    have hbefore : (i - 1).toNat = i' := toNat_pred hi'
    have hafter : (i + 1).toNat = i.toNat + 1 := toNat_succ (k := h.hashtodo) (by omega)
    have hto := hsized.place_le (i := i.toNat) (by omega)
    have hfrom := hsized.toNat_place (i := i - 1) (by omega)
    have hplace := hsized.toNat_place (i := i) (by omega)
    rw [hbefore] at hfrom
    have hnext : i.toNat * h.hashdiglen.toNat = i' * h.hashdiglen.toNat + h.hashdiglen.toNat := by rw [hi', Nat.succ_mul]
    have hread : readBytes msgdig ((i - 1) * h.hashdiglen).toNat len =
        .ok ((msgdig.toList.drop ((i - 1) * h.hashdiglen).toNat).take len) := if_pos (by omega)
    obtain ⟨msgdig₁, hwrite⟩ := writeBytes_ok msgdig (i * h.hashdiglen).toNat
      (h.hash.compute ((msgdig.toList.drop ((i - 1) * h.hashdiglen).toNat).take len)) (by rw [h.hash.length_compute]; omega)
    obtain ⟨msgdig', hloop⟩ := ih (i := i + 1) (by omega) (by omega) msgdig₁
    exact ⟨msgdig', by rw [KHASH.rehashLoop, Exn.except_bind_of_ok hread, Exn.except_bind_of_ok hwrite, hloop]⟩

/-- A call returns if the hash function reads no further than the array. -/
theorem compute_ok {key : List UInt8} (hread : h.hashtodo.toNat ≤ 1 ∨ key.length ≤ 2 * h.hashdiglen.toNat + 4) :
    ∃ h', h.compute key = .ok h' ∧ Represented h' := by
  have hsized := hrep.toSized
  have hsize := hsized.toNat_size
  have hfirst := hsized.place_le hrep.todo_pos
  rw [Nat.zero_mul, Nat.zero_add, ← h.hash.length_compute key] at hfirst
  obtain ⟨msgdig₁, hwrite⟩ := writeBytes_ok h.msgdig 0 (h.hash.compute key) (by omega)
  obtain ⟨msgdig, hloop⟩ : ∃ msgdig, h.rehashLoop key.length (h.hashtodo.toNat - 1) 1 msgdig₁ = .ok msgdig := by
    rcases hread with hone | hlen
    · rw [Nat.sub_eq_zero_of_le hone]
      exact ⟨msgdig₁, rfl⟩
    · have htodo := hrep.todo_pos
      exact hrep.rehashLoop_ok hlen _ (by decide) (by rw [UInt32.toNat_one]; omega) msgdig₁
  have hpass : ∀ i, 0 ≤ i → i < 0 + h.nhash.toNat → ∃ r, h.extract msgdig (h.offset i) (h.offset (i + 1)) = .ok r ∧ True := by
    intro i _ hi
    rw [Nat.zero_add] at hi
    have henough := hrep.enough
    have hplace : ∀ j ≤ h.nhash.toNat, (h.offset j).toNat ≤ h.shash.toNat * h.nhash.toNat := by
      intro j hj
      refine Nat.le_trans (Nat.mod_le _ _) ?_
      rw [Nat.mul_comm]
      exact Nat.mul_le_mul_left _ hj
    have hstart := hplace i (Nat.le_of_lt hi)
    have hend := hplace (i + 1) hi
    obtain ⟨r, hr⟩ := h.extract_ok msgdig (h.offset i) (h.offset (i + 1)) (by omega) (by omega)
    exact ⟨r, hr, trivial⟩
  obtain ⟨res, hextract, -⟩ := h.extractLoop_ok h.nhash.toNat 0 h.res hpass
  have hzero : h.offset 0 = 0 := by simp [KHASH.offset]
  have hone : h.offset 1 = h.shash := by simp [KHASH.offset]
  rw [Nat.zero_add, hzero, hone] at hextract
  refine ⟨{ h with res := res, msgdig := msgdig }, ?_, hrep.congr rfl rfl rfl rfl rfl⟩
  rw [KHASH.compute, Exn.except_bind_of_ok hwrite, Exn.except_bind_of_ok hloop, Exn.except_bind_of_ok hextract]

end Represented

end Blockmon.MultiHash
