import Blockmon.Lemmas.BloomSha1

/-!
# What the hash functions compute

The digests are those of the standards, for every message and for every way to cut it into inputs. Both implementations of SHA-1 are, and
the object of the second one refuses what it cannot hash.
-/

namespace Blockmon.Hash

open BlockHash (Scheme)

variable (memory : Nat → UInt8) (pieces : List Input)

/-- MD5, for any way to cut a message into inputs, and whatever is in the memory of the context. -/
theorem md5_standard : md5.digestOf memory pieces = Standards.md5.digest (pieces.map Subtype.val).flatten := by
  rw [Design.digestOf_eq, md5_digest]

/-- SHA-1. -/
theorem sha1_standard : sha1.digestOf memory pieces = Standards.sha1.digest (pieces.map Subtype.val).flatten := by
  rw [Design.digestOf_eq, sha1_digest]

/-- SHA-256 and SHA-224. -/
theorem sha2_standard : (sha2 false).digestOf memory pieces = Standards.sha256.digest (pieces.map Subtype.val).flatten ∧
    (sha2 true).digestOf memory pieces = Standards.sha224.digest (pieces.map Subtype.val).flatten := by
  rw [Design.digestOf_eq, Design.digestOf_eq, sha256_digest, sha224_digest]
  exact ⟨rfl, rfl⟩

/-- SHA-512 and SHA-384. -/
theorem sha4_standard : (sha4 false).digestOf memory pieces = Standards.sha512.digest (pieces.map Subtype.val).flatten ∧
    (sha4 true).digestOf memory pieces = Standards.sha384.digest (pieces.map Subtype.val).flatten := by
  rw [Design.digestOf_eq, Design.digestOf_eq, sha512_digest, sha384_digest]
  exact ⟨rfl, rfl⟩

/-- The keyed digests of all messages under one key, with a reset between them, for each of the six functions. -/
theorem hmac_standard (key : Input) (messages : List (List Input)) :
    md5.hmacRun (md5.hmacStarts memory (md5.fresh memory) key.val) messages
        = messages.map (fun pieces => Standards.md5.hmac key.val (pieces.map Subtype.val).flatten) ∧
      sha1.hmacRun (sha1.hmacStarts memory (sha1.fresh memory) key.val) messages
        = messages.map (fun pieces => Standards.sha1.hmac key.val (pieces.map Subtype.val).flatten) ∧
      (sha2 false).hmacRun ((sha2 false).hmacStarts memory ((sha2 false).fresh memory) key.val) messages
        = messages.map (fun pieces => Standards.sha256.hmac key.val (pieces.map Subtype.val).flatten) ∧
      (sha2 true).hmacRun ((sha2 true).hmacStarts memory ((sha2 true).fresh memory) key.val) messages
        = messages.map (fun pieces => Standards.sha224.hmac key.val (pieces.map Subtype.val).flatten) ∧
      (sha4 false).hmacRun ((sha4 false).hmacStarts memory ((sha4 false).fresh memory) key.val) messages
        = messages.map (fun pieces => Standards.sha512.hmac key.val (pieces.map Subtype.val).flatten) ∧
      (sha4 true).hmacRun ((sha4 true).hmacStarts memory ((sha4 true).fresh memory) key.val) messages
        = messages.map (fun pieces => Standards.sha384.hmac key.val (pieces.map Subtype.val).flatten) := by
  simp only [Design.hmacRun_starts, Scheme.hmac_congr md5_digest rfl, Scheme.hmac_congr sha1_digest rfl, Scheme.hmac_congr sha256_digest rfl,
    Scheme.hmac_congr sha224_digest rfl, Scheme.hmac_congr sha512_digest rfl, Scheme.hmac_congr sha384_digest rfl, and_self]

end Blockmon.Hash

namespace Blockmon.Bloom

open Standards (Quint bytesBE)
open BlockHash (absorb)

/-! ## The class `SHA1` -/

/-- What an object of the class is for: the message so far, whether its digest has been asked for, and whether it cannot be hashed any more. -/
structure Hasher where
  message : List UInt8
  computed : Bool
  corrupted : Bool

namespace Hasher

/-- A hasher that has seen nothing. -/
def new : Hasher := ⟨[], false, false⟩

/-- A message has less than 2^64 bits, and nothing comes behind it after the digest. -/
def input (a : Hasher) (bytes : List UInt8) : Hasher :=
  if bytes.length = 0 then a
  else if a.computed || a.corrupted then { a with corrupted := true }
  else { a with message := a.message ++ bytes, corrupted := decide (2 ^ 61 ≤ (a.message ++ bytes).length) }

/-- The results of the calls, with `none` where the class gives no result. -/
def run (a : Hasher) : List SHA1.Call → List (Option (List UInt8))
  | [] => []
  | .reset :: calls => run new calls
  | .input bytes :: calls => run (a.input bytes) calls
  | .result :: calls =>
    if a.corrupted then none :: run a calls else some (Standards.sha1.digest a.message) :: run { a with computed := true } calls

end Hasher

namespace SHA1

/-- What the members are after the calls that the hasher has seen. After an error nothing more is known of them. -/
structure Refines (s : SHA1) (a : Hasher) : Prop where
  length_block : s.messageBlock.length = 64
  corrupted : s.corrupted = a.corrupted
  computed : a.corrupted = false → s.computed = a.computed
  running : a.computed = false → a.corrupted = false → Holds a.message s ∧ a.message.length < 2 ^ 61
  done : a.computed = true → a.corrupted = false → s.H = absorb 64 Standards.Sha1.compress Standards.sha1.iv (Standards.sha1.pad a.message)

variable {s : SHA1} {a : Hasher}

/-- A reset is the start of the hasher. -/
theorem refines_reset (hlen : s.messageBlock.length = 64) : Refines s.reset Hasher.new where
  length_block := hlen
  corrupted := rfl
  computed := fun _ => rfl
  running := fun _ _ => ⟨holds_reset hlen, by decide⟩
  done := fun hcomputed => nomatch hcomputed

/-- An object that is corrupted stays so. -/
theorem refines_corrupted {s : SHA1} {a : Hasher} (hlen : s.messageBlock.length = 64) (hs : s.corrupted = true) (ha : a.corrupted = true) :
    Refines s a where
  length_block := hlen
  corrupted := by rw [hs, ha]
  computed := fun hgood => absurd (ha.symm.trans hgood) Bool.true_eq_false.mp
  running := fun _ hgood => absurd (ha.symm.trans hgood) Bool.true_eq_false.mp
  done := fun _ hgood => absurd (ha.symm.trans hgood) Bool.true_eq_false.mp

/-- Open for input: neither computed nor corrupted. -/
theorem Refines.closed_iff (h : Refines s a) : (s.computed || s.corrupted) = (a.computed || a.corrupted) := by
  cases hbad : a.corrupted with
  | true => rw [h.corrupted, hbad, Bool.or_true, Bool.or_true]
  | false => rw [h.corrupted, hbad, Bool.or_false, Bool.or_false, h.computed hbad]

/-- Bytes keep the refinement. -/
theorem Refines.input (h : Refines s a) (bytes : List UInt8) : Refines (s.input bytes) (a.input bytes) := by
  unfold SHA1.input Hasher.input
  rw [h.closed_iff]
  split
  · exact h
  · split
    · exact refines_corrupted h.length_block rfl rfl
    · next hopen =>
      obtain ⟨hcomputed, hcorrupted⟩ := Bool.or_eq_false_iff.mp (Bool.eq_false_iff.mpr hopen)
      obtain ⟨hholds, hshort⟩ := h.running hcomputed hcorrupted
      obtain ⟨hblock, hin, hout⟩ := inputLoop_spec hholds hshort bytes
      rcases Nat.lt_or_ge (a.message ++ bytes).length (2 ^ 61) with hfits | hlong
      · have hnext := hin hfits
        have hfine : decide (2 ^ 61 ≤ (a.message ++ bytes).length) = false := decide_eq_false (by omega)
        refine ⟨hblock, hnext.corrupted.trans hfine.symm, ?_, fun _ _ => ⟨hnext, hfits⟩, ?_⟩
        · intro _
          rw [hnext.computed, hcomputed]
        · intro hdone
          rw [hcomputed] at hdone
          nomatch hdone
      · exact refines_corrupted hblock (hout hlong) (decide_eq_true hlong)

/-- The words of the state are the digest. -/
theorem digest_words {x : Quint 32} {m : List UInt8} (hx : x = absorb 64 Standards.Sha1.compress Standards.sha1.iv (Standards.sha1.pad m)) :
    (x.toList.map bytesBE).flatten = Standards.sha1.digest m := by
  rw [hx]
  rfl

/-- The digest, and the object afterwards. -/
theorem Refines.result (h : Refines s a) (hgood : a.corrupted = false) :
    s.result.2.map (fun words => (words.map bytesBE).flatten) = some (Standards.sha1.digest a.message) ∧
      Refines s.result.1 { a with computed := true } := by
  have hopen : s.corrupted = false := h.corrupted.trans hgood
  unfold SHA1.result
  rw [hopen, if_neg Bool.false_ne_true, h.computed hgood]
  cases hcomputed : a.computed with
  | true =>
    have hH := h.done hcomputed hgood
    refine ⟨congrArg some (digest_words hH), h.length_block, h.corrupted, ?_, (fun hno => nomatch hno), fun _ _ => hH⟩
    intro _
    rw [if_pos rfl, h.computed hgood, hcomputed]
  | false =>
    obtain ⟨hholds, hshort⟩ := h.running hcomputed hgood
    obtain ⟨hH, hblock, hcorrupted⟩ := padMessage_spec hholds
    refine ⟨congrArg some (digest_words hH), hblock, hcorrupted.trans hgood.symm, fun _ => rfl, (fun hno => nomatch hno), fun _ _ => hH⟩

/-- By induction on the calls. -/
theorem Refines.run (h : Refines s a) (calls : List Call) :
    (s.run calls).map (Option.map fun words => (words.map bytesBE).flatten) = a.run calls := by
  induction calls generalizing s a with
  | nil => rfl
  | cons call calls ih =>
    cases call with
    | reset =>
      rw [SHA1.run, Hasher.run]
      exact ih (refines_reset h.length_block)
    | input bytes =>
      rw [SHA1.run, Hasher.run]
      exact ih (h.input bytes)
    | result =>
      rw [SHA1.run, Hasher.run, List.map_cons]
      cases hbad : a.corrupted with
      | true =>
        have hs : s.corrupted = true := h.corrupted.trans hbad
        have hsame : s.result = (s, none) := by rw [SHA1.result, if_pos hs]
        rw [if_pos rfl, hsame, ih h]
        rfl
      | false =>
        obtain ⟨hdigest, hnext⟩ := h.result hbad
        rw [hbad] at hnext
        rw [if_neg Bool.false_ne_true, hdigest, ih hnext]

/-- Whatever is called on an object, and in whatever order, it returns what its purpose says. -/
theorem sha1Class_standard (memory : Nat → UInt8) (calls : List Call) :
    ((new memory).run calls).map (Option.map fun words => (words.map bytesBE).flatten) = Hasher.new.run calls :=
  (refines_reset (s := ⟨⟨0, 0, 0, 0, 0⟩, 0, 0, (List.range 64).map memory, 0, false, false⟩)
    (by rw [List.length_map, List.length_range])).run calls

end SHA1

end Blockmon.Bloom
