import Blockmon.Lemmas.TagRegistry

/-!
# The layout of the tags

The objects of the registered tags lie apart from each other, at multiples of their sizes and in `buffer_size` bytes, exactly as long as their
blocks end where a `size_t` can. A tag that has been registered keeps its handle and its place in every run.
-/

namespace Blockmon.Tags

open Blocks

variable {τ : Type} {types : TagTypes τ}

/-- The blocks of the tags are disjoint, aligned and inside of the buffer. -/
structure LaidOut (types : TagTypes τ) (tags : List (Tag τ)) (ref : TagRegistry) : Prop where
  entries : ref.tagInfo.length = tags.length
  disjoint : (blocks types tags ref).Pairwise Blocks.Block.Disjoint
  aligned : ∀ b ∈ blocks types tags ref, b.size ∣ b.start
  contained : ∀ b ∈ blocks types tags ref, b.stop ≤ ref.bufferSize.toNat

/-- Tags have a size. -/
theorem sizes_pos (tags : List (Tag τ)) : ∀ s ∈ sizes types tags, 0 < s := by
  intro s hs
  obtain ⟨tag, -, rfl⟩ := List.mem_map.mp hs
  exact sizeofObject_pos types tag.type

/-- The tags are laid out just when their places do not wrap. -/
theorem laidOut_iff (tags : List (Tag τ)) : LaidOut types tags (laid types tags) ↔ stop 0 (sizes types tags) < 2 ^ 64 := by
  constructor
  · intro h
    refine fits_of_sound ⟨fun b hb => ⟨?_, h.aligned b hb⟩, h.disjoint⟩
    exact Nat.lt_of_le_of_lt (h.contained b hb) (laid types tags).bufferSize.toNat_lt
  · intro hfits
    obtain ⟨hnext, hblocks⟩ := blocks_eq hfits
    refine ⟨length_tagInfo types tags, ?_, ?_, ?_⟩
    · rw [hblocks]
      exact Blocks.disjoint 0 _
    · rw [hblocks]
      exact Blocks.aligned (sizes_pos tags)
    · intro b hb
      rw [hblocks] at hb
      rw [TagRegistry.bufferSize, hnext]
      exact (bounds b hb).2

/-- What a call that returns leaves: the tag is known by its id, and the handle is its index. -/
theorem known_of_returns (hinj : Function.Injective types.hashCode) {tags : List (Tag τ)} {c : Tag τ} (hid : 0 ∉ c.tagId) {h : Nat}
    {ref : TagRegistry} (hcall : (TagRegistry.registerTag types c.type c.tagId).run (laid types tags) = .ok h ref) :
    ref = laid types (registered tags c) ∧ (registered tags c).findIdx? (fun tag => tag.tagId = c.tagId) = some h ∧
      ∃ tag, (registered tags c)[h]? = some tag ∧ tag.type = c.type := by
  rw [registered]
  cases hfind : tags.findIdx? fun tag => tag.tagId = c.tagId with
  | none =>
    rw [registerTag_new hid hfind] at hcall
    obtain ⟨rfl, rfl⟩ := EStateM.Result.ok.inj hcall
    refine ⟨rfl, ?_, c, List.getElem?_concat_length, rfl⟩
    rw [List.findIdx?_append, hfind]
    simp
  | some i =>
    obtain ⟨tag, htag, -⟩ := exists_of_findIdx? hfind
    rw [registerTag_known types hid hfind htag] at hcall
    by_cases hhash : types.hashCode c.type = types.hashCode tag.type
    · rw [if_pos hhash] at hcall
      obtain ⟨rfl, rfl⟩ := EStateM.Result.ok.inj hcall
      exact ⟨rfl, hfind, tag, htag, (hinj hhash).symm⟩
    · rw [if_neg hhash] at hcall
      cases hcall

/-- The layout as long as the objects fit, and the registered tags in every run. -/
theorem tag_layout_and_handles (types : TagTypes τ) (hinj : Function.Injective types.hashCode) (calls : List (Tag τ))
    (hids : ∀ c ∈ calls, 0 ∉ c.tagId) :
    (LaidOut types (firsts calls) (run types calls) ↔ stop 0 (sizes types (firsts calls)) < 2 ^ 64) ∧
      ∀ before c after h ref, calls = before ++ c :: after →
        (TagRegistry.registerTag types c.type c.tagId).run (run types before) = .ok h ref →
          (TagRegistry.registerTag types c.type c.tagId).run (run types calls) = .ok h (run types calls) ∧
            (∀ t, t ≠ c.type → (TagRegistry.registerTag types t c.tagId).run (run types calls) =
              .error (.runtimeError "TagRegistry::register_tag: trying to register the same tag with different types") (run types calls)) ∧
            ∃ offset, ref.getInfo h = .ok (types.sizeofTag c.type, offset, types.hashCode c.type) ∧
              (run types calls).getInfo h = ref.getInfo h := by
  rw [run_eq_laid hids]
  refine ⟨laidOut_iff _, ?_⟩
  rintro before c after h ref rfl hcall
  have hid := hids c (List.mem_append_right _ List.mem_cons_self)
  rw [run_eq_laid fun c' hc' => hids c' (List.mem_append_left _ hc')] at hcall
  obtain ⟨rfl, hfind, tag, htag, htype⟩ := known_of_returns hinj hid hcall
  -- the tags after the call are there in the end
  have hext : registered (firsts before) c <+: firsts (before ++ c :: after) := by
    have hfirsts : firsts (before ++ [c]) = registered (firsts before) c := by
      rw [firsts, List.foldl_append]
      rfl
    have hall := prefix_firsts (before ++ [c]) after
    rwa [hfirsts, List.append_assoc, List.singleton_append] at hall
  have hfind' := findIdx?_of_prefix hext hfind
  have htag' := getElem?_of_prefix hext htag
  refine ⟨?_, fun t ht => ?_, ?_⟩
  · rw [registerTag_known types hid hfind' htag', htype, if_pos rfl]
  · have hother := registerTag_known types (c := ⟨t, c.tagId⟩) hid hfind' htag'
    rw [htype, if_neg fun hhash => ht (hinj hhash)] at hother
    exact hother
  · obtain ⟨offset, hm⟩ := getElem?_tagInfo types htag
    refine ⟨offset, ?_, getInfo_of_prefix hext (List.getElem?_eq_some_iff.mp htag).1⟩
    rw [getInfo_laid hm, htype]

/-- Two types of tags, of one byte and of eight. -/
def smallTypes : TagTypes Bool where
  hashCode t := if t then 1 else 2
  sizeofTag t := if t then 1 else 8
  valueOffset t := if t then 1 else 8
  sizeofObject t := if t then 2 else 16
  sizeofTag_pos := by decide
  valueOffset_pos := by decide
  value_le := by decide

/-- The small types have different hashes. -/
theorem injective_smallTypes : Function.Injective smallTypes.hashCode :=
  have h : ∀ t t', smallTypes.hashCode t = smallTypes.hashCode t' → t = t' := by decide
  fun t t' => h t t'

/-- The second call fails, the third one is answered from the first. -/
theorem small_layout :
    LaidOut smallTypes (firsts [⟨true, [97]⟩, ⟨false, [97]⟩, ⟨true, [97]⟩, ⟨false, [98]⟩])
      (run smallTypes [⟨true, [97]⟩, ⟨false, [97]⟩, ⟨true, [97]⟩, ⟨false, [98]⟩]) :=
  (tag_layout_and_handles smallTypes injective_smallTypes [⟨true, [97]⟩, ⟨false, [97]⟩, ⟨true, [97]⟩, ⟨false, [98]⟩]
    (by decide)).1.mpr (by decide)

/-- A type of tags with objects of 2^62 bytes. -/
def largeType : TagTypes Unit where
  hashCode _ := 0
  sizeofTag _ := .ofNat (2 ^ 62 - 1)
  valueOffset _ := 1
  sizeofObject _ := .ofNat (2 ^ 62)
  sizeofTag_pos _ := by decide
  valueOffset_pos _ := by decide
  value_le _ := by decide

/-- Four of them leave an offset of 0 behind. -/
theorem four_large_tags :
    Function.Injective largeType.hashCode ∧
      ¬LaidOut largeType (firsts [⟨(), [97]⟩, ⟨(), [98]⟩, ⟨(), [99]⟩, ⟨(), [100]⟩])
        (run largeType [⟨(), [97]⟩, ⟨(), [98]⟩, ⟨(), [99]⟩, ⟨(), [100]⟩]) := by
  refine ⟨fun t t' _ => rfl, fun h => ?_⟩
  rw [run_eq_laid (by decide), laidOut_iff] at h
  exact absurd h (by decide)

end Blockmon.Tags

/-!
## When access to a tag stays in its buffer

The assertions compare the end of a tag of the registered size, counted from the beginning of its object, with the length of the buffer. The
object is longer, so a buffer that ends in it behind that point lets a call through that goes past its end. A buffer that was made with
`buffer_size` bytes never ends there.
-/

namespace Blockmon.Tags

open Blocks

variable {τ : Type}

/-- An access to a tag. -/
inductive Access (τ : Type) where
  | emplace (t : τ) (args : Nat)
  | get (t : τ)
  | available

/-- The object that a call works on if its assertions let it through. -/
def Access.extent (level : AssertLevel) (types : TagTypes τ) (ref : TagRegistry) (buf : TagBuffer) (h : Nat) :
    Access τ → Except TagError Extent
  | .emplace t args => (emplaceTag level types ref buf h t args).map Prod.fst
  | .get t => (getTag level types ref buf h t).map Prod.fst
  | .available => (isAvailableTag level ref buf h).map Prod.fst

/-- The bytes are inside of the buffer. -/
def Extent.Within (e : Extent) (buf : TagBuffer) : Prop := e.offset + e.length ≤ buf.len.toNat

/-- The types that the second assertion takes for the type of a registered tag. -/
def Admits (level : AssertLevel) (types : TagTypes τ) (tag t : τ) : Prop :=
  match level with
  | .off => True
  | .abort => t = tag
  | .throw => (if types.hashCode tag = 0 then 1 else 0) ≠ types.hashCode t

/-- For each tag the buffer ends too early for the first assertion, or behind the object. -/
def NotCut (level : AssertLevel) (types : TagTypes τ) (tags : List (Tag τ)) (ref : TagRegistry) (buf : TagBuffer) : Prop :=
  ∀ h tag size offset hashCode, tags[h]? = some tag → ref.getInfo h = .ok (size, offset, hashCode) → ∀ t, Admits level types tag.type t →
    (level ≠ .off ∧ buf.len.toNat < (offset.toNat + (types.sizeofTag tag.type).toNat) % 2 ^ 64) ∨
      offset.toNat + (types.sizeofObject t).toNat ≤ buf.len.toNat

/-! ## The assertions -/

section Assertions

variable {level : AssertLevel} {types : TagTypes τ}

/-- An assertion passes when it is off or true. -/
theorem blockmonAssert_eq_ok {expr : Bool} {reason : String} : blockmonAssert level expr reason = .ok () ↔ level = .off ∨ expr = true := by
  cases level <;> cases expr <;> simp [blockmonAssert]

/-- The assertion about the type passes when the level admits the type. -/
theorem blockmonAssertHash_eq_ok (hinj : Function.Injective types.hashCode) {tag t : τ} {reason : String} :
    blockmonAssertHash level (types.hashCode tag) (types.hashCode t) reason = .ok () ↔ Admits level types tag t := by
  cases level with
  | off => simp [blockmonAssertHash, Admits]
  | abort =>
    rw [blockmonAssertHash, Admits]
    by_cases h : t = tag
    · simp [h]
    · have hhash : types.hashCode tag ≠ types.hashCode t := fun h' => h (hinj h').symm
      simp [h, hhash]
  | throw =>
    rw [blockmonAssertHash, Admits]
    by_cases h : (if types.hashCode tag = 0 then 1 else 0) = types.hashCode t <;> simp [h]

/-- Every level admits the type of the tag. -/
theorem admits_self (level : AssertLevel) (types : TagTypes τ) (tag : τ) : Admits level types tag tag := by
  cases level with
  | off => trivial
  | abort => exact rfl
  | throw =>
    rw [Admits]
    by_cases h : types.hashCode tag = 0
    · rw [if_pos h, h]
      decide
    · rw [if_neg h]
      exact fun h' => h h'.symm

/-- The first assertion, on the registered size. -/
theorem sizeAssert_iff {buf : TagBuffer} {size offset : UInt64} {reason : String} :
    blockmonAssert level (offset + size ≤ buf.len) reason = .ok () ↔
      ¬(level ≠ .off ∧ buf.len.toNat < (offset.toNat + size.toNat) % 2 ^ 64) := by
  rw [blockmonAssert_eq_ok, decide_eq_true_iff, UInt64.le_iff_toNat_le, UInt64.toNat_add]
  by_cases h : level = .off
  · simp [h]
  · simp [h]

/-- A guard in front of a call. -/
theorem guard_eq_ok {α : Type} {x : Except TagError Unit} {y : Except TagError α} {r : α} :
    (x >>= fun _ => y) = .ok r ↔ x = .ok () ∧ y = .ok r := by
  rw [Exn.except_bind_eq_ok]
  exact ⟨fun ⟨_, hx, hy⟩ => ⟨hx, hy⟩, fun ⟨hx, hy⟩ => ⟨(), hx, hy⟩⟩

variable {ref : TagRegistry} {buf : TagBuffer} {h : Nat} {size offset : UInt64} {tag t : τ} {e : Extent}

/-- The first of two results. -/
theorem map_fst_eq_ok {α β : Type} {x : Except TagError (α × β)} {a : α} : x.map Prod.fst = .ok a ↔ ∃ b, x = .ok (a, b) := by
  cases x with
  | error e => simp [Except.map]
  | ok r => simp [Except.map, Prod.ext_iff]

/-- A call on an object of the type is let through by both assertions. -/
theorem asserted_extent (hinj : Function.Injective types.hashCode) {reason reason' : String} {α : Type} (v : α) :
    (do
      blockmonAssert level (offset + size ≤ buf.len) reason
      blockmonAssertHash level (types.hashCode tag) (types.hashCode t) reason'
      .ok (({ offset := offset.toNat, length := (types.sizeofObject t).toNat } : Extent), v)).map Prod.fst = .ok e ↔
      ¬(level ≠ .off ∧ buf.len.toNat < (offset.toNat + size.toNat) % 2 ^ 64) ∧ Admits level types tag t ∧
        e = { offset := offset.toNat, length := (types.sizeofObject t).toNat } := by
  rw [map_fst_eq_ok]
  simp only [guard_eq_ok, sizeAssert_iff, blockmonAssertHash_eq_ok hinj, Except.ok.injEq, Prod.mk.injEq]
  grind

/-- The bytes that `emplace` writes, where it succeeds. -/
theorem extent_emplace (hinj : Function.Injective types.hashCode) (hinfo : ref.getInfo h = .ok (size, offset, types.hashCode tag))
    {args : Nat} : (Access.emplace t args).extent level types ref buf h = .ok e ↔
      ¬(level ≠ .off ∧ buf.len.toNat < (offset.toNat + size.toNat) % 2 ^ 64) ∧ Admits level types tag t ∧
        e = { offset := offset.toNat, length := (types.sizeofObject t).toNat } := by
  rw [Access.extent, emplaceTag, Exn.except_bind_of_ok hinfo]
  exact asserted_extent hinj _

/-- The bytes that `get` reads, where it succeeds. -/
theorem extent_get (hinj : Function.Injective types.hashCode) (hinfo : ref.getInfo h = .ok (size, offset, types.hashCode tag)) :
    (Access.get t).extent level types ref buf h = .ok e ↔
      ¬(level ≠ .off ∧ buf.len.toNat < (offset.toNat + size.toNat) % 2 ^ 64) ∧ Admits level types tag t ∧
        e = { offset := offset.toNat, length := (types.sizeofObject t).toNat } := by
  rw [Access.extent, getTag, Exn.except_bind_of_ok hinfo]
  exact asserted_extent hinj _

/-- The bytes that `available` reads, where it succeeds. -/
theorem extent_available {hashCode : UInt64} (hinfo : ref.getInfo h = .ok (size, offset, hashCode)) :
    (Access.available (τ := τ)).extent level types ref buf h = .ok e ↔
      ¬(level ≠ .off ∧ buf.len.toNat < (offset.toNat + size.toNat) % 2 ^ 64) ∧
        e = { offset := offset.toNat, length := sizeofTagBase } := by
  rw [Access.extent, map_fst_eq_ok, isAvailableTag, Exn.except_bind_of_ok hinfo]
  simp only [guard_eq_ok, sizeAssert_iff, Except.ok.injEq, Prod.mk.injEq]
  grind

end Assertions

/-- Access stays in the buffer exactly if the buffer ends in none of the objects that the assertions let it end in. -/
theorem tag_access_within_iff (level : AssertLevel) (types : TagTypes τ) (hinj : Function.Injective types.hashCode) (calls : List (Tag τ))
    (hids : ∀ c ∈ calls, 0 ∉ c.tagId) (buf : TagBuffer) :
    (∀ h < (run types calls).tagInfo.length, ∀ (a : Access τ) (e : Extent),
      a.extent level types (run types calls) buf h = .ok e → e.Within buf) ↔
      NotCut level types (firsts calls) (run types calls) buf := by
  rw [run_eq_laid hids, length_tagInfo]
  constructor
  · intro hwithin h tag size offset hashCode htag hinfo t hadmits
    obtain ⟨hm, rfl, rfl⟩ := noted_of_getInfo htag hinfo
    by_contra hcut
    rw [not_or] at hcut
    have hextent : (Access.emplace t 0).extent level types (laid types (firsts calls)) buf h =
        .ok { offset := offset.toNat, length := (types.sizeofObject t).toNat } := (extent_emplace hinj hinfo).mpr ⟨hcut.1, hadmits, rfl⟩
    exact hcut.2 (hwithin h (List.getElem?_eq_some_iff.mp htag).1 _ _ hextent)
  · intro hcut h hlt a e hextent
    obtain ⟨offset, hm⟩ := getElem?_tagInfo types (List.getElem?_eq_getElem hlt)
    have hinfo := getInfo_laid hm
    have hentry := hcut h _ _ _ _ (List.getElem?_eq_getElem hlt) hinfo
    cases a with
    | emplace t args =>
      obtain ⟨hpass, hadmits, rfl⟩ := (extent_emplace hinj hinfo).mp hextent
      exact (hentry t hadmits).resolve_left hpass
    | get t =>
      obtain ⟨hpass, hadmits, rfl⟩ := (extent_get hinj hinfo).mp hextent
      exact (hentry t hadmits).resolve_left hpass
    | available =>
      obtain ⟨hpass, rfl⟩ := (extent_available hinfo).mp hextent
      have hobject := (hentry _ (admits_self level types _)).resolve_left hpass
      have hpos := sizeofObject_pos types (firsts calls)[h].type
      rw [Extent.Within, sizeofTagBase]
      dsimp only
      omega

/-! ## Buffers of the size that the registry asks for -/

/-- The block of a tag. -/
theorem getElem?_blocks {types : TagTypes τ} {tags : List (Tag τ)} {h : Nat} {tag : Tag τ} {offset : UInt64} (htag : tags[h]? = some tag)
    (hm : (laid types tags).tagInfo[h]? = some (noted types tag offset)) :
    (blocks types tags (laid types tags))[h]? = some { start := offset.toNat, size := (types.sizeofObject tag.type).toNat } := by
  rw [blocks, List.getElem?_zipWith, htag, hm]
  rfl

/-- A buffer that was made at any point of a run may be used at any later point of it, as long as the objects fit. -/
theorem notCut_of_bufferSize (types : TagTypes τ) {before after : List (Tag τ)} (hids : ∀ c ∈ before ++ after, 0 ∉ c.tagId)
    (hfits : stop 0 (sizes types (firsts (before ++ after))) < 2 ^ 64) {buf : TagBuffer}
    (hlen : buf.len = (run types before).bufferSize) :
    NotCut .abort types (firsts (before ++ after)) (run types (before ++ after)) buf := by
  rw [run_eq_laid hids]
  rw [run_eq_laid fun c hc => hids c (List.mem_append_left _ hc), TagRegistry.bufferSize] at hlen
  obtain ⟨-, hblocks⟩ := blocks_eq hfits
  obtain ⟨rest, hrest⟩ := prefix_firsts before after
  have hsizes : sizes types (firsts (before ++ after)) = sizes types (firsts before) ++ sizes types rest := by
    rw [← hrest, sizes, List.map_append]
    rfl
  rw [hsizes] at hblocks hfits
  obtain ⟨hnext, -⟩ := blocks_eq (Nat.lt_of_le_of_lt (stop_le_append _ _ _) hfits)
  rw [← hlen] at hnext
  rintro h tag size offset hashCode htag hinfo t rfl
  obtain ⟨hm, rfl, rfl⟩ := noted_of_getInfo htag hinfo
  have hblock := List.mem_of_getElem? (getElem?_blocks htag hm)
  rw [hblocks, place_append, List.mem_append] at hblock
  rw [hnext]
  rcases hblock with hin | hbehind
  · -- the tag was there when the buffer was made
    exact Or.inr (bounds _ hin).2
  · obtain ⟨hstart, hstop⟩ := bounds _ hbehind
    rw [← stop_append, Blocks.Block.stop] at hstop
    have hvalue := types.value_le tag.type
    have hpos := types.sizeofTag_pos tag.type
    dsimp only at hstart hstop
    refine Or.inl ⟨by simp, ?_⟩
    rw [Nat.mod_eq_of_lt (by omega)]
    omega

/-- A buffer that was made before the second tag was registered. -/
theorem small_access :
    (Access.emplace true 1).extent .abort smallTypes (run smallTypes ([⟨true, [97]⟩] ++ [⟨false, [98]⟩])) ⟨2, fun _ => false⟩ 0 =
        .ok ⟨0, 2⟩ ∧ Extent.Within ⟨0, 2⟩ ⟨2, fun _ => false⟩ := by
  have hids : ∀ c ∈ ([⟨true, [97]⟩] ++ [⟨false, [98]⟩] : List (Tag Bool)), 0 ∉ c.tagId := by decide
  have hlen : (2 : UInt64) = (run smallTypes [⟨true, [97]⟩]).bufferSize := rfl
  have hextent : (Access.emplace true 1).extent .abort smallTypes (run smallTypes ([⟨true, [97]⟩] ++ [⟨false, [98]⟩]))
      ⟨2, fun _ => false⟩ 0 = .ok ⟨0, 2⟩ := rfl
  have hwithin := (tag_access_within_iff .abort smallTypes injective_smallTypes _ hids ⟨2, fun _ => false⟩).mpr
    (notCut_of_bufferSize smallTypes hids (by decide) hlen)
  exact ⟨hextent, hwithin 0 (by decide) _ _ hextent⟩

/-- A buffer of one byte lets an object of two bytes through. -/
theorem flag_without_value :
    ∃ h < (run smallTypes [⟨true, [97]⟩]).tagInfo.length, ∃ (a : Access Bool) (e : Extent),
      a.extent .abort smallTypes (run smallTypes [⟨true, [97]⟩]) ⟨1, fun _ => false⟩ h = .ok e ∧ ¬e.Within ⟨1, fun _ => false⟩ :=
  ⟨0, by decide, .emplace true 1, ⟨0, 2⟩, rfl, by simp [Extent.Within]⟩

end Blockmon.Tags
