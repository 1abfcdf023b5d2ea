import Blockmon.TagRegistry
import Blockmon.Lib.Blocks
import Mathlib.Data.List.Induction
import Mathlib.Data.List.TakeWhile

/-!
# What calls make of the registry

The registry stands for the list of the tags that have been registered, each at its first call: `laid` is the registry of such a list, a
call on it is a call on the list (`registered`), and the objects of the tags are blocks in the sense of `Blocks`, as long as no offset wraps.
-/

namespace Blockmon.Tags

open Blocks

/-- A tag as a call asks for it. -/
structure Tag (τ : Type) where
  type : τ
  tagId : List UInt8

section Tags

variable {τ : Type} (types : TagTypes τ)

/-- What a call does to the list of tags. -/
def registered (tags : List (Tag τ)) (c : Tag τ) : List (Tag τ) :=
  match tags.findIdx? fun tag => tag.tagId = c.tagId with
  | some _ => tags
  | none => tags ++ [c]

/-- The tags of a sequence of calls, each at the first call with its id. -/
def firsts (calls : List (Tag τ)) : List (Tag τ) := calls.foldl registered []

/-- The registry after a call. -/
def step (ref : TagRegistry) (c : Tag τ) : TagRegistry := Exn.leaves ((TagRegistry.registerTag types c.type c.tagId).run ref)

/-- The registry after a sequence of calls, whether they return or throw. -/
def run (calls : List (Tag τ)) : TagRegistry := calls.foldl (step types) TagRegistry.empty

/-- The registry with the tags, one after the other. -/
def laid (tags : List (Tag τ)) : TagRegistry := tags.foldl (fun ref tag => ref.add types tag.type tag.tagId) TagRegistry.empty

/-- What the registry notes of a tag. -/
def noted (tag : Tag τ) (offset : UInt64) : TagMetadata where
  size := types.sizeofTag tag.type
  offset := offset
  hashCode := types.hashCode tag.type
  tagId := tag.tagId

variable {types}

/-- The last tag is added to the others. -/
theorem laid_concat (tags : List (Tag τ)) (c : Tag τ) : laid types (tags ++ [c]) = (laid types tags).add types c.type c.tagId := by
  rw [laid, List.foldl_append]
  rfl

/-- The last tag has the last entry. -/
theorem tagInfo_concat (tags : List (Tag τ)) (c : Tag τ) :
    (laid types (tags ++ [c])).tagInfo = (laid types tags).tagInfo ++ [noted types c ((laid types tags).aligned types c.type)] := by
  rw [laid_concat]
  rfl

/-- The identifiers are those of the tags. -/
theorem ids_laid (types : TagTypes τ) (tags : List (Tag τ)) : (laid types tags).tagInfo.map TagMetadata.tagId = tags.map Tag.tagId := by
  induction tags using List.reverseRecOn with
  | nil => rfl
  | append_singleton tags c ih => rw [tagInfo_concat, List.map_append, List.map_append, ih, List.map_singleton, List.map_singleton, noted]

/-- There is an entry for each tag. -/
theorem length_tagInfo (types : TagTypes τ) (tags : List (Tag τ)) : (laid types tags).tagInfo.length = tags.length := by
  have h := congrArg List.length (ids_laid types tags)
  rwa [List.length_map, List.length_map] at h

/-- A tag keeps its entry, whatever is registered behind it. -/
theorem tagInfo_isPrefix_append (tags more : List (Tag τ)) : (laid types tags).tagInfo <+: (laid types (tags ++ more)).tagInfo := by
  induction more using List.reverseRecOn with
  | nil => simp
  | append_singleton more c ih =>
    rw [← List.append_assoc, tagInfo_concat]
    exact ih.trans (List.prefix_append _ _)

/-- What is in a list is in a longer one. -/
theorem getElem?_of_prefix {α : Type} {l l' : List α} (h : l <+: l') {i : Nat} {x : α} (hx : l[i]? = some x) : l'[i]? = some x := by
  obtain ⟨rest, rfl⟩ := h
  rw [List.getElem?_append_left (List.getElem?_eq_some_iff.mp hx).1]
  exact hx

/-- The entry of a tag. -/
theorem getElem?_tagInfo (types : TagTypes τ) {tags : List (Tag τ)} {h : Nat} {tag : Tag τ} (htag : tags[h]? = some tag) :
    ∃ offset, (laid types tags).tagInfo[h]? = some (noted types tag offset) := by
  induction tags using List.reverseRecOn with
  | nil => cases htag
  | append_singleton tags c ih =>
    rcases Nat.lt_or_ge h tags.length with hlt | hge
    · rw [List.getElem?_append_left hlt] at htag
      obtain ⟨offset, hoffset⟩ := ih htag
      exact ⟨offset, getElem?_of_prefix (tagInfo_isPrefix_append tags [c]) hoffset⟩
    · have hlen : h = tags.length := by
        have := (List.getElem?_eq_some_iff.mp htag).1
        rw [List.length_append, List.length_singleton] at this
        omega
      subst hlen
      rw [List.getElem?_concat_length] at htag
      obtain rfl := Option.some.inj htag
      refine ⟨(laid types tags).aligned types c.type, ?_⟩
      rw [tagInfo_concat, ← length_tagInfo types tags, List.getElem?_concat_length]

/-- What is known of a tag. -/
theorem getInfo_laid {tags : List (Tag τ)} {h : Nat} {tag : Tag τ} {offset : UInt64}
    (hm : (laid types tags).tagInfo[h]? = some (noted types tag offset)) :
    (laid types tags).getInfo h = .ok (types.sizeofTag tag.type, offset, types.hashCode tag.type) := by
  rw [TagRegistry.getInfo, hm]
  rfl

/-- What is returned for a handle says what has been noted for its tag. -/
theorem noted_of_getInfo {tags : List (Tag τ)} {h : Nat} {tag : Tag τ} {size offset hashCode : UInt64} (htag : tags[h]? = some tag)
    (hinfo : (laid types tags).getInfo h = .ok (size, offset, hashCode)) :
    (laid types tags).tagInfo[h]? = some (noted types tag offset) ∧ size = types.sizeofTag tag.type ∧ hashCode = types.hashCode tag.type := by
  obtain ⟨offset', hm⟩ := getElem?_tagInfo types htag
  rw [getInfo_laid hm] at hinfo
  cases hinfo
  exact ⟨hm, rfl, rfl⟩

/-! ## A call -/

/-- An identifier without a zero is its text. -/
theorem cStr_eq {id : List UInt8} (hid : 0 ∉ id) : cStr id = id := by
  rw [cStr, List.takeWhile_eq_self_iff]
  intro b hb
  exact decide_eq_true fun h => hid (h ▸ hb)

/-- A tag is found by its identifier. -/
theorem findTag_laid (tags : List (Tag τ)) (id : List UInt8) :
    (laid types tags).findTag id = tags.findIdx? fun tag => tag.tagId = id := by
  have hinfo : (laid types tags).findTag id = ((laid types tags).tagInfo.map TagMetadata.tagId).findIdx? fun s => s = id := by
    rw [List.findIdx?_map]
    rfl
  rw [hinfo, ids_laid, List.findIdx?_map]
  rfl

/-- A known tag keeps its handle, if the type is the same. -/
theorem run_knownTag {ref : TagRegistry} {h : Nat} {m : TagMetadata} (hm : ref.tagInfo[h]? = some m) (t : τ) :
    (TagRegistry.knownTag types t h).run ref = if types.hashCode t = m.hashCode then .ok h ref
      else .error (.runtimeError "TagRegistry::register_tag: trying to register the same tag with different types") ref := by
  have hrun : (TagRegistry.knownTag types t h).run ref =
      (if some (types.hashCode t) ≠ (ref.tagInfo[h]?).map TagMetadata.hashCode then
        throw (.runtimeError "TagRegistry::register_tag: trying to register the same tag with different types")
      else pure h : Registering Nat).run ref := rfl
  rw [hrun, hm, Option.map_some]
  by_cases hhash : types.hashCode t = m.hashCode
  · rw [if_pos hhash, hhash, if_neg (not_not.mpr rfl)]
    rfl
  · rw [if_neg hhash, if_pos fun heq => hhash (Option.some.inj heq)]
    rfl

/-- A tag that is registered again. -/
theorem registerTag_known (types : TagTypes τ) {tags : List (Tag τ)} {c : Tag τ} (hid : 0 ∉ c.tagId) {h : Nat}
    (hfind : tags.findIdx? (fun tag => tag.tagId = c.tagId) = some h) {tag : Tag τ} (htag : tags[h]? = some tag) :
    (TagRegistry.registerTag types c.type c.tagId).run (laid types tags) =
      if types.hashCode c.type = types.hashCode tag.type then .ok h (laid types tags)
      else .error (.runtimeError "TagRegistry::register_tag: trying to register the same tag with different types") (laid types tags) := by
  have hrun : (TagRegistry.registerTag types c.type c.tagId).run (laid types tags) =
      (match (laid types tags).findTag (cStr c.tagId) with
        | some h => TagRegistry.knownTag types c.type h
        | none => TagRegistry.newTag types c.type c.tagId : Registering Nat).run (laid types tags) := rfl
  obtain ⟨offset, hm⟩ := getElem?_tagInfo types htag
  rw [hrun, cStr_eq hid, findTag_laid, hfind]
  exact run_knownTag hm c.type

/-- A tag that is registered for the first time. -/
theorem registerTag_new {tags : List (Tag τ)} {c : Tag τ} (hid : 0 ∉ c.tagId)
    (hfind : tags.findIdx? (fun tag => tag.tagId = c.tagId) = none) :
    (TagRegistry.registerTag types c.type c.tagId).run (laid types tags) = .ok tags.length (laid types (tags ++ [c])) := by
  have hrun : (TagRegistry.registerTag types c.type c.tagId).run (laid types tags) =
      (match (laid types tags).findTag (cStr c.tagId) with
        | some h => TagRegistry.knownTag types c.type h
        | none => TagRegistry.newTag types c.type c.tagId : Registering Nat).run (laid types tags) := rfl
  rw [hrun, cStr_eq hid, findTag_laid, hfind, laid_concat, ← length_tagInfo types tags]
  rfl

/-- A tag that is found has the identifier. -/
theorem exists_of_findIdx? {tags : List (Tag τ)} {id : List UInt8} {h : Nat}
    (hfind : tags.findIdx? (fun tag => tag.tagId = id) = some h) : ∃ tag, tags[h]? = some tag ∧ tag.tagId = id := by
  obtain ⟨hlt, hid, -⟩ := List.findIdx?_eq_some_iff_getElem.mp hfind
  exact ⟨tags[h], List.getElem?_eq_getElem hlt, of_decide_eq_true hid⟩

/-- A call on the registry is a call on the list. -/
theorem step_laid (tags : List (Tag τ)) {c : Tag τ} (hid : 0 ∉ c.tagId) : step types (laid types tags) c = laid types (registered tags c) := by
  rw [step, registered]
  cases hfind : tags.findIdx? fun tag => tag.tagId = c.tagId with
  | none => rw [registerTag_new hid hfind, Exn.leaves]
  | some h =>
    obtain ⟨tag, htag, -⟩ := exists_of_findIdx? hfind
    rw [registerTag_known types hid hfind htag]
    split <;> rfl

/-- The registry after calls has the first tags of each identifier. -/
theorem run_eq_laid {calls : List (Tag τ)} (hids : ∀ c ∈ calls, 0 ∉ c.tagId) : run types calls = laid types (firsts calls) := by
  induction calls using List.reverseRecOn with
  | nil => rfl
  | append_singleton calls c ih =>
    have hcalls := ih fun c' hc' => hids c' (List.mem_append_left _ hc')
    have hid := hids c (List.mem_append_right _ List.mem_cons_self)
    have hrun : run types (calls ++ [c]) = step types (run types calls) c := by
      rw [run, List.foldl_append]
      rfl
    have hfirsts : firsts (calls ++ [c]) = registered (firsts calls) c := by
      rw [firsts, List.foldl_append]
      rfl
    rw [hrun, hcalls, step_laid _ hid, hfirsts]

/-! ## What later calls leave -/

/-- A call only adds. -/
theorem prefix_registered (tags : List (Tag τ)) (c : Tag τ) : tags <+: registered tags c := by
  rw [registered]
  split
  · exact List.prefix_refl tags
  · exact List.prefix_append _ _

/-- More calls only add. -/
theorem prefix_firsts (calls more : List (Tag τ)) : firsts calls <+: firsts (calls ++ more) := by
  induction more using List.reverseRecOn with
  | nil => simp
  | append_singleton more c ih =>
    have hfirsts : firsts (calls ++ (more ++ [c])) = registered (firsts (calls ++ more)) c := by
      rw [← List.append_assoc, firsts, List.foldl_append]
      rfl
    rw [hfirsts]
    exact ih.trans (prefix_registered _ c)

/-- A tag that is found stays at its place. -/
theorem findIdx?_of_prefix {tags tags' : List (Tag τ)} (hext : tags <+: tags') {id : List UInt8} {h : Nat}
    (hfind : tags.findIdx? (fun tag => tag.tagId = id) = some h) : tags'.findIdx? (fun tag => tag.tagId = id) = some h := by
  obtain ⟨rest, rfl⟩ := hext
  rw [List.findIdx?_append, hfind]
  rfl

/-- What is known of a tag stays. -/
theorem getInfo_of_prefix {tags tags' : List (Tag τ)} (hext : tags <+: tags') {h : Nat} (hlt : h < tags.length) :
    (laid types tags').getInfo h = (laid types tags).getInfo h := by
  obtain ⟨rest, rfl⟩ := hext
  obtain ⟨offset, hm⟩ := getElem?_tagInfo types (List.getElem?_eq_getElem hlt)
  rw [TagRegistry.getInfo, TagRegistry.getInfo, getElem?_of_prefix (tagInfo_isPrefix_append tags rest) hm, hm]

/-! ## Blocks -/

variable (types)

/-- The sizes of the objects. -/
def sizes (tags : List (Tag τ)) : List Nat := tags.map fun tag => (types.sizeofObject tag.type).toNat

/-- The objects of the tags in the registry. -/
def blocks (tags : List (Tag τ)) (ref : TagRegistry) : List Blocks.Block :=
  List.zipWith (fun tag m => { start := m.offset.toNat, size := (types.sizeofObject tag.type).toNat }) tags ref.tagInfo

variable {types}

/-- An object has a size. -/
theorem sizeofObject_pos (types : TagTypes τ) (t : τ) : 0 < (types.sizeofObject t).toNat := by
  have hvalue := types.value_le t
  have hpos := types.sizeofTag_pos t
  omega

/-- The last tag has the last block. -/
theorem blocks_concat (tags : List (Tag τ)) (c : Tag τ) :
    blocks types (tags ++ [c]) (laid types (tags ++ [c])) = blocks types tags (laid types tags) ++
      [{ start := ((laid types tags).aligned types c.type).toNat, size := (types.sizeofObject c.type).toNat }] := by
  rw [blocks, tagInfo_concat, List.zipWith_append (length_tagInfo types tags).symm]
  rfl

/-- The offset of the next object, and the one behind it, as numbers of 64 bits. -/
theorem toNat_aligned (ref : TagRegistry) (t : τ) :
    (ref.aligned types t).toNat = alignUp ref.nextOffset.toNat (types.sizeofObject t).toNat % 2 ^ 64 := by
  have hpos := sizeofObject_pos types t
  have hmod := Nat.mod_lt ref.nextOffset.toNat hpos
  have hsize := (types.sizeofObject t).toNat_lt
  have hnext := ref.nextOffset.toNat_lt
  have hrem : ref.nextOffset % types.sizeofObject t ≠ 0 ↔ ¬ref.nextOffset.toNat % (types.sizeofObject t).toNat = 0 := by
    rw [ne_eq, ← UInt64.toNat_inj, UInt64.toNat_mod]
    rfl
  rw [TagRegistry.aligned, alignUp]
  by_cases h : ref.nextOffset.toNat % (types.sizeofObject t).toNat = 0
  · rw [if_neg (fun hne => hrem.mp hne h), if_pos h, Nat.mod_eq_of_lt hnext]
  · rw [if_pos (hrem.mpr h), if_neg h, UInt64.toNat_add, UInt64.toNat_sub, UInt64.toNat_mod]
    omega

/-- The next offset, modulo `2^64`. -/
theorem toNat_nextOffset_add (ref : TagRegistry) (t : τ) (tagId : List UInt8) :
    (ref.add types t tagId).nextOffset.toNat =
      (alignUp ref.nextOffset.toNat (types.sizeofObject t).toNat + (types.sizeofObject t).toNat) % 2 ^ 64 := by
  have hadd : (ref.add types t tagId).nextOffset = ref.aligned types t + types.sizeofObject t := rfl
  rw [hadd, UInt64.toNat_add, toNat_aligned]
  omega

/-- The last size. -/
theorem sizes_concat (tags : List (Tag τ)) (c : Tag τ) :
    sizes types (tags ++ [c]) = sizes types tags ++ [(types.sizeofObject c.type).toNat] := by
  rw [sizes, List.map_append]
  rfl

/-- The end of the last block. -/
theorem stop_concat (tags : List (Tag τ)) (c : Tag τ) :
    stop 0 (sizes types (tags ++ [c])) =
      alignUp (stop 0 (sizes types tags)) (types.sizeofObject c.type).toNat + (types.sizeofObject c.type).toNat := by
  rw [sizes_concat, stop_append]
  rfl

/-- While they fit, the objects are the blocks of their sizes. -/
theorem blocks_eq {tags : List (Tag τ)} (hfits : stop 0 (sizes types tags) < 2 ^ 64) :
    (laid types tags).nextOffset.toNat = stop 0 (sizes types tags) ∧
      blocks types tags (laid types tags) = place 0 (sizes types tags) := by
  induction tags using List.reverseRecOn with
  | nil => exact ⟨rfl, rfl⟩
  | append_singleton tags c ih =>
    have hle : stop 0 (sizes types tags) ≤ stop 0 (sizes types (tags ++ [c])) := by
      rw [sizes_concat]
      exact stop_le_append _ _ _
    obtain ⟨hnext, hblocks⟩ := ih (Nat.lt_of_le_of_lt hle hfits)
    rw [stop_concat] at hfits ⊢
    constructor
    · rw [laid_concat, toNat_nextOffset_add, hnext, Nat.mod_eq_of_lt hfits]
    · rw [blocks_concat, hblocks, toNat_aligned, hnext, Nat.mod_eq_of_lt (by omega), sizes_concat, place_append]
      rfl

/-- Blocks that end where a number of 64 bits can, at multiples of their sizes, and apart. -/
def Sound (bs : List Blocks.Block) : Prop := (∀ b ∈ bs, b.stop < 2 ^ 64 ∧ b.size ∣ b.start) ∧ bs.Pairwise Blocks.Block.Disjoint

/-- What is sound is so in its first part. -/
theorem Sound.of_append {bs bs' : List Blocks.Block} (h : Sound (bs ++ bs')) : Sound bs :=
  ⟨fun b hb => h.1 b (List.mem_append_left _ hb), (List.pairwise_append.mp h.2).1⟩

/-- Where an offset has wrapped the blocks are not sound. -/
theorem fits_of_sound {tags : List (Tag τ)} (hsound : Sound (blocks types tags (laid types tags))) :
    stop 0 (sizes types tags) < 2 ^ 64 := by
  induction tags using List.reverseRecOn with
  | nil => exact Nat.two_pow_pos 64
  | append_singleton tags c ih =>
    rw [blocks_concat] at hsound
    have hfits := ih hsound.of_append
    obtain ⟨hnext, hblocks⟩ := blocks_eq hfits
    obtain ⟨hstop, hdvd⟩ := hsound.1 _ (List.mem_append_right _ List.mem_cons_self)
    have hpos := sizeofObject_pos types c.type
    have hlt := alignUp_lt (stop 0 (sizes types tags)) hpos
    rw [Blocks.Block.stop, toNat_aligned, hnext] at hstop
    rw [toNat_aligned, hnext] at hdvd
    rw [stop_concat]
    dsimp only at hstop hdvd
    by_contra hge
    rcases Nat.lt_or_ge (alignUp (stop 0 (sizes types tags)) (types.sizeofObject c.type).toNat) (2 ^ 64) with hsmall | hwrap
    · rw [Nat.mod_eq_of_lt hsmall] at hstop
      exact hge hstop
    · -- the object begins at 0, where the first one is
      have hzero : alignUp (stop 0 (sizes types tags)) (types.sizeofObject c.type).toNat % 2 ^ 64 = 0 :=
        Nat.eq_zero_of_dvd_of_lt hdvd (by omega)
      cases tags with
      | nil =>
        have hnone : alignUp (stop 0 (sizes types ([] : List (Tag τ)))) (types.sizeofObject c.type).toNat = 0 := zero_alignUp _
        omega
      | cons tag tags =>
        have hfirst := (List.pairwise_append.mp hsound.2).2.2
        rw [hblocks, toNat_aligned, hnext, hzero, sizes, List.map_cons, place] at hfirst
        have hdisjoint := hfirst _ List.mem_cons_self _ List.mem_cons_self
        rw [Blocks.Block.Disjoint, Blocks.Block.stop, Blocks.Block.stop, zero_alignUp] at hdisjoint
        have hpos' := sizeofObject_pos types tag.type
        dsimp only at hdisjoint
        omega

end Tags

end Blockmon.Tags
