import Blockmon.Filter

/-!
# Conditions

What a configuration asks for: each field that has a node is a condition, and the node says whether it is negated. The mode of the field and the
tests of `go_ahead` come to the same.
-/

namespace Blockmon.Filtering

open Blockmon.Messages (ntohl)

namespace Filter

/-- The condition of the node is negated. -/
def Discards (c : XmlNode) : Prop := (c.child "filter_mode").bind (fun mode => mode.attr "behavior") = some "discard"

/-- `[not] cond=val`: if there is a node for the field, its test holds, or does not if it is negated. -/
def Holds (n : XmlNode) (fieldname : String) (test : XmlNode → Prop) : Prop :=
  ∀ c, n.child fieldname = some c → (test c ↔ ¬Discards c)

/-- The number in an attribute. -/
def number (T : Texts) (c : XmlNode) (key : String) : UInt32 := ((c.attr key).map T.asUint).getD 0

/-- The address in an attribute. -/
def address (T : Texts) (c : XmlNode) (key : String) : UInt32 := (((c.attr key).bind T.inetPton).map ntohl).getD 0

/-- An address is the one of the node, as far as its mask goes. -/
def InNet (T : Texts) (ip : UInt32) (c : XmlNode) : Prop := address T c "address" &&& address T c "netmask" = ip &&& address T c "netmask"

/-! ## The mode -/

section Mode

variable {c n : XmlNode} {mode : UInt8} {fieldname : String}

/-- A field that is configured has one of two modes. -/
theorem parseFilterMode_cases (h : (parseFilterMode c 0).1 = true) :
    ((parseFilterMode c 0).2 = 2 ∧ ¬Discards c) ∨ ((parseFilterMode c 0).2 = 6 ∧ Discards c) := by
  rw [parseFilterMode] at h ⊢
  rw [Discards]
  cases hmode : c.child "filter_mode" with
  | none =>
    rw [hmode] at h
    cases h
  | some mode =>
    rw [hmode] at h
    dsimp only [Option.bind_some] at h ⊢
    cases hbehavior : mode.attr "behavior" with
    | none =>
      rw [hbehavior] at h
      cases h
    | some behavior =>
      rw [hbehavior] at h
      dsimp only at h ⊢
      by_cases hdiscard : behavior = "discard"
      · rw [if_pos hdiscard, hdiscard]
        exact Or.inr ⟨rfl, rfl⟩
      · rw [if_neg hdiscard] at h ⊢
        by_cases haccept : behavior = "accept"
        · rw [if_pos haccept]
          exact Or.inl ⟨rfl, fun h => hdiscard (Option.some.inj h)⟩
        · rw [if_neg haccept] at h
          cases h

/-- The mode of a field after the configuration, and what `K` says about its node. -/
def Configured (n : XmlNode) (fieldname : String) (mode : UInt8) (K : XmlNode → Prop) : Prop :=
  (n.child fieldname = none ∧ mode = 0) ∨
    ∃ c, n.child fieldname = some c ∧ K c ∧ ((mode = 2 ∧ ¬Discards c) ∨ (mode = 6 ∧ Discards c))

/-- A field that is read is configured. -/
theorem configured_parseField {α : Type} {value value' : α} {read : XmlNode → Except String α}
    (h : parseField n fieldname 0 value read = .ok (mode, value')) : Configured n fieldname mode fun c => read c = .ok value' := by
  rw [parseField] at h
  cases hc : n.child fieldname with
  | none =>
    rw [hc] at h
    cases h
    exact Or.inl ⟨hc, rfl⟩
  | some c =>
    rw [hc] at h
    dsimp only at h
    by_cases hmode : (parseFilterMode c 0).1 = true
    · rw [if_pos hmode] at h
      obtain ⟨v, hread, hv⟩ := Exn.except_bind_eq_ok.mp h
      cases hv
      exact Or.inr ⟨c, hc, hread, parseFilterMode_cases hmode⟩
    · rw [if_neg hmode] at h
      cases h

/-- The field is not looked at, or the filtering goes on. -/
def passes (mode : UInt8) (result : Bool) : Bool := !isIndirect mode || goAhead result mode

/-- A field passes if its condition holds. -/
theorem passes_iff {K test : XmlNode → Prop} {result : Bool} (h : Configured n fieldname mode K)
    (htest : ∀ c, n.child fieldname = some c → K c → (result = true ↔ test c)) : passes mode result = true ↔ Holds n fieldname test := by
  rcases h with ⟨hnone, rfl⟩ | ⟨c, hc, hK, hmode⟩
  · refine ⟨fun _ c hc => ?_, fun _ => rfl⟩
    rw [hnone] at hc
    cases hc
  · have hholds : Holds n fieldname test ↔ (test c ↔ ¬Discards c) := by
      refine ⟨fun h => h c hc, fun h c' hc' => ?_⟩
      rw [hc] at hc'
      cases hc'
      exact h
    rw [hholds, ← htest c hc hK]
    rcases hmode with ⟨rfl, hdiscards⟩ | ⟨rfl, hdiscards⟩
    · have hpasses : passes 2 result = result := by cases result <;> rfl
      simp only [hdiscards, hpasses, not_false_eq_true, iff_true]
    · have hpasses : passes 6 result = !result := by cases result <;> rfl
      simp only [hdiscards, hpasses, not_true_eq_false, iff_false, Bool.not_eq_true, Bool.not_eq_true']

end Mode

/-! ## What is read -/

/-- An attribute that is required is there. -/
theorem require_eq_ok {c : XmlNode} {key fieldname s : String} (h : require c key fieldname = .ok s) : c.attr key = some s := by
  rw [require] at h
  cases hattr : c.attr key with
  | none =>
    rw [hattr] at h
    cases h
  | some s' =>
    rw [hattr] at h
    cases h
    rfl

/-- The address of an attribute. -/
theorem stringToIp_eq_ok {T : Texts} {c : XmlNode} {key fieldname : String} {ip : UInt32}
    (h : (do stringToIp T (← require c key fieldname)) = .ok ip) : address T c key = ip := by
  obtain ⟨s, hs, hip⟩ := Exn.except_bind_eq_ok.mp h
  rw [stringToIp] at hip
  rw [address, require_eq_ok hs, Option.bind_some]
  cases hread : T.inetPton s with
  | none =>
    rw [hread] at hip
    cases hip
  | some ip' =>
    rw [hread] at hip
    cases hip
    rfl

/-- The number of an attribute. -/
theorem readNumber_eq_ok {T : Texts} {c : XmlNode} {fieldname : String} {v : UInt16} (h : readNumber T fieldname c = .ok v) :
    v = (number T c "number").toUInt16 := by
  obtain ⟨s, hs, hv⟩ := Exn.except_bind_eq_ok.mp h
  cases hv
  rw [number, require_eq_ok hs]
  rfl

/-- A number matches just when it is the one that is cut. -/
theorem number_iff {T : Texts} {c : XmlNode} {fieldname : String} {v : UInt16} (h : readNumber T fieldname c = .ok v) (w : UInt16) :
    decide (v = w) = true ↔ (number T c "number").toUInt16 = w := by
  rw [decide_eq_true_iff, readNumber_eq_ok h]

/-- An address matches just when it is in the network. -/
theorem matchesAddress_iff {T : Texts} {c : XmlNode} {fieldname : String} {configured : UInt32 × UInt32}
    (h : readAddress T fieldname c = .ok configured) (ip : UInt32) : matchesAddress configured ip = true ↔ InNet T ip c := by
  obtain ⟨s, hs, h⟩ := Exn.except_bind_eq_ok.mp h
  obtain ⟨a, ha, h⟩ := Exn.except_bind_eq_ok.mp h
  obtain ⟨s', hs', h⟩ := Exn.except_bind_eq_ok.mp h
  obtain ⟨m, hm, h⟩ := Exn.except_bind_eq_ok.mp h
  cases h
  rw [InNet, stringToIp_eq_ok (Exn.except_bind_eq_ok.mpr ⟨s, hs, ha⟩), stringToIp_eq_ok (Exn.except_bind_eq_ok.mpr ⟨s', hs', hm⟩)]
  exact decide_eq_true_iff

/-- What the configuration of a new filter sets. -/
structure Read (T : Texts) (n : XmlNode) (f : Filter) : Prop where
  ipSrc : Configured n "ip_src" f.ipSrcMode fun c => readAddress T "ip_src" c = .ok f.ipSrc
  ipDst : Configured n "ip_dst" f.ipDstMode fun c => readAddress T "ip_dst" c = .ok f.ipDst
  layer4 : Configured n "l4_protocol" f.layer4Mode fun c => readNumber T "l4_protocol" c = .ok f.layer4Proto
  srcPortMode : f.srcPortMode = 0
  dstPortMode : f.dstPortMode = 0

/-- What `_configure` reads. -/
theorem read_configure {T : Texts} {n : XmlNode} {f : Filter} (h : configure T n new = .ok f) : Read T n f := by
  obtain ⟨⟨ipSrcMode, ipSrc⟩, hsrc, h⟩ := Exn.except_bind_eq_ok.mp h
  obtain ⟨⟨ipDstMode, ipDst⟩, hdst, h⟩ := Exn.except_bind_eq_ok.mp h
  obtain ⟨⟨layer4Mode, layer4Proto⟩, hl4, h⟩ := Exn.except_bind_eq_ok.mp h
  cases h
  exact ⟨configured_parseField hsrc, configured_parseField hdst, configured_parseField hl4, rfl, rfl⟩

end Filter

end Blockmon.Filtering
